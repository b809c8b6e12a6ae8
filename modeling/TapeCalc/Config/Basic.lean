import TapeCalc.Arithmetic

/-!
# Configuration

The settings of a calculator, with their defaults.
-/
namespace TapeCalc

/-- The tape machine computes modulo 256, the cell arithmetic exactly. -/
inductive Mode where
  | eightBit
  | bigNumber
  deriving DecidableEq, Repr

def Mode.describe : Mode → String
  | eightBit => "8-bit (results modulo 256)"
  | bigNumber => "Big numbers (no limits)"

structure Config where
  mode : Mode := .bigNumber
  modulesDir : Option String := none
  tapeSize : UInt64 := 30000
  stepLimit : Option UInt64 := none
  trace : Bool := false
  limits : Limits := {}
  deriving DecidableEq, Repr

inductive ConfigError where
  | malformed
  | noTape
  | noSteps
  deriving DecidableEq, Repr

/-- Refuses a tape without cells and a limit without steps. -/
def Config.validate (config : Config) : Except ConfigError Unit :=
  if config.tapeSize = 0 then .error .noTape
  else if config.stepLimit = some 0 then .error .noSteps
  else .ok ()

end TapeCalc
