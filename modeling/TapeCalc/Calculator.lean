import TapeCalc.Failure

/-!
# Calculator

Evaluates an operator on two numbers, or a text, in either mode. The tape machine may run for
ever, so evaluation on it takes fuel and gives `none` when that runs out; exact arithmetic takes
none.
-/
namespace TapeCalc

/-- A value, and in 8-bit mode the counters of the run that gave it. -/
structure Evaluation where
  value : Value
  counters : Option Counters
  deriving DecidableEq

structure Calculator where
  machine : Machine
  trace : Bool
  library : Library
  limits : Limits
  mode : Mode

namespace Calculator

/-- A calculator with a given library. The configuration is taken as it is. -/
def withLibrary (config : Config) (library : Library) : Calculator where
  machine := ⟨config.tapeSize.toNat, config.stepLimit.map UInt64.toNat⟩
  trace := config.trace
  library := library
  limits := config.limits
  mode := config.mode

/-- The library of a configuration: its folder's, or the built-in one. -/
def loadLibrary (read : String → Except ReadError String) (config : Config) :
    Except LibraryError Library :=
  match config.modulesDir with
  | none => .ok .builtin
  | some folder => Library.load read folder

/-- Validates the configuration, then loads its library. -/
def load (read : String → Except ReadError String) (config : Config) :
    Except Failure Calculator :=
  match config.validate with
  | .error cause => .error (.config cause)
  | .ok () =>
    match loadLibrary read config with
    | .error cause => .error (.library cause)
    | .ok library => .ok (withLibrary config library)

/-- The first byte of a run's output is the value. -/
def evaluationOf (op : Operator) (report : Report) : Except Failure Evaluation :=
  match report.output with
  | [] => .error (.noOutput op)
  | c :: _ => .ok ⟨.finite (.ofByte c), some report.counters⟩

/-- Runs the operator's program on two bytes. Nothing is run to divide by zero. -/
def evaluateEightBit (calculator : Calculator) (fuel : Nat) (op : Operator) (a b : UInt8) :
    Option (Except Failure Evaluation) :=
  if op = .div ∧ b = 0 then some (.ok ⟨.infinity, none⟩)
  else
    (calculator.machine.execute fuel (calculator.library.get op).program [a, b]).map fun
      | .error fault => .error (.machine fault)
      | .ok report => evaluationOf op report

/-- Applies the operator to the numbers themselves. -/
def evaluateBig (calculator : Calculator) (op : Operator) (a b : Number) :
    Except Failure Value :=
  match op.apply calculator.limits a b with
  | .error cause => .error (.power cause)
  | .ok value => .ok value

/-- Evaluates in a mode; 8-bit mode takes the numbers modulo 256. -/
def evaluate (calculator : Calculator) (fuel : Nat) (mode : Mode) (op : Operator) (a b : Number) :
    Option (Except Failure Evaluation) :=
  match mode with
  | .eightBit => calculator.evaluateEightBit fuel op a.lowCell b.lowCell
  | .bigNumber => some ((calculator.evaluateBig op a b).map fun value => ⟨value, none⟩)

/-- Reads and evaluates a text. -/
def calculate (calculator : Calculator) (fuel : Nat) (mode : Mode) (text : String) :
    Option (Except Failure Evaluation) :=
  match Expression.parse text with
  | .error failure => some (.error failure)
  | .ok e => calculator.evaluate fuel mode e.op e.lhs e.rhs

/-- Reads a text and evaluates it exactly. -/
def calculateBig (calculator : Calculator) (text : String) : Except Failure Value :=
  match Expression.parse text with
  | .error failure => .error failure
  | .ok e => calculator.evaluateBig e.op e.lhs e.rhs

/-- Evaluates texts in the calculator's own mode; a failure does not stop the rest. -/
def batch (calculator : Calculator) (fuel : Nat) (texts : List String) :
    Option (List (String × Except Failure Value)) :=
  texts.mapM fun text =>
    (calculator.calculate fuel calculator.mode text).map fun answer =>
      (text, answer.map Evaluation.value)

end Calculator

end TapeCalc
