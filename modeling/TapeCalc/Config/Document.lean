import TapeCalc.Config.Basic
import TapeCalc.Config.Json

/-!
# Configuration documents

A configuration written in JSON. It has three sections, and each of them, as the whole, is an
object or an array of its fields in order. What is left out keeps its default.
-/
namespace TapeCalc

namespace Json

/-- How often a key occurs. -/
def countKey (name : String) (members : List (Option String × Json)) : Nat :=
  (members.filter fun m => m.1 == some name).length

/-- The values of named fields, by key or by place. Unknown keys are passed over; a field given
twice, a key that is no text and an item too many are refused. -/
def fields? (names : List String) : Json → Option (List (Option Json))
  | array items =>
    if items.length ≤ names.length then
      some ((List.range names.length).map fun i => items[i]?)
    else none
  | object members =>
    if members.all (fun m => m.1.isSome) && names.all fun name => countKey name members ≤ 1 then
      some (names.map fun name => members.lookup (some name))
    else none
  | _ => none

/-- A whole number of 64 bits, written with digits alone. -/
def word? : Json → Option UInt64
  | number digits =>
    if digits.all Char.isDigit then
      let n := Nat.ofDigitChars 10 digits 0
      if n < 2 ^ 64 then some (UInt64.ofNat n) else none
    else none
  | _ => none

def bool? : Json → Option Bool
  | bool b => some b
  | _ => none

def text? : Json → Option String
  | string text => text
  | _ => none

/-- Null, or what another reader accepts. -/
def orNull? {α : Type} (read : Json → Option α) : Json → Option (Option α)
  | null => some none
  | v => (read v).map some

def modeNamed? (name : String) : Option Mode :=
  if name = "EightBit" || name = "8bit" then some .eightBit
  else if name = "BigNumber" || name = "big" then some .bigNumber
  else none

/-- A mode's name, alone or as the only key of an object, with null beside it. -/
def mode? : Json → Option Mode
  | string (some name) => modeNamed? name
  | object [(some name, null)] => modeNamed? name
  | _ => none

/-- The value of a field, or its default when the field is left out. -/
def fieldOr {α : Type} (default : α) (read : Json → Option α) : Option Json → Option α
  | none => some default
  | some v => read v

end Json

namespace Config

open Json

def withGeneral (config : Config) (section? : Option Json) : Option Config :=
  match section?.map (fields? ["mode", "modules_dir"]) with
  | none => some config
  | some (some [mode, dir]) => do
    let mode ← fieldOr config.mode mode? mode
    let dir ← fieldOr config.modulesDir (orNull? text?) dir
    return { config with mode := mode, modulesDir := dir }
  | _ => none

def withMachine (config : Config) (section? : Option Json) : Option Config :=
  match section?.map (fields? ["tape_size", "step_limit", "trace"]) with
  | none => some config
  | some (some [size, limit, trace]) => do
    let size ← fieldOr config.tapeSize word? size
    let limit ← fieldOr config.stepLimit (orNull? word?) limit
    let trace ← fieldOr config.trace bool? trace
    return { config with tapeSize := size, stepLimit := limit, trace := trace }
  | _ => none

def withArith (config : Config) (section? : Option Json) : Option Config :=
  match section?.map (fields? ["max_exponent", "max_result_bits"]) with
  | none => some config
  | some (some [exponent, bits]) => do
    let exponent ← fieldOr config.limits.maxExponent word? exponent
    let bits ← fieldOr config.limits.maxResultBits word? bits
    return { config with limits := ⟨exponent, bits⟩ }
  | _ => none

def ofJson? (document : Json) : Option Config :=
  match fields? ["general", "machine", "arith"] document with
  | some [general, machine, arith] => do
    let config ← withGeneral {} general
    let config ← withMachine config machine
    withArith config arith
  | _ => none

/-- Reads and validates a document. A document that is not understood is refused first. -/
def parse (text : String) : Except ConfigError Config :=
  match (Json.parse? text).bind ofJson? with
  | none => .error .malformed
  | some config => config.validate.map fun _ => config

end Config

end TapeCalc
