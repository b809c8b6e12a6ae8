import TapeCalc.Config.Basic
import TapeCalc.Expression
import TapeCalc.Library.Basic
import TapeCalc.Run.Basic
import TapeCalc.Text.Quoted

/-!
# Failures

Everything that can keep a calculation from a value, and the message of each cause.
-/
namespace TapeCalc

inductive Failure where
  | unsupported (symbol : Char)
  | unreadable (compact : String)
  | numeral (cause : NumeralError)
  | machine (cause : Fault)
  | power (cause : PowerError)
  | library (cause : LibraryError)
  | config (cause : ConfigError)
  | noOutput (op : Operator)
  deriving DecidableEq, Repr

def ProgramError.message : ProgramError → String
  | unmatchedStart offset => "unmatched '[' at offset " ++ toString offset
  | unmatchedEnd offset => "unmatched ']' at offset " ++ toString offset

def NumeralError.message : NumeralError → String
  | empty => "empty number"
  | invalidDigit digit index =>
    "invalid digit " ++ Text.quoted digit ++ " at index " ++ toString index

def Fault.message : Fault → String
  | inputExhausted position => "input exhausted at instruction " ++ toString position
  | stepLimitExceeded limit => "step limit of " ++ toString limit ++ " exceeded"

def PowerError.message : PowerError → String
  | exponentTooLarge exponent limit =>
    "exponent is too large: " ++ toString exponent ++ " (limit " ++ toString limit ++ ")"
  | resultTooLarge bits limit =>
    "result would be too large: ~" ++ toString bits ++ " bits (limit " ++ toString limit ++ ")"

def LibraryError.message : LibraryError → String
  | unreadable path cause => "failed to read program '" ++ path ++ "': " ++ cause.message
  | malformed path cause => "invalid program '" ++ path ++ "': " ++ cause.message

def ConfigError.message : ConfigError → String
  | malformed => "invalid configuration JSON"
  | noTape => "invalid configuration: machine.tape_size must be at least 1"
  | noSteps => "invalid configuration: machine.step_limit must be at least 1"

def Failure.message : Failure → String
  | unsupported symbol => "unsupported operation: '" ++ symbol.toString ++ "'"
  | unreadable compact => "cannot parse expression: '" ++ compact ++ "'"
  | numeral cause => cause.message
  | machine cause => cause.message
  | power cause => cause.message
  | library cause => cause.message
  | config cause => cause.message
  | noOutput op => "program for '" ++ op.text ++ "' produced no output"

/-- The operator of a symbol. -/
def Operator.ofSymbol (symbol : Char) : Except Failure Operator :=
  match ofSymbol? symbol with
  | some op => .ok op
  | none => .error (.unsupported symbol)

/-- The expression that a text holds. -/
def Expression.parse (text : String) : Except Failure Expression :=
  match parse? text with
  | some e => .ok e
  | none => .error (.unreadable (String.ofList (Text.compact text.toList)))

end TapeCalc
