import TapeCalc.CommandLine.Help
import TapeCalc.CommandLine.Options
import TapeCalc.Journal
import TapeCalc.Run.Summary

/-!
# Sessions

What a command writes: a block of results for the expressions among its arguments, and the
dialogue of the prompt. Both answer a text in the same way.
-/
namespace TapeCalc.CommandLine

/-- What has been written to the two streams; the second one by lines. -/
structure Transcript where
  written : String := ""
  errors : List String := []
  deriving DecidableEq, Repr

namespace Transcript

def append (first second : Transcript) : Transcript :=
  ⟨first.written ++ second.written, first.errors ++ second.errors⟩

instance : Append Transcript := ⟨append⟩

def write (text : String) : Transcript := ⟨text, []⟩

def writeLine (text : String) : Transcript := ⟨text ++ "\n", []⟩

def report (line : String) : Transcript := ⟨"", [line]⟩

end Transcript

/-- A calculator with the options that it was made for. -/
structure Session where
  calculator : Calculator
  options : Options
  mode : Mode

/-- The entries that the verbosity lets through. -/
def Options.log (options : Options) (entries : List LogEntry) : Transcript :=
  ⟨"", (entries.filter fun entry => options.admits entry.level.rank).map LogEntry.line⟩

namespace Session

/-- The counters of an evaluation, when they are wanted. -/
def statsText (session : Session) (evaluation : Evaluation) : String :=
  match session.options.stats, evaluation.counters with
  | true, some counters => counters.summary
  | _, _ => ""

/-- The log of evaluating a text. Every entry needs a raised verbosity. -/
def logText (session : Session) (fuel : Nat) (text : String) : Transcript :=
  if session.options.verbosity = 0 then {}
  else
    session.options.log
      (session.calculator.journal (decide (2 ≤ session.options.verbosity)) fuel session.mode text)

/-- Evaluates a text and writes what `value` and `failure` make of the answer. -/
def answer (session : Session) (fuel : Nat) (text : String) (value : String → String)
    (failure : String → String) : Option Transcript :=
  (session.calculator.calculate fuel session.mode text).map fun result =>
    session.logText fuel text ++ match result with
      | .ok evaluation =>
        .write (value evaluation.value.text ++ "\n" ++ session.statsText evaluation)
      | .error cause => .writeLine (failure cause.message)

/-- The answer to an expression among the arguments. -/
def batchAnswer (session : Session) (fuel : Nat) (text : String) : Option Transcript :=
  session.answer fuel text (fun value => text ++ " = " ++ value)
    (fun message => text ++ ": ERROR - " ++ message)

/-- The answer to a line of the prompt. -/
def promptAnswer (session : Session) (fuel : Nat) (text : String) : Option Transcript :=
  session.answer fuel text (fun value => "= " ++ value) (fun message => "Error: " ++ message)

/-- The block of results, if there are expressions. -/
def batch (session : Session) (fuel : Nat) : Option Transcript :=
  if session.options.expressions.isEmpty then some {}
  else
    (session.options.expressions.mapM (session.batchAnswer fuel)).map fun answers =>
      .write ("\nResults:\n" ++ thinRule 40 ++ "\n") ++
        answers.foldl (· ++ ·) {} ++ .writeLine (thinRule 40)

/-- What a line of the prompt asks for. -/
inductive Request where
  | quit
  | help
  | nothing
  | evaluate (text : String)
  deriving DecidableEq, Repr

/-- Blanks at the ends do not count, and the words of the prompt may be in capitals. No capital
letter beyond ASCII belongs to a letter of these words. -/
def requestOf (line : String) : Request :=
  let text := Text.strip line.toList
  let word := String.ofList (text.map Char.toLower)
  if word = "quit" || word = "exit" || word = "q" then .quit
  else if word = "help" then .help
  else if text.isEmpty then .nothing
  else .evaluate (String.ofList text)

/-- What is written in reply to a line other than the last. -/
def reply (session : Session) (fuel : Nat) : Request → Option Transcript
  | .quit => some (.writeLine "Exiting...")
  | .help => some (.write (String.join (promptHelp.map (· ++ "\n"))))
  | .nothing => some {}
  | .evaluate text => session.promptAnswer fuel text

def greeting (session : Session) : Transcript :=
  .write ("Mode: " ++ session.mode.describe ++ "\nSupported operations: " ++
    ", ".intercalate (Operator.all.map Operator.text) ++
    "\nEnter 'help' for help, 'quit' to exit\n")

def promptMark : String := "\n> "

/-- What is written at the end of the input. -/
def farewell : Transcript := .write "\n\nExiting...\n"

/-- What is written about a line that is no text. -/
def refusal : Transcript := .report ("Error: " ++ ReadError.notText.message)

/-- The dialogue over the lines of the input. A line that is `none` is no text. -/
def dialogue (session : Session) (fuel : Nat) : List (Option String) → Option Transcript
  | [] => some (.write promptMark ++ farewell)
  | none :: _ => some (.write promptMark ++ refusal)
  | some line :: lines =>
    match session.reply fuel (requestOf line) with
    | none => none
    | some here =>
      if requestOf line = .quit then some (.write promptMark ++ here)
      else (session.dialogue fuel lines).map fun rest => .write promptMark ++ here ++ rest

/-- The prompt is used when it is asked for, and when there is nothing else to do. -/
def isInteractive (session : Session) : Bool :=
  session.options.interactive || session.options.expressions.isEmpty

/-- Everything that a session writes. -/
def transcript (session : Session) (fuel : Nat) (lines : List (Option String)) :
    Option Transcript := do
  let results ← session.batch fuel
  if session.isInteractive then
    let dialogue ← session.dialogue fuel lines
    return results ++ session.greeting ++ dialogue
  else return results

end Session

/-- The configuration that the options name, or the line to stop with. -/
def Options.configure (options : Options) (read : String → Except ReadError String) :
    Except String Config :=
  match options.config with
  | none => .ok (options.override {})
  | some path =>
    match read path with
    | .error cause => .error ("Error reading config " ++ path ++ ": " ++ cause.message)
    | .ok text =>
      match Config.parse text with
      | .error cause => .error ("Initialization error: " ++ cause.message)
      | .ok config => .ok (options.override config)

/-- The lines of some bytes, `none` for one that is not UTF-8. -/
def inputLines (bytes : List UInt8) : List (Option String) :=
  let lines := bytes.splitOn 10
  let lines := if lines.getLast? = some [] then lines.dropLast else lines
  lines.map fun line => String.fromUTF8? ⟨line.toArray⟩

/-- The exit status and the transcript of a command. -/
structure Exit where
  status : Nat
  transcript : Transcript
  deriving DecidableEq, Repr

def Stop.exit : Stop → Exit
  | .shortHelp => ⟨0, .write shortHelpText⟩
  | .longHelp => ⟨0, .write longHelpText⟩
  | .version => ⟨0, .write versionText⟩
  | .usage _ => ⟨2, {}⟩

/-- The session of some options and the log of its making, or the end of the command. -/
def Options.begin (options : Options) (read : String → Except ReadError String) :
    Except Exit (Transcript × Session) :=
  match options.configure read with
  | .error line => .error ⟨1, .report line⟩
  | .ok config =>
    let loading := options.log (Calculator.loadJournal read config)
    match Calculator.load read config with
    | .error failure =>
      .error ⟨1, loading ++ .report ("Initialization error: " ++ failure.message)⟩
    | .ok calculator => .ok (loading, ⟨calculator, options, config.mode⟩)

/-- A whole command: its arguments, its input, and the files that it can read. -/
def run (fuel : Nat) (read : String → Except ReadError String) (arguments : List String)
    (input : List UInt8) : Option Exit :=
  match Options.parse arguments with
  | .error stop => some stop.exit
  | .ok options =>
    match options.begin read with
    | .error exit => some exit
    | .ok (loading, session) =>
      (session.transcript fuel (inputLines input)).map fun transcript =>
        ⟨0, loading ++ transcript⟩

end TapeCalc.CommandLine
