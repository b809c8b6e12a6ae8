import TapeCalc.Calculator

/-!
# Journal

The log entries of loading a library and of an evaluation. They are found beside the values and
change none of them.
-/
namespace TapeCalc

inductive Level where
  | trace
  | debug
  | warn
  deriving DecidableEq, Repr

def Level.name : Level → String
  | trace => "TRACE"
  | debug => "DEBUG"
  | warn => "WARN"

def Level.rank : Level → Nat
  | trace => 0
  | debug => 1
  | warn => 2

/-- A message of one part of the program, with named details. -/
structure LogEntry where
  level : Level
  source : String
  message : String
  details : List (String × String)
  deriving DecidableEq, Repr

def LogEntry.line (entry : LogEntry) : String :=
  entry.level.name ++ " " ++ entry.source ++ ": " ++ entry.message ++
    String.join (entry.details.map fun (key, value) => " " ++ key ++ "=" ++ value)

namespace Library

/-- The entry about one program; a program that fails has none. -/
def loadEntry (read : String → Except ReadError String) (folder : String) (op : Operator) :
    List LogEntry :=
  let path := op.path folder
  match read path with
  | .error .notFound =>
    [⟨.warn, "bfcalc_core::programs::library",
      "program file not found, using built-in " ++ op.name, [("op", op.text), ("path", path)]⟩]
  | .error _ => []
  | .ok source =>
    match Program.parse source with
    | .error _ => []
    | .ok program =>
      [⟨.debug, "bfcalc_core::programs::library", "loaded program",
        [("op", op.text), ("path", path), ("instructions", toString program.size)]⟩]

/-- The entries of loading, up to the first program that fails. -/
def loadJournal (read : String → Except ReadError String) (folder : String) : List LogEntry :=
  (Operator.all.takeWhile fun op => (Entry.load read folder op).isOk).flatMap
    (loadEntry read folder)

end Library

namespace State

/-- The entry about the next step, if one is taken. -/
def traceEntry (program : Program) (limit : Option Nat) (s : State) : List LogEntry :=
  match program.fetch? s.place with
  | none => []
  | some i =>
    if limit.any (· ≤ s.counters.steps) then []
    else
      [⟨.trace, "bfcalc_core::machine::execution", "step",
        [("pc", toString s.place), ("pointer", toString s.tape.pointer),
          ("cell", toString s.tape.read), ("instruction", i.symbol.toString)]⟩]

/-- The entries of a run, the latest first, on top of earlier ones. -/
def traceRun (program : Program) (limit : Option Nat) :
    Nat → State → List LogEntry → List LogEntry
  | 0, _, entries => entries
  | fuel + 1, s, entries =>
    let entries := s.traceEntry program limit ++ entries
    match s.step program limit with
    | (.advanced, s) => traceRun program limit fuel s entries
    | _ => entries

end State

namespace Machine

def startEntry (m : Machine) (program : Program) (input : List UInt8) : LogEntry :=
  ⟨.debug, "bfcalc_core::machine", "tape machine run starting",
    [("instructions", toString program.size), ("input_len", toString input.length),
      ("tape_size", toString m.tapeSize)]⟩

def endEntry : Except Fault Unit × State → LogEntry
  | (.error fault, s) =>
    ⟨.debug, "bfcalc_core::machine", "tape machine run failed",
      [("error", fault.message), ("steps", toString s.counters.steps)]⟩
  | (.ok (), s) =>
    ⟨.debug, "bfcalc_core::machine", "tape machine run finished",
      [("steps", toString s.counters.steps), ("output_len", toString s.output.size)]⟩

/-- The entries of a run, with one for each step if they are traced. -/
def journal (m : Machine) (traced : Bool) (fuel : Nat) (program : Program) (input : List UInt8) :
    List LogEntry :=
  let steps :=
    if traced then ((m.start input).traceRun program m.stepLimit fuel []).reverse else []
  let ending := (m.start input).runToEnd program m.stepLimit fuel
  m.startEntry program input :: steps ++ (ending.map endEntry).toList

end Machine

namespace Calculator

def eightBitEntry (op : Operator) (a b : UInt8) : Except Failure Evaluation → List LogEntry
  | .ok ⟨.finite n, some counters⟩ =>
    [⟨.debug, "bfcalc_core::calc", "8-bit evaluation",
      [("op", op.text), ("a", toString a), ("b", toString b), ("result", n.text),
        ("steps", toString counters.steps)]⟩]
  | _ => []

def eightBitJournal (calculator : Calculator) (traced : Bool) (fuel : Nat) (op : Operator)
    (a b : UInt8) : List LogEntry :=
  if op = .div ∧ b = 0 then
    [⟨.debug, "bfcalc_core::calc", "8-bit division by zero", [("a", toString a)]⟩]
  else
    calculator.machine.journal (traced && calculator.trace) fuel
        (calculator.library.get op).program [a, b] ++
      ((calculator.evaluateEightBit fuel op a b).map (eightBitEntry op a b)).getD []

def bigJournal (op : Operator) (a b : Number) : List LogEntry :=
  ⟨.debug, "bfcalc_core::arith", "cell arithmetic",
      [("op", op.text), ("lhs_cells", toString a.size), ("rhs_cells", toString b.size)]⟩ ::
    if op = .sub ∧ (Number.sub? a b).isNone then
      [⟨.debug, "bfcalc_core::arith::additive", "subtraction below zero saturated",
        [("minuend_cells", toString a.size), ("subtrahend_cells", toString b.size)]⟩]
    else []

/-- The entries of evaluating a text. A text that is no expression has none. -/
def journal (calculator : Calculator) (traced : Bool) (fuel : Nat) (mode : Mode) (text : String) :
    List LogEntry :=
  match Expression.parse? text with
  | none => []
  | some e =>
    match mode with
    | .eightBit => calculator.eightBitJournal traced fuel e.op e.lhs.lowCell e.rhs.lowCell
    | .bigNumber => bigJournal e.op e.lhs e.rhs

/-- The entries of building a calculator. -/
def loadJournal (read : String → Except ReadError String) (config : Config) : List LogEntry :=
  match config.validate, config.modulesDir with
  | .ok (), some folder =>
    ⟨.debug, "bfcalc_core::calc", "loading program library", [("dir", folder)]⟩ ::
      Library.loadJournal read folder
  | _, _ => []

end Calculator

end TapeCalc
