import TapeCalc.Number.Power
import TapeCalc.Program.Basic
import TapeCalc.Tape
import TapeCalc.Run.Counters

/-!
# Runs

The state of a program on its tape, the effect of one step, and the run up to the end of the
program. A run has an amount of fuel, one unit for each step, so that a program without an end
is a run that comes to nothing for every amount.
-/
namespace TapeCalc

/-- Why a step cannot be taken: a read with no input left, at the place of the instruction, or
a limit that the steps have reached. -/
inductive Fault where
  | inputExhausted (position : Nat)
  | stepLimitExceeded (limit : Nat)
  deriving DecidableEq, Repr

inductive Outcome where
  | advanced
  | finished
  | failed (fault : Fault)
  deriving DecidableEq, Repr

structure State where
  tape : Tape
  place : Nat
  unread : List UInt8
  output : Array UInt8
  counters : Counters
  deriving DecidableEq

namespace State

/-- The state before the first step. -/
def initial (tapeSize : Nat) (input : List UInt8) : State :=
  ⟨Tape.blank tapeSize, 0, input, #[], {}⟩

def isFinished (program : Program) (s : State) : Bool := program.size ≤ s.place

/-- Moves past the partner of the bracket at hand. -/
def jump (program : Program) (s : State) : State :=
  { s with
    place := (program.partner? s.place).getD s.place + 1
    counters := { s.counters with jumps := s.counters.jumps + 1 } }

/-- Moves to the next instruction. -/
def next (s : State) : State := { s with place := s.place + 1 }

/-- Carries out an instruction that has been counted. A read without input stays where it is. -/
def perform (program : Program) (i : Instruction) (s : State) : Outcome × State :=
  match i with
  | .right => (.advanced, { s with tape := s.tape.moveRight, place := s.place + 1 })
  | .left => (.advanced, { s with tape := s.tape.moveLeft, place := s.place + 1 })
  | .increment => (.advanced, { s with tape := s.tape.increment, place := s.place + 1 })
  | .decrement => (.advanced, { s with tape := s.tape.decrement, place := s.place + 1 })
  | .output =>
    (.advanced, { s with
      output := s.output.push s.tape.read
      place := s.place + 1
      counters := { s.counters with produced := s.counters.produced + 1 } })
  | .input =>
    match s.unread with
    | [] => (.failed (.inputExhausted s.place), s)
    | b :: rest =>
      (.advanced, { s with
        tape := s.tape.write b
        unread := rest
        place := s.place + 1
        counters := { s.counters with consumed := s.counters.consumed + 1 } })
  | .loopStart => (.advanced, if s.tape.read = 0 then s.jump program else s.next)
  | .loopEnd => (.advanced, if s.tape.read = 0 then s.next else s.jump program)

/-- Counts an instruction and carries it out. -/
def execute (program : Program) (i : Instruction) (s : State) : Outcome × State :=
  perform program i { s with counters := s.counters.record i }

/-- One step. The end of the program comes before the limit, and the limit before the count. -/
def step (program : Program) (limit : Option Nat) (s : State) : Outcome × State :=
  match program.fetch? s.place with
  | none => (.finished, s)
  | some i =>
    match limit with
    | none => execute program i s
    | some n =>
      if n ≤ s.counters.steps then (.failed (.stepLimitExceeded n), s) else execute program i s

/-- Steps until the program ends or a step fails; `none` when the fuel gives out before. -/
def runToEnd (program : Program) (limit : Option Nat) :
    Nat → State → Option (Except Fault Unit × State)
  | 0, _ => none
  | fuel + 1, s =>
    match s.step program limit with
    | (.advanced, s) => runToEnd program limit fuel s
    | (.finished, s) => some (.ok (), s)
    | (.failed fault, s) => some (.error fault, s)

theorem step_of_isFinished {program : Program} {s : State} (limit : Option Nat)
    (h : s.isFinished program = true) : s.step program limit = (.finished, s) := by
  have : program.fetch? s.place = none := by
    rw [Program.fetch?, Array.getElem?_eq_none_iff]
    exact of_decide_eq_true h
  simp [step, this]

theorem step_of_limit {program : Program} {s : State} {n : Nat}
    (h : s.isFinished program = false) (hn : n ≤ s.counters.steps) :
    s.step program (some n) = (.failed (.stepLimitExceeded n), s) := by
  have hlt : s.place < program.instructions.size := Nat.lt_of_not_le (of_decide_eq_false h)
  simp [step, Program.fetch?, hlt, hn]

/-- An ending stays what it is when there is more fuel. -/
theorem runToEnd_add {program : Program} {limit : Option Nat} {fuel : Nat} {s : State}
    {ending : Except Fault Unit × State} (h : s.runToEnd program limit fuel = some ending)
    (more : Nat) : s.runToEnd program limit (fuel + more) = some ending := by
  induction fuel generalizing s with
  | zero => simp [runToEnd] at h
  | succ fuel ih =>
    rw [Nat.add_right_comm]
    unfold runToEnd at h ⊢
    split <;> simp_all

end State

/-- The output of a completed run and its counters. -/
structure Report where
  output : List UInt8
  counters : Counters
  deriving DecidableEq, Repr

def State.report (s : State) : Report := ⟨s.output.toList, s.counters⟩

/-- The tape machine: how many cells a run gets, and how many steps it may take. -/
structure Machine where
  tapeSize : Nat := 30000
  stepLimit : Option Nat := none
  deriving DecidableEq, Repr

namespace Machine

/-- More steps than any host takes. -/
def endless : Nat := 2 ^ 63 - 1

def start (m : Machine) (input : List UInt8) : State := State.initial m.tapeSize input

/-- Runs a program on a fresh tape; `none` when the fuel gives out first. -/
def execute (m : Machine) (fuel : Nat) (program : Program) (input : List UInt8) :
    Option (Except Fault Report) :=
  ((m.start input).runToEnd program m.stepLimit fuel).map fun
    | (.ok (), s) => .ok s.report
    | (.error fault, _) => .error fault

end Machine

end TapeCalc
