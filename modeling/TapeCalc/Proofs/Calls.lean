import TapeCalc.Proofs.Reading
import TapeCalc.Proofs.Steps

/-!
# Sequences of calls

A run is driven by calls, each for one step or for the steps up to an ending, and may be called
again after an ending. What holds of every state that calls lead to is what one step keeps. The
states within a call are among them: they are those that calls for one step lead to.
-/
namespace TapeCalc

/-- The report of a read without input. -/
def Outcome.isExhausted : Outcome → Bool
  | .failed (.inputExhausted _) => true
  | _ => false

/-- How many of the outcomes report a read without input. -/
def Outcome.exhaustions (outcomes : List Outcome) : Nat := outcomes.countP Outcome.isExhausted

theorem Outcome.exhaustions_cons (outcome : Outcome) (outcomes : List Outcome) :
    exhaustions (outcome :: outcomes) = exhaustions [outcome] + exhaustions outcomes := by
  rw [exhaustions, exhaustions, exhaustions, List.countP_cons, List.countP_singleton, Nat.add_comm]

namespace Counters

/-- The executed instructions of every kind. -/
def total (c : Counters) : Nat := c.mix.toList.foldl (· + ·) 0

theorem total_eq (c : Counters) : c.total = (Instruction.all.map c.count).foldl (· + ·) 0 := by
  have hlist : c.mix.toList = Instruction.all.map c.count := by
    refine List.ext_getElem (by simp [Instruction.all]) fun i hi _ => ?_
    rw [Vector.length_toList] at hi
    match i with
    | 0 | 1 | 2 | 3 | 4 | 5 | 6 | 7 => rfl
  rw [total, hlist]

theorem total_record (i : Instruction) (c : Counters) : (c.record i).total = c.total + 1 := by
  rw [total_eq, total_eq]
  cases i <;> simp [Instruction.all, count_record] <;> omega

/-- How the counters of a run hang together, after so many reads without input. -/
structure Balanced (c : Counters) (exhaustions : Nat) : Prop where
  steps_eq : c.steps = c.total
  produced_eq : c.produced = c.count .output
  reads_eq : c.count .input = c.consumed + exhaustions
  jumps_le : c.jumps ≤ c.count .loopStart + c.count .loopEnd

theorem balanced_initial : Balanced {} 0 := ⟨rfl, rfl, rfl, Nat.le_refl 0⟩

end Counters

namespace State

variable {program : Program} {limit : Option Nat} {s t u : State} {i : Instruction}
  {outcome : Outcome} {n : Nat}

/-- The count of an instruction is made up for by its effect. -/
theorem Effect.balanced (h : Effect program (s.counted i) i outcome t)
    (hs : s.counters.Balanced n) : t.counters.Balanced (n + Outcome.exhaustions [outcome]) := by
  have hsteps : (s.counters.record i).steps = (s.counters.record i).total := by
    rw [Counters.total_record, Counters.steps_record, hs.steps_eq]
  have houtputs := (Counters.count_record i .output s.counters).symm
  rw [← hs.produced_eq] at houtputs
  have hreads := Counters.count_record i .input s.counters
  rw [hs.reads_eq] at hreads
  -- a bracket makes room for one more jump, taken or not
  have hbrackets : s.counters.jumps + (if i = .loopStart ∨ i = .loopEnd then 1 else 0) ≤
      (s.counters.record i).count .loopStart + (s.counters.record i).count .loopEnd := by
    have hjumps := hs.jumps_le
    rw [Counters.count_record, Counters.count_record]
    cases i <;> simp <;> omega
  cases h with
  | tape on => cases on <;> exact ⟨hsteps, houtputs, hreads, hbrackets⟩
  | output => exact ⟨hsteps, houtputs, hreads, hbrackets⟩
  | starve empty => exact ⟨hsteps, houtputs, hreads, hbrackets⟩
  | input more => exact ⟨hsteps, houtputs, hreads.trans (Nat.add_right_comm ..), hbrackets⟩
  | pass test =>
    rcases test.eq_or_eq with rfl | rfl <;>
      exact ⟨hsteps, houtputs, hreads, Nat.le_of_succ_le hbrackets⟩
  | jump test =>
    rcases test.eq_or_eq with rfl | rfl <;> exact ⟨hsteps, houtputs, hreads, hbrackets⟩

/-- What a state has put out is kept, and what it has read is not read again. -/
structure ExtendsTo (s t : State) : Prop where
  output_prefix : s.output.toList <+: t.output.toList
  unread_suffix : t.unread <:+ s.unread
  consumed_le : s.counters.consumed ≤ t.counters.consumed

theorem ExtendsTo.refl (s : State) : s.ExtendsTo s :=
  ⟨List.prefix_refl _, List.suffix_refl _, Nat.le_refl _⟩

theorem ExtendsTo.trans (h : s.ExtendsTo t) (g : t.ExtendsTo u) : s.ExtendsTo u :=
  ⟨h.output_prefix.trans g.output_prefix, g.unread_suffix.trans h.unread_suffix,
    Nat.le_trans h.consumed_le g.consumed_le⟩

/-- What holds of every state of a run on an input, after so many reads without input. -/
structure Consistent (program : Program) (limit : Option Nat) (tapeSize : Nat)
    (input : List UInt8) (exhaustions : Nat) (s : State) : Prop where
  place_le : s.place ≤ program.size
  size_tape : s.tape.size = max tapeSize 1
  pointer_lt : s.tape.pointer < s.tape.size
  consumed_le : s.counters.consumed ≤ input.length
  unread_eq : s.unread = input.drop s.counters.consumed
  size_output : s.output.size = s.counters.produced
  balanced : s.counters.Balanced exhaustions
  steps_le : ∀ most, limit = some most → s.counters.steps ≤ most
  partner_isSome : s.place < program.size → (program.partner? s.place).isSome

namespace Effect

variable (h : Effect program s i outcome t)

include h

theorem extendsTo : s.ExtendsTo t where
  output_prefix := h.output_prefix
  unread_suffix := h.unread_suffix
  consumed_le := by
    have hlength := h.unread_suffix.length_le
    have hsum := h.consumed_add_unread
    omega

theorem unread_eq {input : List UInt8} (hs : s.unread = input.drop s.counters.consumed) :
    t.unread = input.drop t.counters.consumed := by
  cases h with
  | input more =>
    rw [more] at hs
    rw [← List.drop_drop, ← hs]
    rfl
  | _ => exact hs

theorem size_output (hs : s.output.size = s.counters.produced) :
    t.output.size = t.counters.produced := by
  cases h with
  | output => simp [hs]
  | _ => exact hs

/-- A bracket's partner is a place of the program, so that the run stays in it. -/
theorem place_le {source : String} (hp : Program.parse source = .ok program)
    (hs : s.place < program.size) : t.place ≤ program.size := by
  cases h with
  | starve empty => exact Nat.le_of_lt hs
  | jump test =>
    obtain ⟨q, hq, hlt⟩ := Program.exists_partner hp hs
    simp only [State.jump, hq, Option.getD_some]
    exact hlt
  | _ => exact hs

end Effect

theorem extendsTo_of_step (h : s.step program limit = (outcome, t)) : s.ExtendsTo t := by
  rcases step_cases h with ⟨_, _, rfl⟩ | ⟨_, _, _, _, _, _, rfl⟩ | ⟨i, _, _, he⟩
  · exact .refl _
  · exact .refl _
  · obtain ⟨houtput, hunread, hconsumed⟩ := (effect_of_execute he).extendsTo
    exact ⟨houtput, hunread, hconsumed⟩

theorem Steps.extendsTo (h : Steps program limit n s t) : s.ExtendsTo t := by
  induction h with
  | zero s => exact .refl s
  | succ hs _ ih => exact (extendsTo_of_step hs).trans ih

namespace Consistent

variable {source : String} {tapeSize : Nat} {input : List UInt8}

theorem initial (hp : Program.parse source = .ok program) (limit : Option Nat) (tapeSize : Nat)
    (input : List UInt8) : (State.initial tapeSize input).Consistent program limit tapeSize input 0
    where
  place_le := Nat.zero_le _
  size_tape := Tape.size_blank tapeSize
  pointer_lt := Tape.pointer_lt _
  consumed_le := Nat.zero_le _
  unread_eq := rfl
  size_output := rfl
  balanced := Counters.balanced_initial
  steps_le _ _ := Nat.zero_le _
  partner_isSome := Program.isSome_partner? hp

/-- A step keeps the state consistent, whatever it reports. -/
theorem step (hp : Program.parse source = .ok program)
    (hs : s.Consistent program limit tapeSize input n)
    (h : s.step program limit = (outcome, t)) :
    t.Consistent program limit tapeSize input (n + Outcome.exhaustions [outcome]) := by
  rcases step_cases h with ⟨_, rfl, rfl⟩ | ⟨_, most, _, rfl, _, rfl, rfl⟩ | ⟨i, hi, hlt, he⟩
  · exact hs
  · exact hs
  · have hplace : s.place < program.size := (Array.getElem?_eq_some_iff.mp hi).1
    have heffect := effect_of_execute he
    have hunread : t.unread = input.drop t.counters.consumed := heffect.unread_eq hs.unread_eq
    have hsum : t.counters.consumed + t.unread.length = s.counters.consumed + s.unread.length :=
      heffect.consumed_add_unread
    have hsteps : t.counters.steps = s.counters.steps + 1 := heffect.steps_eq
    exact {
      place_le := heffect.place_le hp hplace
      size_tape := heffect.size_tape_eq.trans hs.size_tape
      pointer_lt := t.tape.pointer_lt
      consumed_le := by
        rw [hs.unread_eq, List.length_drop, Nat.add_sub_cancel' hs.consumed_le] at hsum
        omega
      unread_eq := hunread
      size_output := heffect.size_output hs.size_output
      balanced := heffect.balanced hs.balanced
      steps_le := fun most hmost => hsteps ▸ hlt most hmost
      partner_isSome := Program.isSome_partner? hp }

theorem steps {k : Nat} (hp : Program.parse source = .ok program)
    (hs : s.Consistent program limit tapeSize input n) (h : Steps program limit k s t) :
    t.Consistent program limit tapeSize input n := by
  induction h with
  | zero => exact hs
  | succ hstep _ ih => exact ih (hs.step hp hstep)

end Consistent

/-- One call on a run, and what it returns. -/
inductive Call (program : Program) (limit : Option Nat) : Outcome → State → State → Prop
  | step {outcome : Outcome} {s t : State} (h : s.step program limit = (outcome, t)) :
      Call program limit outcome s t
  | runToEnd {fuel : Nat} {result : Except Fault Unit} {s t : State}
      (h : s.runToEnd program limit fuel = some (result, t)) :
      Call program limit (.ending result) s t

/-- Calls one after the other, also after a failure, and what they return. -/
inductive Calls (program : Program) (limit : Option Nat) : List Outcome → State → State → Prop
  | nil (s : State) : Calls program limit [] s s
  | cons {outcome : Outcome} {answers : List Outcome} {s t u : State}
      (h : Call program limit outcome s t) (rest : Calls program limit answers t u) :
      Calls program limit (outcome :: answers) s u

/-- A call is steps that advance and a last one whose outcome it returns. -/
theorem Call.exists_steps (h : Call program limit outcome s t) :
    ∃ k u, Steps program limit k s u ∧ u.step program limit = (outcome, t) := by
  cases h with
  | step h => exact ⟨0, s, .zero s, h⟩
  | runToEnd h =>
    obtain ⟨k, u, -, hsteps, hlast⟩ := runToEnd_eq_some_iff.mp h
    exact ⟨k, u, hsteps, hlast⟩

theorem Call.extendsTo (h : Call program limit outcome s t) : s.ExtendsTo t := by
  obtain ⟨k, u, hsteps, hlast⟩ := h.exists_steps
  exact hsteps.extendsTo.trans (extendsTo_of_step hlast)

variable {source : String} {tapeSize : Nat} {input : List UInt8} {answers : List Outcome}

theorem Consistent.call (hp : Program.parse source = .ok program)
    (hs : s.Consistent program limit tapeSize input n) (h : Call program limit outcome s t) :
    t.Consistent program limit tapeSize input (n + Outcome.exhaustions [outcome]) := by
  obtain ⟨k, u, hsteps, hlast⟩ := h.exists_steps
  exact (hs.steps hp hsteps).step hp hlast

theorem Consistent.calls (hp : Program.parse source = .ok program)
    (hs : s.Consistent program limit tapeSize input n) (h : Calls program limit answers s t) :
    t.Consistent program limit tapeSize input (n + Outcome.exhaustions answers) := by
  induction h generalizing n with
  | nil => exact hs
  | cons hcall _ ih =>
    rw [Outcome.exhaustions_cons, ← Nat.add_assoc]
    exact ih (hs.call hp hcall)

/-- Calls in any order leave the run of a program that is read in a consistent state, with a
read without input counted for each failure that says so; and no call takes back output or
input. -/
theorem Calls.consistent (hp : Program.parse source = .ok program)
    (h : Calls program limit answers (.initial tapeSize input) s) :
    s.Consistent program limit tapeSize input (Outcome.exhaustions answers) ∧
      ∀ outcome t, Call program limit outcome s t → s.ExtendsTo t := by
  have hs := (Consistent.initial hp limit tapeSize input).calls hp h
  rw [Nat.zero_add] at hs
  exact ⟨hs, fun outcome t hcall => hcall.extendsTo⟩

/-- A step, the rest of the run, and two more steps: the second read finds no input twice, and
then the limit is reached. -/
theorem Calls.consistent_after_failures : ∃ program s, Program.parse ",>," = .ok program ∧
    Calls program (some 4) [.advanced, .failed (.inputExhausted 2), .failed (.inputExhausted 2),
      .failed (.stepLimitExceeded 4)] (.initial 0 [7]) s ∧
    s.Consistent program (some 4) 0 [7] 2 ∧
    ∀ outcome t, Call program (some 4) outcome s t → s.ExtendsTo t := by
  have hp : Program.parse ",>," = .ok ⟨#[.input, .right, .input], #[0, 1, 2]⟩ := rfl
  have hcalls : Calls ⟨#[.input, .right, .input], #[0, 1, 2]⟩ (some 4)
      [.advanced, .failed (.inputExhausted 2), .failed (.inputExhausted 2),
        .failed (.stepLimitExceeded 4)] (.initial 0 [7]) _ :=
    .cons (.step rfl) <| .cons (@Call.runToEnd _ _ 3 (.error (.inputExhausted 2)) _ _ rfl) <|
      .cons (.step rfl) <| .cons (.step rfl) <| .nil _
  exact ⟨_, _, hp, hcalls, Calls.consistent hp hcalls⟩

end State

end TapeCalc
