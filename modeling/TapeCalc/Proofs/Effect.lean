import TapeCalc.Run.Basic

/-!
# Effects of instructions

All that carrying out an instruction can do, said once: a step on the tape alone, a byte written,
a byte read or missed, a bracket passed or left for its partner. What holds of every instruction
follows by cases on its effect.
-/
namespace TapeCalc

namespace Instruction

/-- The instructions that change nothing but the tape. -/
inductive OnTape : Instruction → (Tape → Tape) → Prop
  | right : OnTape .right Tape.moveRight
  | left : OnTape .left Tape.moveLeft
  | increment : OnTape .increment Tape.increment
  | decrement : OnTape .decrement Tape.decrement

/-- The brackets that go to their partner, for the current cell. -/
inductive Jumps : Instruction → UInt8 → Prop
  | loopStart : Jumps .loopStart 0
  | loopEnd {c : UInt8} (nonzero : c ≠ 0) : Jumps .loopEnd c

/-- The brackets that are passed, for the current cell. -/
inductive Passes : Instruction → UInt8 → Prop
  | loopStart {c : UInt8} (nonzero : c ≠ 0) : Passes .loopStart c
  | loopEnd : Passes .loopEnd 0

theorem Jumps.eq_or_eq {i : Instruction} {c : UInt8} (test : i.Jumps c) :
    i = .loopStart ∨ i = .loopEnd := by
  cases test with
  | loopStart => exact .inl rfl
  | loopEnd => exact .inr rfl

theorem Passes.eq_or_eq {i : Instruction} {c : UInt8} (test : i.Passes c) :
    i = .loopStart ∨ i = .loopEnd := by
  cases test with
  | loopStart => exact .inl rfl
  | loopEnd => exact .inr rfl

theorem OnTape.size_eq {i : Instruction} {change : Tape → Tape} (on : i.OnTape change)
    (t : Tape) : (change t).size = t.size := by
  cases on with
  | right => simp [Tape.size]
  | left => simp [Tape.size]
  | increment => exact Tape.size_write ..
  | decrement => exact Tape.size_write ..

end Instruction

namespace State

/-- The state with one more instruction counted. -/
def counted (i : Instruction) (s : State) : State := { s with counters := s.counters.record i }

/-- What an instruction does to a state, and what it reports. -/
inductive Effect (program : Program) (s : State) : Instruction → Outcome → State → Prop
  | tape {i : Instruction} {change : Tape → Tape} (on : i.OnTape change) :
      Effect program s i .advanced { s with tape := change s.tape, place := s.place + 1 }
  | output :
      Effect program s .output .advanced
        { s with
          output := s.output.push s.tape.read
          place := s.place + 1
          counters := { s.counters with produced := s.counters.produced + 1 } }
  | starve (empty : s.unread = []) :
      Effect program s .input (.failed (.inputExhausted s.place)) s
  | input {b : UInt8} {rest : List UInt8} (more : s.unread = b :: rest) :
      Effect program s .input .advanced
        { s with
          tape := s.tape.write b
          unread := rest
          place := s.place + 1
          counters := { s.counters with consumed := s.counters.consumed + 1 } }
  | pass {i : Instruction} (test : i.Passes s.tape.read) : Effect program s i .advanced s.next
  | jump {i : Instruction} (test : i.Jumps s.tape.read) :
      Effect program s i .advanced (s.jump program)

variable {program : Program} {i : Instruction} {s t : State} {outcome : Outcome}

theorem effect_perform (program : Program) (i : Instruction) (s : State) :
    Effect program s i (s.perform program i).1 (s.perform program i).2 := by
  cases i with
  | right => exact .tape .right
  | left => exact .tape .left
  | increment => exact .tape .increment
  | decrement => exact .tape .decrement
  | output => exact .output
  | input =>
    cases h : s.unread with
    | nil =>
      simp only [perform, h]
      exact .starve h
    | cons b rest =>
      simp only [perform, h]
      exact .input h
  | loopStart =>
    by_cases h : s.tape.read = 0
    · simp only [perform, h, if_true]
      exact .jump (h ▸ .loopStart)
    · simp only [perform, h, if_false]
      exact .pass (.loopStart h)
  | loopEnd =>
    by_cases h : s.tape.read = 0
    · simp only [perform, h, if_true]
      exact .pass (h ▸ .loopEnd)
    · simp only [perform, h, if_false]
      exact .jump (.loopEnd h)

/-- To execute an instruction is to count it and have its effect. -/
theorem effect_of_execute (h : s.execute program i = (outcome, t)) :
    Effect program (s.counted i) i outcome t := by
  have he := effect_perform program i (s.counted i)
  rw [show (s.counted i).perform program i = (outcome, t) from h] at he
  exact he

namespace Effect

variable (h : Effect program s i outcome t)

include h

theorem steps_eq : t.counters.steps = s.counters.steps := by
  cases h <;> rfl

theorem size_tape_eq : t.tape.size = s.tape.size := by
  cases h with
  | tape on => exact on.size_eq s.tape
  | input more => exact Tape.size_write ..
  | _ => rfl

/-- A read moves one byte from the unread input to the count. -/
theorem consumed_add_unread : t.counters.consumed + t.unread.length =
    s.counters.consumed + s.unread.length := by
  cases h with
  | input more =>
    simp [more]
    omega
  | _ => rfl

/-- Output only grows, and what is unread only gets shorter, from its front. -/
theorem output_prefix : s.output.toList <+: t.output.toList := by
  cases h with
  | output => simp
  | _ => exact List.prefix_refl _

theorem unread_suffix : t.unread <:+ s.unread := by
  cases h with
  | input more =>
    rw [more]
    exact List.suffix_cons ..
  | _ => exact List.suffix_refl _

end Effect

end State

end TapeCalc
