import TapeCalc.Proofs.Steps

/-!
# Wider tapes

As long as the pointer is not taken around an end of the tape, a run is the same on a tape with
more cells behind the last one, and leaves those cells zero. The larger tape is the smaller one
with zeros added, and every operation but the two that wrap keeps it so.
-/
namespace TapeCalc

namespace Tape

/-- The same tape with more cells behind its last, all of them zero. -/
def pad (more : Nat) (t : Tape) : Tape :=
  ⟨t.cells ++ Array.replicate more 0, t.pointer, by
    rw [Array.size_append]
    exact Nat.lt_add_right _ t.pointer_lt⟩

variable {t : Tape} {more : Nat}

theorem pad_blank {size : Nat} (h : 1 ≤ size) : (blank size).pad more = blank (size + more) := by
  simp [pad, blank, Nat.max_eq_left h, Nat.max_eq_left (Nat.le_add_right_of_le h)]

@[simp] theorem read_pad : (t.pad more).read = t.read := by
  obtain ⟨cells, pointer, h⟩ := t
  exact Array.getElem_append_left h

theorem write_pad (c : UInt8) : (t.pad more).write c = (t.write c).pad more := by
  simp only [pad, write, Array.set_append_left t.pointer_lt]

theorem moveRight_pad (h : t.pointer + 1 ≠ t.size) :
    (t.pad more).moveRight = t.moveRight.pad more := by
  have hin : t.pointer + 1 < t.cells.size := Nat.lt_of_le_of_ne t.pointer_lt h
  have hout : (t.pad more).pointer + 1 < (t.pad more).cells.size := by
    rw [pad, Array.size_append]
    exact Nat.lt_add_right _ hin
  rw [moveRight, dif_pos hout, moveRight, dif_pos hin]
  rfl

theorem moveLeft_pad (h : t.pointer ≠ 0) : (t.pad more).moveLeft = t.moveLeft.pad more := by
  rw [moveLeft, if_neg (show (t.pad more).pointer ≠ 0 from h), moveLeft, if_neg h]
  rfl

end Tape

namespace State

/-- The same state on a tape with more cells. -/
def pad (more : Nat) (s : State) : State := { s with tape := s.tape.pad more }

/-- The next step carries out a move that takes the pointer around an end of the tape. -/
def Wraps (program : Program) (limit : Option Nat) (s : State) : Prop :=
  (s.step program limit).1 = .advanced ∧
    (program.fetch? s.place = some .right ∧ s.tape.pointer + 1 = s.tape.size ∨
      program.fetch? s.place = some .left ∧ s.tape.pointer = 0)

/-- No step of a run takes the pointer around an end of the tape. -/
def StaysOnTape (program : Program) (limit : Option Nat) (s : State) : Prop :=
  ∀ n, ¬ (s.after program limit n).Wraps program limit

instance (program : Program) (limit : Option Nat) (s : State) :
    Decidable (s.Wraps program limit) :=
  inferInstanceAs (Decidable (_ ∧ _))

variable {program : Program} {limit : Option Nat} {s : State} {more : Nat}

theorem execute_pad {i : Instruction} (hr : i = .right → s.tape.pointer + 1 ≠ s.tape.size)
    (hl : i = .left → s.tape.pointer ≠ 0) :
    (s.pad more).execute program i = Prod.map id (pad more) (s.execute program i) := by
  obtain ⟨tape, place, unread, output, counters⟩ := s
  cases i with
  | right => simp [execute, perform, pad, Tape.moveRight_pad (hr rfl)]
  | left => simp [execute, perform, pad, Tape.moveLeft_pad (hl rfl)]
  | increment => simp [execute, perform, pad, Tape.increment, Tape.write_pad]
  | decrement => simp [execute, perform, pad, Tape.decrement, Tape.write_pad]
  | output => simp [execute, perform, pad]
  | input => cases unread <;> simp [execute, perform, pad, Tape.write_pad]
  | loopStart =>
    by_cases hz : tape.read = 0 <;> simp [execute, perform, pad, hz, jump, State.next]
  | loopEnd =>
    by_cases hz : tape.read = 0 <;> simp [execute, perform, pad, hz, jump, State.next]

/-- A step that does not wrap is the same step on a wider tape. -/
theorem step_pad (h : ¬ s.Wraps program limit) :
    (s.pad more).step program limit = Prod.map id (pad more) (s.step program limit) := by
  refine step_map rfl rfl fun i hi hlt => ?_
  have hstep : s.step program limit = s.execute program i := step_eq_execute hi hlt
  refine execute_pad ?_ ?_
  · rintro rfl hp
    exact h ⟨by rw [hstep]; rfl, .inl ⟨hi, hp⟩⟩
  · rintro rfl hp
    exact h ⟨by rw [hstep]; rfl, .inr ⟨hi, hp⟩⟩

/-- So is every state up to the first step that wraps. -/
theorem after_pad {n : Nat} (h : ∀ k < n, ¬ (s.after program limit k).Wraps program limit) :
    (s.pad more).after program limit n = (s.after program limit n).pad more := by
  induction n generalizing s with
  | zero => rfl
  | succ n ih =>
    have hfirst : ¬ s.Wraps program limit := h 0 (Nat.succ_pos n)
    rw [after, step_pad hfirst]
    exact ih fun k hk => h (k + 1) (Nat.succ_lt_succ hk)

theorem runToEnd_pad (h : s.StaysOnTape program limit) (fuel : Nat) :
    (s.pad more).runToEnd program limit fuel =
      (s.runToEnd program limit fuel).map (Prod.map id (pad more)) := by
  induction fuel generalizing s with
  | zero => rfl
  | succ fuel ih =>
    have hrest : (s.step program limit).2.StaysOnTape program limit := fun n => h (n + 1)
    have hfirst : ¬ s.Wraps program limit := h 0
    rw [runToEnd, runToEnd, step_pad hfirst]
    generalize s.step program limit = next at hrest
    obtain ⟨outcome, t⟩ := next
    cases outcome with
    | advanced => exact ih hrest
    | finished => rfl
    | failed fault => rfl

/-- A run that has come to the end of its program stays on the tape if it did so until then. -/
theorem staysOnTape_of_isFinished {n : Nat}
    (hf : (s.after program limit n).isFinished program = true)
    (h : ∀ k < n, ¬ (s.after program limit k).Wraps program limit) :
    s.StaysOnTape program limit := by
  intro k
  rcases Nat.lt_or_ge k n with hk | hk
  · exact h k hk
  · obtain ⟨m, rfl⟩ := Nat.exists_eq_add_of_le hk
    rw [after_add, after_of_isFinished hf]
    rintro ⟨hadvanced, -⟩
    rw [step_of_isFinished limit hf] at hadvanced
    cases hadvanced

theorem size_tape_step (program : Program) (limit : Option Nat) (s : State) :
    (s.step program limit).2.tape.size = s.tape.size := by
  rcases step_cases (Prod.eta (s.step program limit)).symm with
    ⟨_, _, ht⟩ | ⟨_, _, _, _, _, _, ht⟩ | ⟨i, _, _, he⟩
  · rw [ht]
  · rw [ht]
  · exact (effect_of_execute he).size_tape_eq

theorem size_tape_after (program : Program) (limit : Option Nat) (s : State) (n : Nat) :
    (s.after program limit n).tape.size = s.tape.size := by
  induction n generalizing s with
  | zero => rfl
  | succ n ih => rw [after, ih, size_tape_step]

end State

namespace Machine

open State

/-- A run that stays on its tape is the same, call by call and in what it comes to, on a tape of
more cells, which are left zero. -/
theorem agrees_on_wider_tape (program : Program) (limit : Option Nat) (input : List UInt8)
    {size wider : Nat} (hpos : 1 ≤ size) (hle : size ≤ wider)
    (h : (State.initial size input).StaysOnTape program limit) :
    (∀ n, ((State.initial size input).after program limit n).tape.size = size ∧
      (State.initial wider input).after program limit n =
        ((State.initial size input).after program limit n).pad (wider - size) ∧
      (((State.initial wider input).after program limit n).step program limit).1 =
        (((State.initial size input).after program limit n).step program limit).1) ∧
    ∀ fuel, (⟨wider, limit⟩ : Machine).execute fuel program input =
      (⟨size, limit⟩ : Machine).execute fuel program input := by
  have hinitial : State.initial wider input = (State.initial size input).pad (wider - size) := by
    rw [State.initial, State.initial, State.pad, Tape.pad_blank hpos, Nat.add_sub_cancel' hle]
  refine ⟨fun n => ⟨?_, ?_, ?_⟩, fun fuel => ?_⟩
  · rw [size_tape_after]
    exact (Tape.size_blank size).trans (Nat.max_eq_left hpos)
  · rw [hinitial]
    exact after_pad fun k _ => h k
  · rw [hinitial, after_pad fun k _ => h k, step_pad (h n)]
    rfl
  · rw [execute, execute, start, start, hinitial, runToEnd_pad h, Option.map_map]
    congr 1
    funext ending
    obtain ⟨result, t⟩ := ending
    cases result <;> rfl

/-- Addition needs two cells, so that on two cells it is what it is on many. -/
theorem agrees_on_wider_tape_addition : 1 ≤ 2 ∧ 2 ≤ 30000 ∧
    ∃ program, Program.parse ",>,[-<+>]<." = .ok program ∧
      (State.initial 2 [255, 2]).StaysOnTape program none ∧
      (∀ n, (State.initial 30000 [255, 2]).after program none n =
        ((State.initial 2 [255, 2]).after program none n).pad 29998) ∧
      ∀ fuel, (⟨30000, none⟩ : Machine).execute fuel program [255, 2] =
        (⟨2, none⟩ : Machine).execute fuel program [255, 2] := by
  have hstays : (State.initial 2 [255, 2]).StaysOnTape
      ⟨#[.input, .right, .input, .loopStart, .decrement, .left, .increment, .right, .loopEnd, .left,
        .output], #[0, 1, 2, 8, 4, 5, 6, 7, 3, 9, 10]⟩ none :=
    staysOnTape_of_isFinished (n := 17) (by decide +kernel) (by decide +kernel)
  obtain ⟨hafter, hexecute⟩ :=
    agrees_on_wider_tape _ none _ (by decide) (show 2 ≤ 30000 by decide) hstays
  exact ⟨by decide, by decide, _, rfl, hstays, fun n => (hafter n).2.1, hexecute⟩

end Machine

end TapeCalc
