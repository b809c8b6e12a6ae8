import TapeCalc.Program.Basic

/-!
# Loop trees

A program without its brackets: commands in sequence, and loops over trees of their own. The
text of every program that is read flattens exactly one tree, and the partners of its brackets
are those of that tree.
-/
namespace TapeCalc

/-- The instructions that are no bracket. -/
inductive Command where
  | right
  | left
  | increment
  | decrement
  | output
  | input
  deriving DecidableEq, Repr

def Command.instruction : Command → Instruction
  | right => .right
  | left => .left
  | increment => .increment
  | decrement => .decrement
  | output => .output
  | input => .input

inductive LoopTree where
  | done
  | command (c : Command) (next : LoopTree)
  | loop (body next : LoopTree)
  deriving DecidableEq, Repr

namespace LoopTree

def flatten : LoopTree → List Instruction
  | done => []
  | command c next => c.instruction :: next.flatten
  | loop body next => .loopStart :: (body.flatten ++ .loopEnd :: next.flatten)

def size : LoopTree → Nat
  | done => 0
  | command _ next => next.size + 1
  | loop body next => body.size + next.size + 2

/-- The partners of the flattened tree when it starts at a place. -/
def links : LoopTree → Nat → List Nat
  | done, _ => []
  | command _ next, place => place :: next.links (place + 1)
  | loop body next, place =>
    (place + body.size + 1) ::
      (body.links (place + 1) ++ place :: next.links (place + body.size + 2))

/-- The program of a tree. -/
def program (t : LoopTree) : Program := ⟨t.flatten.toArray, (t.links 0).toArray⟩

@[simp] theorem length_flatten (t : LoopTree) : t.flatten.length = t.size := by
  induction t with
  | done => rfl
  | command c next ih => simp [flatten, size, ih]
  | loop body next ihb ihn => simp [flatten, size, ihb, ihn]; omega

theorem size_program (t : LoopTree) : t.program.size = t.size := by simp [program, Program.size]

@[simp] theorem length_links (t : LoopTree) (place : Nat) : (t.links place).length = t.size := by
  induction t generalizing place with
  | done => rfl
  | command c next ih => simp [links, size, ih]
  | loop body next ihb ihn => simp [links, size, ihb, ihn]; omega

/-- No partner lies beyond the code of its tree. -/
theorem lt_of_mem_links {t : LoopTree} {place q : Nat} (h : q ∈ t.links place) :
    q < place + t.size := by
  induction t generalizing place with
  | done => cases h
  | command c next ih =>
    rcases List.mem_cons.mp h with rfl | h
    · simp only [size]
      omega
    · have := ih h
      simp only [size]
      omega
  | loop body next ihb ihn =>
    simp only [links, List.mem_cons, List.mem_append] at h
    simp only [size]
    rcases h with rfl | h | rfl | h
    · omega
    · have := ihb h
      omega
    · omega
    · have := ihn h
      omega

/-- What may follow the code of a tree: nothing, or the bracket that closes the loop around it. -/
def Stops (rest : List Instruction) : Prop := rest = [] ∨ ∃ tail, rest = .loopEnd :: tail

/-- Where a tree ends in a text can be seen from the text. -/
theorem flatten_append_inj {t u : LoopTree} {rest tail : List Instruction}
    (hr : Stops rest) (ht : Stops tail) (h : t.flatten ++ rest = u.flatten ++ tail) :
    t = u ∧ rest = tail := by
  induction t generalizing u rest tail with
  | done =>
    cases u with
    | done => exact ⟨rfl, h⟩
    | command c next =>
      rcases hr with rfl | ⟨_, rfl⟩
      · simp [flatten] at h
      · cases c <;> simp [flatten, Command.instruction] at h
    | loop body next =>
      rcases hr with rfl | ⟨_, rfl⟩ <;> simp [flatten] at h
  | command c next ih =>
    cases u with
    | done =>
      rcases ht with rfl | ⟨_, rfl⟩
      · simp [flatten] at h
      · cases c <;> simp [flatten, Command.instruction] at h
    | command d other =>
      simp only [flatten, List.cons_append, List.cons.injEq] at h
      obtain ⟨rfl, rfl⟩ := ih hr ht h.2
      have hc : c = d := by
        have := h.1
        cases c <;> cases d <;> simp_all [Command.instruction]
      exact ⟨by rw [hc], rfl⟩
    | loop body other => cases c <;> simp [flatten, Command.instruction] at h
  | loop body next ihb ihn =>
    cases u with
    | done => rcases ht with rfl | ⟨_, rfl⟩ <;> simp [flatten] at h
    | command d other => cases d <;> simp [flatten, Command.instruction] at h
    | loop other last =>
      simp only [flatten, List.cons_append, List.append_assoc, List.cons.injEq, true_and] at h
      obtain ⟨rfl, hn⟩ := ihb (.inr ⟨_, rfl⟩) (.inr ⟨_, rfl⟩) h
      simp only [List.cons.injEq, true_and] at hn
      obtain ⟨rfl, rfl⟩ := ihn hr ht hn
      exact ⟨rfl, rfl⟩

theorem flatten_injective {t u : LoopTree} (h : t.flatten = u.flatten) : t = u :=
  (flatten_append_inj (.inl rfl) (.inl rfl) (congrArg (· ++ []) h)).1

end LoopTree

end TapeCalc
