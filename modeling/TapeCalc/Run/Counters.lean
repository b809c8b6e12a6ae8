import TapeCalc.Program.Instruction

/-!
# Counters

What a run has done so far, in numbers.
-/
namespace TapeCalc

/-- `mix` counts the executed instructions by kind; `jumps` counts the brackets that moved the
run to their partner. -/
structure Counters where
  steps : Nat := 0
  mix : Vector Nat 8 := Vector.replicate 8 0
  jumps : Nat := 0
  consumed : Nat := 0
  produced : Nat := 0
  deriving DecidableEq, Repr

namespace Counters

def count (c : Counters) (i : Instruction) : Nat := c.mix[i.index]

/-- Counts one executed instruction. -/
def record (i : Instruction) (c : Counters) : Counters :=
  { c with steps := c.steps + 1, mix := c.mix.set i.index (c.mix[i.index] + 1) }

@[simp] theorem steps_record (i : Instruction) (c : Counters) :
    (c.record i).steps = c.steps + 1 := rfl

theorem count_record (i j : Instruction) (c : Counters) :
    (c.record i).count j = if j = i then c.count j + 1 else c.count j := by
  unfold count record
  by_cases h : j = i
  · simp [h]
  · have : (i.index : Nat) ≠ j.index := fun he => h (Instruction.index_inj.mp (Fin.ext he)).symm
    simp [h, this]

end Counters

end TapeCalc
