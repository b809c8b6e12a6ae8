import TapeCalc.Proofs.RawCells

/-!
# Schoolbook multiplication

The product as it is stored: one row of cells for all passes, each pass adding into the cells that
earlier ones have left and replacing the cell just past it. Between two passes the row holds the
product of the cells already done, and every cell that a later carry replaces is still zero.
-/
namespace TapeCalc

namespace Cells

/-- A pass in the row, from a place on: cell after cell is replaced by the low half of its
accumulator, and the cell past them by the last carry. -/
def storePass (x : UInt8) : List UInt8 → Nat → UInt16 → List UInt8 → List UInt8
  | [], place, carry, row => row.set place carry.toUInt8
  | y :: ys, place, carry, row =>
    let acc := productStep x y (row.getD place 0) carry
    storePass x ys (place + 1) (acc >>> 8) (row.set place acc.toUInt8)

/-- The pass of one cell of the first factor; a cell of zero has none. -/
def storeCell (ys : List UInt8) (x : UInt8) (place : Nat) (row : List UInt8) : List UInt8 :=
  if x = 0 then row else storePass x ys place 0 row

/-- One pass after the other, each one place further on. -/
def storePasses (ys : List UInt8) : List UInt8 → Nat → List UInt8 → List UInt8
  | [], _, row => row
  | x :: xs, place, row => storePasses ys xs (place + 1) (storeCell ys x place row)

/-- The same pass over a row that starts at its place. -/
def passOver (ys : List UInt8) (x : UInt8) (row : List UInt8) : List UInt8 :=
  if x = 0 then row else productPass x ys row 0

/-- The row holds the product of the cells done, and nothing yet in its last cells. -/
structure Holds (ys done : List UInt8) (left : Nat) (row : List UInt8) : Prop where
  value_eq : value row = value done * value ys
  drop_eq : row.drop (done.length + ys.length) = List.replicate left 0
  length_eq : row.length = done.length + ys.length + left

section PassOver

variable {ys row : List UInt8}

theorem value_passOver (x : UInt8) (hz : row[ys.length]? = some 0) :
    value (passOver ys x row) = value row + x.toNat * value ys := by
  unfold passOver
  split
  next h => simp [h]
  next => simp [value_productPass x ys row 0 hz]

theorem length_passOver (x : UInt8) (h : ys.length < row.length) :
    (passOver ys x row).length = row.length := by
  unfold passOver
  split
  next => rfl
  next => exact length_productPass x ys row 0 h

theorem drop_passOver (x : UInt8) :
    (passOver ys x row).drop (ys.length + 1) = row.drop (ys.length + 1) := by
  unfold passOver
  split
  next => rfl
  next =>
    refine List.ext_getElem? fun i => ?_
    rw [List.getElem?_drop, List.getElem?_drop, getElem?_productPass x ys row 0 _ (by omega)]

/-- A pass in the row is a pass over its cells from that place on. -/
theorem storePass_append (x : UInt8) (low row : List UInt8) (carry : UInt16)
    (h : ys.length < row.length) :
    storePass x ys low.length carry (low ++ row) = low ++ productPass x ys row carry := by
  -- each cell stored goes from the row to the cells in front of the place
  induction ys generalizing low row carry with
  | nil =>
    obtain ⟨c, cs, rfl⟩ := List.exists_cons_of_length_pos h
    simp [storePass, productPass]
  | cons y ys ih =>
    obtain ⟨c, cs, rfl⟩ := List.exists_cons_of_length_pos (Nat.zero_lt_of_lt h)
    have hi := ih (low ++ [(productStep x y c carry).toUInt8]) cs (productStep x y c carry >>> 8)
      (by simpa using h)
    simpa [storePass, productPass] using hi

theorem storeCell_append (x : UInt8) (low : List UInt8) (h : ys.length < row.length) :
    storeCell ys x low.length (low ++ row) = low ++ passOver ys x row := by
  unfold storeCell passOver
  split
  next => rfl
  next => exact storePass_append x low row 0 h

end PassOver

namespace Holds

variable {ys done row : List UInt8} {left : Nat}

theorem start (ys : List UInt8) (n : Nat) :
    Holds ys [] n (List.replicate (n + ys.length) 0) where
  value_eq := by rw [value_replicate_zero, value, Nat.zero_mul]
  drop_eq := by simp
  length_eq := by simp [Nat.add_comm]

/-- The pass of the next cell finds zero where its last carry goes. -/
theorem pass (h : Holds ys done (left + 1) row) (x : UInt8) :
    Holds ys (done ++ [x]) left (storeCell ys x done.length row) := by
  have hlow : (row.take done.length).length = done.length := by
    rw [List.length_take, h.length_eq]
    omega
  have hsplit : row = row.take done.length ++ row.drop done.length :=
    (List.take_append_drop done.length row).symm
  have hhigh : (row.drop done.length).drop ys.length = List.replicate (left + 1) 0 := by
    rw [List.drop_drop, h.drop_eq]
  have hlt : ys.length < (row.drop done.length).length := by
    rw [List.length_drop, h.length_eq]
    omega
  have hz : (row.drop done.length)[ys.length]? = some 0 := by
    rw [← Nat.add_zero ys.length, ← List.getElem?_drop, hhigh]
    simp
  have hstore : storeCell ys x done.length row =
      row.take done.length ++ passOver ys x (row.drop done.length) := by
    have := storeCell_append x (row.take done.length) hlt
    rwa [hlow, ← hsplit] at this
  rw [hstore]
  refine ⟨?_, ?_, ?_⟩
  · have hv := h.value_eq
    rw [hsplit, value_append, hlow] at hv
    rw [value_append, value_passOver x hz, hlow, value_append]
    simp only [value, Nat.mul_add, Nat.add_mul, Nat.mul_assoc] at hv ⊢
    omega
  · have hplace : (done ++ [x]).length + ys.length = done.length + (ys.length + 1) := by
      rw [List.length_append, List.length_singleton]
      omega
    rw [hplace, ← List.drop_drop, List.drop_left' hlow, drop_passOver, ← List.drop_drop, hhigh]
    simp
  · rw [List.length_append, length_passOver x hlt, hlow, List.length_drop, h.length_eq]
    simp
    omega

theorem passes (cells : List UInt8) (h : Holds ys done (cells.length + left) row) :
    Holds ys (done ++ cells) left (storePasses ys cells done.length row) := by
  induction cells generalizing done row with
  | nil => simpa [storePasses] using h
  | cons x cells ih =>
    have hcells : Holds ys done (cells.length + left + 1) row := by
      simpa [Nat.add_right_comm] using h
    simpa [storePasses] using ih (hcells.pass x)

end Holds

/-- The row after the passes of the first cells of the one factor. -/
def storedRow (xs ys : List UInt8) (n : Nat) : List UInt8 :=
  storePasses ys (xs.take n) 0 (List.replicate (xs.length + ys.length) 0)

theorem holds_storedRow (xs ys : List UInt8) (n : Nat) :
    Holds ys (xs.take n) (xs.length - n) (storedRow xs ys n) := by
  have hlength : (xs.take n).length + (xs.length - n) = xs.length := by
    rw [List.length_take]
    omega
  have hstart := Holds.start ys xs.length
  rw [← hlength] at hstart
  have h := hstart.passes (xs.take n)
  rwa [hlength] at h

end Cells

namespace Raw

/-- The product by passes in one row; a factor of zero is met before any cell is multiplied. -/
def mulStored (xs ys : List UInt8) : List UInt8 :=
  if isZero xs || isZero ys then [0] else Cells.normal (Cells.storedRow xs ys xs.length)

theorem value_mulStored (xs ys : List UInt8) :
    Cells.value (mulStored xs ys) = Cells.value xs * Cells.value ys := by
  unfold mulStored
  split
  next h =>
    simp only [isZero, Bool.or_eq_true, beq_iff_eq] at h
    rcases h with rfl | rfl <;> simp [Cells.value]
  next =>
    rw [Cells.value_normal, (Cells.holds_storedRow xs ys xs.length).value_eq, List.take_length]

theorem canonical_mulStored (xs ys : List UInt8) : Cells.Canonical (mulStored xs ys) := by
  unfold mulStored
  split
  next => decide
  next => exact Cells.normal_canonical _

/-- Cells of one value that are both trimmed are the same cells. -/
theorem mulStored_cells (a b : Number) : mulStored a.cells b.cells = (a * b).cells :=
  (canonical_mulStored a.cells b.cells).eq_of_value_eq (a * b).canonical
    ((value_mulStored a.cells b.cells).trans (a.toNat_mul b).symm)

end Raw

namespace Number

protected theorem mul_comm (a b : Number) : a * b = b * a := by
  rw [← toNat_inj, toNat_mul, toNat_mul, Nat.mul_comm]

/-- The stored product is exact, trimmed, and the same in both orders. After any number of passes
the row holds the product of the cells done, with nothing past them. -/
theorem schoolbook_exact (a b : Number) :
    (a * b).toNat = a.toNat * b.toNat ∧
    Raw.mulStored a.cells b.cells = (a * b).cells ∧
    Raw.mul a.cells b.cells = (a * b).cells ∧
    Cells.Canonical (Raw.mulStored a.cells b.cells) ∧
    Raw.mulStored b.cells a.cells = Raw.mulStored a.cells b.cells ∧
    ∀ n, Cells.value (Cells.storedRow a.cells b.cells n) =
        Cells.value (a.cells.take n) * b.toNat ∧
      (Cells.storedRow a.cells b.cells n).length = a.size + b.size ∧
      (Cells.storedRow a.cells b.cells n).drop (min n a.size + b.size) =
        List.replicate (a.size - n) 0 := by
  refine ⟨toNat_mul a b, Raw.mulStored_cells a b, Raw.mul_cells a b,
    Raw.canonical_mulStored a.cells b.cells, ?_, fun n => ?_⟩
  · rw [Raw.mulStored_cells, Raw.mulStored_cells, Number.mul_comm]
  · have h := Cells.holds_storedRow a.cells b.cells n
    have hdone : (a.cells.take n).length = min n a.size := List.length_take
    refine ⟨h.value_eq, ?_, ?_⟩
    · rw [h.length_eq, hdone]
      simp only [size]
      omega
    · rw [← hdone]
      exact h.drop_eq

end Number

end TapeCalc
