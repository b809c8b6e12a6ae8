import TapeCalc.Number.Basic

/-!
# Sums and differences

Both walk the cells from the least significant end and hand a carry or a borrow of 0 or 1 to
the next column. A column's total needs nine bits and is formed in sixteen.
-/
namespace TapeCalc

namespace Cells

/-- The sixteen-bit total of one column of a sum. -/
def columnTotal (x y : UInt8) (carry : UInt16) : UInt16 := x.toUInt16 + y.toUInt16 + carry

/-- The sum cell of a column and the carry into the next one. -/
def addColumn (x y : UInt8) (carry : UInt16) : UInt8 × UInt16 :=
  let total := columnTotal x y carry
  if 256 ≤ total then ((total - 256).toUInt8, 1) else (total.toUInt8, 0)

/-- Adds `ys`, which is not longer, to `xs`. A carry out of the last column is one more cell. -/
def addCarry : List UInt8 → List UInt8 → UInt16 → List UInt8
  | [], _, carry => if carry = 0 then [] else [1]
  | x :: xs, ys, carry =>
    let column := addColumn x (ys.headD 0) carry
    column.1 :: addCarry xs ys.tail column.2

/-- The difference cell of a column and the borrow from the next one. -/
def subColumn (x y : UInt8) (borrow : UInt16) : UInt8 × UInt16 :=
  let taken := y.toUInt16 + borrow
  if taken ≤ x.toUInt16 then ((x.toUInt16 - taken).toUInt8, 0)
  else ((x.toUInt16 + 256 - taken).toUInt8, 1)

/-- Takes `ys`, which is not longer, off `xs`; the second part is the borrow that is left. -/
def subBorrow : List UInt8 → List UInt8 → UInt16 → List UInt8 × UInt16
  | [], _, borrow => ([], borrow)
  | x :: xs, ys, borrow =>
    let column := subColumn x (ys.headD 0) borrow
    let rest := subBorrow xs ys.tail column.2
    (column.1 :: rest.1, rest.2)

theorem toNat_columnTotal (x y : UInt8) {carry : UInt16} (h : carry.toNat ≤ 1) :
    (columnTotal x y carry).toNat = x.toNat + y.toNat + carry.toNat := by
  have hx := x.toNat_lt
  have hy := y.toNat_lt
  simp only [columnTotal, UInt16.toNat_add, UInt8.toNat_toUInt16]
  omega

theorem addColumn_value (x y : UInt8) {carry : UInt16} (h : carry.toNat ≤ 1) :
    (addColumn x y carry).1.toNat + 256 * (addColumn x y carry).2.toNat =
      x.toNat + y.toNat + carry.toNat := by
  have ht := toNat_columnTotal x y h
  have hx := x.toNat_lt
  have hy := y.toNat_lt
  simp only [addColumn]
  split
  next hle =>
    have hle' : 256 ≤ (columnTotal x y carry).toNat := hle
    simp only [UInt16.toNat_toUInt8, UInt16.toNat_sub_of_le _ _ hle, UInt16.reduceToNat]
    omega
  next hlt =>
    have hlt' : ¬ 256 ≤ (columnTotal x y carry).toNat := hlt
    simp only [UInt16.toNat_toUInt8, UInt16.reduceToNat]
    omega

theorem addColumn_carry_le (x y : UInt8) (carry : UInt16) :
    (addColumn x y carry).2.toNat ≤ 1 := by
  simp only [addColumn]
  split <;> simp

theorem value_addCarry (xs ys : List UInt8) (carry : UInt16) (hl : ys.length ≤ xs.length)
    (h : carry.toNat ≤ 1) :
    value (addCarry xs ys carry) = value xs + value ys + carry.toNat := by
  induction xs generalizing ys carry with
  | nil =>
    obtain rfl : ys = [] := List.eq_nil_of_length_eq_zero (by simpa using hl)
    unfold addCarry
    split
    next hz => simp [hz, value]
    next hz =>
      have : carry.toNat ≠ 0 := fun h0 => hz (UInt16.toNat_inj.mp h0)
      simp [value]
      omega
  | cons x xs ih =>
    have hc := addColumn_value x (ys.headD 0) h
    have hy := value_headD_tail ys
    have := ih ys.tail _ (by cases ys <;> simp_all)
      (addColumn_carry_le x (ys.headD 0) carry)
    simp only [addCarry, value] at this ⊢
    omega

theorem subColumn_value (x y : UInt8) {borrow : UInt16} (h : borrow.toNat ≤ 1) :
    (subColumn x y borrow).1.toNat + y.toNat + borrow.toNat =
      x.toNat + 256 * (subColumn x y borrow).2.toNat := by
  have hx := x.toNat_lt
  have hy := y.toNat_lt
  have ht : (y.toUInt16 + borrow).toNat = y.toNat + borrow.toNat := by
    simp only [UInt16.toNat_add, UInt8.toNat_toUInt16]
    omega
  simp only [subColumn]
  split
  next hle =>
    have hle' : (y.toUInt16 + borrow).toNat ≤ x.toUInt16.toNat := hle
    simp only [UInt16.toNat_toUInt8, UInt16.toNat_sub_of_le _ _ hle, UInt16.reduceToNat, ht,
      UInt8.toNat_toUInt16] at hle' ⊢
    omega
  next hlt =>
    have hlt' : ¬ (y.toUInt16 + borrow).toNat ≤ x.toUInt16.toNat := hlt
    have hs : (x.toUInt16 + 256).toNat = x.toNat + 256 := by
      simp only [UInt16.toNat_add, UInt8.toNat_toUInt16, UInt16.reduceToNat]
      omega
    have hle : y.toUInt16 + borrow ≤ x.toUInt16 + 256 := by
      rw [UInt16.le_iff_toNat_le, hs, ht]
      omega
    simp only [UInt16.toNat_toUInt8, UInt16.toNat_sub_of_le _ _ hle, UInt16.reduceToNat, ht, hs,
      UInt8.toNat_toUInt16] at hlt' ⊢
    omega

theorem subColumn_borrow_le (x y : UInt8) (borrow : UInt16) :
    (subColumn x y borrow).2.toNat ≤ 1 := by
  simp only [subColumn]
  split <;> simp

/-- What is left, together with what was taken off, is the minuend and the borrow on top of it. -/
theorem value_subBorrow (xs ys : List UInt8) (borrow : UInt16) (hl : ys.length ≤ xs.length)
    (h : borrow.toNat ≤ 1) :
    value (subBorrow xs ys borrow).1 + value ys + borrow.toNat =
      value xs + 256 ^ xs.length * (subBorrow xs ys borrow).2.toNat := by
  induction xs generalizing ys borrow with
  | nil =>
    obtain rfl : ys = [] := List.eq_nil_of_length_eq_zero (by simpa using hl)
    simp [subBorrow, value]
  | cons x xs ih =>
    have hc := subColumn_value x (ys.headD 0) h
    have hy := value_headD_tail ys
    have := ih ys.tail _ (by cases ys <;> simp_all)
      (subColumn_borrow_le x (ys.headD 0) borrow)
    simp only [subBorrow, value, List.length_cons, Nat.pow_succ, Nat.mul_comm _ 256,
      Nat.mul_assoc] at this ⊢
    omega

theorem subBorrow_borrow_le (xs ys : List UInt8) (borrow : UInt16) (h : borrow.toNat ≤ 1) :
    (subBorrow xs ys borrow).2.toNat ≤ 1 := by
  induction xs generalizing ys borrow with
  | nil => simpa [subBorrow] using h
  | cons x xs ih => exact ih _ _ (subColumn_borrow_le ..)

/-- Nothing is left to borrow when the minuend is at least the subtrahend. -/
theorem subBorrow_borrow_eq_zero {xs ys : List UInt8} (hl : ys.length ≤ xs.length)
    (h : value ys ≤ value xs) : (subBorrow xs ys 0).2 = 0 := by
  have hv := value_subBorrow xs ys 0 hl (by simp)
  have hlt := value_lt (subBorrow xs ys 0).1
  have hlen : (subBorrow xs ys 0).1.length = xs.length := by
    generalize (0 : UInt16) = borrow
    clear hv hlt hl h
    induction xs generalizing ys borrow with
    | nil => rfl
    | cons x xs ih => simp [subBorrow, ih]
  have hb := subBorrow_borrow_le xs ys 0 (by simp)
  rw [hlen] at hlt
  have : (subBorrow xs ys 0).2.toNat ≠ 1 := by
    intro h1
    simp only [h1, UInt16.reduceToNat] at hv
    omega
  exact UInt16.toNat_inj.mp (by simp; omega)

end Cells

namespace Number

def add (a b : Number) : Number :=
  if b.size ≤ a.size then ofCells (Cells.addCarry a.cells b.cells 0)
  else ofCells (Cells.addCarry b.cells a.cells 0)

/-- The difference, or `none` when it would be below zero. -/
def sub? (a b : Number) : Option Number :=
  if compare a b == .lt then none else some (ofCells (Cells.subBorrow a.cells b.cells 0).1)

/-- The difference, and zero where it would be below zero. -/
def sub (a b : Number) : Number := (sub? a b).getD zero

instance : Add Number := ⟨add⟩

instance : Sub Number := ⟨sub⟩

theorem length_le_of_toNat_le {a b : Number} (h : b.toNat ≤ a.toNat) :
    b.cells.length ≤ a.cells.length := by
  refine Nat.le_of_not_lt fun hl => ?_
  have : a.toNat < b.toNat := Cells.value_lt_of_length_lt a.canonical b.canonical hl
  omega

@[simp] theorem toNat_add (a b : Number) : (a + b).toNat = a.toNat + b.toNat := by
  change (add a b).toNat = _
  unfold add
  split
  next h =>
    rw [toNat_ofCells, Cells.value_addCarry _ _ _ h (by simp)]
    simp [toNat]
  next h =>
    rw [toNat_ofCells, Cells.value_addCarry _ _ _ (Nat.le_of_not_le h) (by simp)]
    simp [toNat, Nat.add_comm]

theorem sub?_eq_none_iff (a b : Number) : sub? a b = none ↔ a.toNat < b.toNat := by
  simp [sub?, compare_eq_compare_toNat, Nat.compare_eq_lt]

theorem toNat_sub? {a b c : Number} (h : sub? a b = some c) : c.toNat + b.toNat = a.toNat := by
  have hle : b.toNat ≤ a.toNat := by
    refine Nat.le_of_not_lt fun hlt => ?_
    rw [(sub?_eq_none_iff a b).mpr hlt] at h
    cases h
  have hl := length_le_of_toNat_le hle
  have hv := Cells.value_subBorrow a.cells b.cells 0 hl (by simp)
  rw [Cells.subBorrow_borrow_eq_zero hl hle] at hv
  simp only [sub?, Option.ite_none_left_eq_some, Option.some.injEq] at h
  rw [← h.2, toNat_ofCells]
  simpa [toNat] using hv

@[simp] theorem toNat_sub (a b : Number) : (a - b).toNat = a.toNat - b.toNat := by
  change ((sub? a b).getD zero).toNat = _
  cases h : sub? a b with
  | none =>
    have := (sub?_eq_none_iff a b).mp h
    simp
    omega
  | some c =>
    have := toNat_sub? h
    simp
    omega

end Number

end TapeCalc
