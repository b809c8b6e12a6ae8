import TapeCalc.Number.Basic

/-!
# Products and powers

The product takes every cell of one factor against every cell of the other into a row of
`length a + length b` cells. The pass of a cell ends by writing its last carry into the cell
just past the pass, which no earlier pass has reached.
-/
namespace TapeCalc

namespace Cells

/-- The sixteen-bit accumulator of one step of a pass; its largest value is
`255 * 255 + 255 + 255 = 65535`. -/
def productStep (x y : UInt8) (held : UInt8) (carry : UInt16) : UInt16 :=
  x.toUInt16 * y.toUInt16 + held.toUInt16 + carry

/-- Adds `x` times `ys` into the row; the last carry replaces the cell after them. -/
def productPass (x : UInt8) : List UInt8 → List UInt8 → UInt16 → List UInt8
  | [], row, carry => carry.toUInt8 :: row.tail
  | y :: ys, row, carry =>
    let acc := productStep x y (row.headD 0) carry
    acc.toUInt8 :: productPass x ys row.tail (acc >>> 8)

/-- One pass for each cell of the first factor, each one cell further along the row. -/
def productRow : List UInt8 → List UInt8 → List UInt8 → List UInt8
  | [], _, row => row
  | x :: xs, ys, row =>
    let row := if x = 0 then row else productPass x ys row 0
    row.headD 0 :: productRow xs ys row.tail

theorem toNat_productStep (x y held : UInt8) {carry : UInt16} (h : carry.toNat ≤ 255) :
    (productStep x y held carry).toNat = x.toNat * y.toNat + held.toNat + carry.toNat := by
  have hx := Nat.le_of_lt_succ x.toNat_lt
  have hy := Nat.le_of_lt_succ y.toNat_lt
  have hh := held.toNat_lt
  have hxy := Nat.mul_le_mul hx hy
  simp only [productStep, UInt16.toNat_add, UInt16.toNat_mul, UInt8.toNat_toUInt16]
  omega

theorem productStep_carry_le (x y held : UInt8) (carry : UInt16) :
    (productStep x y held carry >>> 8).toNat ≤ 255 := by
  have := (productStep x y held carry).toNat_lt
  rw [UInt16.toNat_shiftRight]
  simp [Nat.shiftRight_eq_div_pow]
  omega

/-- A pass over a row whose next cell is still zero adds the multiple, shifted to its place. -/
theorem value_productPass (x : UInt8) (ys row : List UInt8) (carry : UInt16)
    (hz : row[ys.length]? = some 0) (h : carry.toNat ≤ 255) :
    value (productPass x ys row carry) = value row + x.toNat * value ys + carry.toNat := by
  induction ys generalizing row carry with
  | nil =>
    obtain ⟨c, cs, rfl⟩ : ∃ c cs, row = c :: cs := by
      cases row with
      | nil => simp at hz
      | cons c cs => exact ⟨c, cs, rfl⟩
    obtain rfl : c = 0 := by simpa using hz
    have : carry.toUInt8.toNat = carry.toNat := by
      rw [UInt16.toNat_toUInt8]
      omega
    simp [productPass, value, this]
    omega
  | cons y ys ih =>
    have ha := toNat_productStep x y (row.headD 0) h
    have hr := value_headD_tail row
    have hc := productStep_carry_le x y (row.headD 0) carry
    have hi := ih row.tail _ (by cases row <;> simp_all) hc
    have hs : (productStep x y (row.headD 0) carry >>> 8).toNat =
        (productStep x y (row.headD 0) carry).toNat / 256 := by
      rw [UInt16.toNat_shiftRight]
      simp [Nat.shiftRight_eq_div_pow]
    have hd := Nat.div_add_mod (productStep x y (row.headD 0) carry).toNat 256
    simp only [productPass, value, hi, UInt16.toNat_toUInt8, hs, Nat.mul_add]
    have : x.toNat * (256 * value ys) = 256 * (x.toNat * value ys) := Nat.mul_left_comm ..
    omega

theorem length_productPass (x : UInt8) (ys row : List UInt8) (carry : UInt16)
    (h : ys.length < row.length) : (productPass x ys row carry).length = row.length := by
  induction ys generalizing row carry with
  | nil =>
    simp only [productPass, List.length_cons, List.length_tail]
    simp at h
    omega
  | cons y ys ih =>
    have := ih row.tail (productStep x y (row.headD 0) carry >>> 8)
      (by simp at h ⊢; omega)
    simp only [productPass, List.length_cons, this, List.length_tail] at h ⊢
    omega

/-- A pass leaves the cells beyond its own as they were. -/
theorem getElem?_productPass (x : UInt8) (ys row : List UInt8) (carry : UInt16) (i : Nat)
    (h : ys.length < i) : (productPass x ys row carry)[i]? = row[i]? := by
  induction ys generalizing row carry i with
  | nil =>
    obtain ⟨j, rfl⟩ : ∃ j, i = j + 1 := ⟨i - 1, by simp at h; omega⟩
    cases row <;> simp [productPass]
  | cons y ys ih =>
    obtain ⟨j, rfl⟩ : ∃ j, i = j + 1 := ⟨i - 1, by simp at h; omega⟩
    have := ih row.tail (productStep x y (row.headD 0) carry >>> 8) j
      (by simp at h; omega)
    simp only [productPass, List.getElem?_cons_succ, this]
    cases row <;> simp

/-- All passes together add the product, if the row is zero from the first carry on. -/
theorem value_productRow (xs ys row : List UInt8) (hl : row.length = xs.length + ys.length)
    (hz : ∀ i, ys.length ≤ i → i < row.length → row[i]? = some 0) :
    value (productRow xs ys row) = value row + value xs * value ys := by
  induction xs generalizing row with
  | nil => simp [productRow, value]
  | cons x xs ih =>
    have hlt : ys.length < row.length := by simp at hl; omega
    generalize hp : (if x = 0 then row else productPass x ys row 0) = next
    have hv : value next = value row + x.toNat * value ys := by
      rw [← hp]
      split
      next h0 => simp [h0]
      next => simp [value_productPass x ys row 0 (hz _ (Nat.le_refl _) hlt) (by simp)]
    have hn : next.length = row.length := by
      rw [← hp]
      split
      next => rfl
      next => exact length_productPass x ys row 0 hlt
    have hk : ∀ i, ys.length < i → next[i]? = row[i]? := by
      intro i hi
      rw [← hp]
      split
      next => rfl
      next => exact getElem?_productPass x ys row 0 i hi
    have hi := ih next.tail (by simp [hn] at hl ⊢; omega) (by
      intro i h1 h2
      rw [List.getElem?_tail, hk (i + 1) (by omega)]
      exact hz (i + 1) (by omega) (by simp [hn] at h2; omega))
    have ht := value_headD_tail next
    simp only [productRow, hp, value, hi, Nat.add_mul]
    have : 256 * value xs * value ys = 256 * (value xs * value ys) := Nat.mul_assoc ..
    omega

theorem value_replicate_zero (n : Nat) : value (List.replicate n 0) = 0 := by
  induction n with
  | zero => rfl
  | succ n ih => simp [List.replicate_succ, value, ih]

end Cells

namespace Number

def mul (a b : Number) : Number :=
  ofCells (Cells.productRow a.cells b.cells (List.replicate (a.size + b.size) 0))

instance : Mul Number := ⟨mul⟩

/-- Multiplies the start by the base a given number of times. -/
def mulRepeat (base : Number) : Nat → Number → Number
  | 0, start => start
  | n + 1, start => mulRepeat base n (start * base)

/-- Repeated multiplication that starts at the base; exponent 0 gives 1 for every base. -/
def pow (base : Number) (exponent : Nat) : Number :=
  if exponent = 0 then one
  else if base.isZero || base.isOne then base
  else mulRepeat base (exponent - 1) base

@[simp] theorem toNat_mul (a b : Number) : (a * b).toNat = a.toNat * b.toNat := by
  change (mul a b).toNat = _
  rw [mul, toNat_ofCells, Cells.value_productRow]
  · simp [Cells.value_replicate_zero, toNat]
  · simp [size]
  · intro i _ hi
    simp at hi
    simp [hi]

theorem toNat_mulRepeat (base : Number) (n : Nat) (start : Number) :
    (mulRepeat base n start).toNat = start.toNat * base.toNat ^ n := by
  induction n generalizing start with
  | zero => simp [mulRepeat]
  | succ n ih =>
    rw [mulRepeat, ih, toNat_mul, Nat.pow_succ, Nat.mul_comm (base.toNat ^ n), Nat.mul_assoc]

@[simp] theorem toNat_pow (base : Number) (exponent : Nat) :
    (base.pow exponent).toNat = base.toNat ^ exponent := by
  unfold pow
  split
  next h => simp [h]
  next h =>
    obtain ⟨n, rfl⟩ : ∃ n, exponent = n + 1 := ⟨exponent - 1, by omega⟩
    split
    next hb =>
      simp only [Bool.or_eq_true, isZero_iff, isOne_iff] at hb
      rcases hb with hb | hb <;> simp [hb]
    next => rw [toNat_mulRepeat, Nat.add_sub_cancel, Nat.pow_succ, Nat.mul_comm]

end Number

end TapeCalc
