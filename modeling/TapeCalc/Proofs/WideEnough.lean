import TapeCalc.Proofs.CarryChain
import TapeCalc.Proofs.LongDivision
import TapeCalc.Proofs.Schoolbook

/-!
# Words that are wide enough

Operations on cells compute in words of 8, 16, 32 and 128 bits. What a loop hands on from one place
to the next (a carry, a borrow, a remainder) is bounded at every place, and under that bound no word
of the place wraps and no cell loses a bit of what it stores.
-/
namespace TapeCalc

namespace Cells

/-- The total of a column without the carry that is handed on, before it is stored. -/
def columnRest (x y : UInt8) (carry : UInt16) : UInt16 :=
  if 256 ≤ columnTotal x y carry then columnTotal x y carry - 256 else columnTotal x y carry

/-- The difference of a column before it is stored. -/
def columnDifference (x y : UInt8) (borrow : UInt16) : UInt16 :=
  if y.toUInt16 + borrow ≤ x.toUInt16 then x.toUInt16 - (y.toUInt16 + borrow)
  else x.toUInt16 + 256 - (y.toUInt16 + borrow)

/-- The total of a column does not wrap, and without the carry handed on it is a cell. -/
structure SumFits (x y : UInt8) (carry : UInt16) : Prop where
  total_eq : (columnTotal x y carry).toNat = x.toNat + y.toNat + carry.toNat
  total_le : (columnTotal x y carry).toNat ≤ 511
  rest_le : (columnRest x y carry).toNat ≤ 255
  stored : (addColumn x y carry).1 = (columnRest x y carry).toUInt8

/-- What is taken off a cell, with 256 lent to it or not, leaves a cell. -/
structure DifferenceFits (x y : UInt8) (borrow : UInt16) : Prop where
  taken_eq : (y.toUInt16 + borrow).toNat = y.toNat + borrow.toNat
  lent_eq : (x.toUInt16 + 256).toNat = x.toNat + 256
  taken_le : (y.toUInt16 + borrow).toNat ≤ (x.toUInt16 + 256).toNat
  difference_le : (columnDifference x y borrow).toNat ≤ 255
  stored : (subColumn x y borrow).1 = (columnDifference x y borrow).toUInt8

/-- The accumulator of a product step does not wrap. The bound is met by four bytes of 255. -/
structure ProductFits (x y held : UInt8) (carry : UInt16) : Prop where
  carry_le : carry.toNat ≤ 255
  accumulated_eq : (productStep x y held carry).toNat = x.toNat * y.toNat + held.toNat + carry.toNat
  accumulated_le : x.toNat * y.toNat + held.toNat + carry.toNat ≤ 65535

/-- A cell times a factor, with a carry below the factor, does not wrap. -/
structure ScaleFits (factor : UInt32) (c : UInt8) (carry : UInt32) : Prop where
  carry_lt : carry.toNat < factor.toNat
  product_eq : (c.toUInt32 * factor).toNat = c.toNat * factor.toNat
  accumulated_eq : (c.toUInt32 * factor + carry).toNat = c.toNat * factor.toNat + carry.toNat

/-- No bit of the remainder is shifted out, and the quotient of the cell is a cell. -/
structure ShareFits (divisor : UInt32) (c : UInt8) (remainder : UInt32) : Prop where
  remainder_lt : remainder.toNat < divisor.toNat
  shifted_eq : (remainder <<< 8).toNat = 256 * remainder.toNat
  accumulated_eq : (remainder <<< 8 ||| c.toUInt32).toNat = 256 * remainder.toNat + c.toNat
  quotient_le : ((remainder <<< 8 ||| c.toUInt32) / divisor).toNat ≤ 255
  stored : ∀ cells, (divColumn divisor c (cells, remainder)).1 =
    ((remainder <<< 8 ||| c.toUInt32) / divisor).toUInt8 :: cells

/-- The carry of a pass and its row, after some of the cells, before the last carry is stored. -/
def passState (x : UInt8) : List UInt8 → Nat → UInt16 → List UInt8 → UInt16 × List UInt8
  | [], _, carry, row => (carry, row)
  | y :: ys, place, carry, row =>
    let acc := productStep x y (row.getD place 0) carry
    passState x ys (place + 1) (acc >>> 8) (row.set place acc.toUInt8)

/-- In a pass every step fits, and its last carry replaces a cell that is still zero. -/
structure PassFits (ys : List UInt8) (x : UInt8) (place : Nat) (row : List UInt8) : Prop where
  step : ∀ j y, ys[j]? = some y → ProductFits x y
    ((passState x (ys.take j) place 0 row).2.getD (place + j) 0)
    (passState x (ys.take j) place 0 row).1
  last_le : (passState x ys place 0 row).1.toNat ≤ 255
  still_zero : (passState x ys place 0 row).2[place + ys.length]? = some 0
  stored : storePass x ys place 0 row = (passState x ys place 0 row).2.set (place + ys.length)
    (passState x ys place 0 row).1.toUInt8

/-- The carry that scaled cells hand on to those above them. -/
def scaleCarry (factor : UInt32) : List UInt8 → UInt32 → UInt32
  | [], carry => carry
  | c :: cs, carry => scaleCarry factor cs ((c.toUInt32 * factor + carry) >>> 8)

section columns

theorem sumFits (x y : UInt8) {carry : UInt16} (h : carry.toNat ≤ 1) : SumFits x y carry := by
  have hx := x.toNat_lt
  have hy := y.toNat_lt
  have htotal := toNat_columnTotal x y h
  refine ⟨htotal, by omega, ?_, ?_⟩
  · unfold columnRest
    split
    next hle =>
      have hle' : 256 ≤ (columnTotal x y carry).toNat := hle
      simp only [UInt16.toNat_sub_of_le _ _ hle, UInt16.reduceToNat]
      omega
    next hlt =>
      have hlt' : ¬ 256 ≤ (columnTotal x y carry).toNat := hlt
      omega
  · simp only [addColumn, columnRest]
    split <;> rfl

theorem differenceFits (x y : UInt8) {borrow : UInt16} (h : borrow.toNat ≤ 1) :
    DifferenceFits x y borrow := by
  have hx := x.toNat_lt
  have hy := y.toNat_lt
  have htaken : (y.toUInt16 + borrow).toNat = y.toNat + borrow.toNat := by
    simp only [UInt16.toNat_add, UInt8.toNat_toUInt16]
    omega
  have hlent : (x.toUInt16 + 256).toNat = x.toNat + 256 := by
    simp only [UInt16.toNat_add, UInt8.toNat_toUInt16, UInt16.reduceToNat]
    omega
  have hle : (y.toUInt16 + borrow).toNat ≤ (x.toUInt16 + 256).toNat := by omega
  refine ⟨htaken, hlent, hle, ?_, ?_⟩
  · unfold columnDifference
    split
    next hfits =>
      rw [UInt16.toNat_sub_of_le _ _ hfits, UInt8.toNat_toUInt16]
      omega
    next hborrow =>
      have hborrow' : ¬ (y.toUInt16 + borrow).toNat ≤ x.toUInt16.toNat := hborrow
      rw [UInt8.toNat_toUInt16] at hborrow'
      rw [UInt16.toNat_sub_of_le _ _ hle]
      omega
  · simp only [subColumn, columnDifference]
    split <;> rfl

/-- Columns that hand on 0 or 1 do so at every place. -/
theorem columns_handed_le {column : UInt8 → UInt8 → UInt16 → UInt8 × UInt16}
    (h : ∀ x y handed, (column x y handed).2.toNat ≤ 1) (n : Nat) (xs ys : List UInt8)
    {handed : UInt16} (hh : handed.toNat ≤ 1) : (columns column n xs ys handed).2.toNat ≤ 1 := by
  induction n generalizing xs ys handed with
  | zero => exact hh
  | succ n ih => exact ih _ _ (h _ _ _)

end columns

section passes

variable {ys row : List UInt8} {place : Nat}

theorem passState_carry_le (x : UInt8) (ys : List UInt8) (place : Nat) {carry : UInt16}
    (row : List UInt8) (h : carry.toNat ≤ 255) : (passState x ys place carry row).1.toNat ≤ 255 := by
  induction ys generalizing place carry row with
  | nil => exact h
  | cons y ys ih => exact ih _ _ (productStep_carry_le ..)

/-- A pass has not yet touched the cells above those that it has gone through. -/
theorem passState_getElem? (x : UInt8) (carry : UInt16) {k : Nat} (h : place + ys.length ≤ k) :
    (passState x ys place carry row).2[k]? = row[k]? := by
  induction ys generalizing place carry row with
  | nil => rfl
  | cons y ys ih =>
    rw [List.length_cons] at h
    rw [passState, ih _ (by omega), List.getElem?_set_ne (by omega)]

theorem storePass_eq_passState (x : UInt8) (ys : List UInt8) (place : Nat) (carry : UInt16)
    (row : List UInt8) :
    storePass x ys place carry row = (passState x ys place carry row).2.set (place + ys.length)
      (passState x ys place carry row).1.toUInt8 := by
  induction ys generalizing place carry row with
  | nil => rfl
  | cons y ys ih =>
    rw [storePass, ih, passState, List.length_cons, Nat.add_right_comm, Nat.add_assoc]

theorem productFits (x y held : UInt8) {carry : UInt16} (h : carry.toNat ≤ 255) :
    ProductFits x y held carry := by
  have heq := toNat_productStep x y held h
  have hlt := (productStep x y held carry).toNat_lt
  exact ⟨h, heq, by omega⟩

theorem passFits (x : UInt8) (h : row[place + ys.length]? = some 0) : PassFits ys x place row where
  step _ _ _ := productFits _ _ _ (passState_carry_le x _ place row (by simp))
  last_le := passState_carry_le x ys place row (by simp)
  still_zero := (passState_getElem? x 0 (Nat.le_refl _)).trans h
  stored := storePass_eq_passState x ys place 0 row

theorem storePasses_append (ys low high : List UInt8) (place : Nat) (row : List UInt8) :
    storePasses ys (low ++ high) place row =
      storePasses ys high (place + low.length) (storePasses ys low place row) := by
  induction low generalizing place row with
  | nil => rfl
  | cons x low ih =>
    rw [List.cons_append, storePasses, ih, storePasses, List.length_cons, Nat.add_right_comm,
      Nat.add_assoc]

/-- Each pass starts from the row that the one before it has left. -/
theorem storedRow_succ {xs : List UInt8} {x : UInt8} {i : Nat} (h : xs[i]? = some x)
    (ys : List UInt8) : storedRow xs ys (i + 1) = storeCell ys x i (storedRow xs ys i) := by
  have hi : i < xs.length := (List.getElem?_eq_some_iff.mp h).1
  rw [storedRow, List.take_add_one, h, Option.toList_some, storePasses_append, List.length_take,
    Nat.min_eq_left (Nat.le_of_lt hi), Nat.zero_add, storedRow]
  rfl

theorem storedRow_still_zero {xs : List UInt8} {i : Nat} (h : i < xs.length) (ys : List UInt8) :
    (storedRow xs ys i)[i + ys.length]? = some 0 := by
  have hdrop := (holds_storedRow xs ys i).drop_eq
  rw [List.length_take, Nat.min_eq_left (Nat.le_of_lt h)] at hdrop
  rw [← Nat.add_zero (i + ys.length), ← List.getElem?_drop, hdrop,
    List.getElem?_replicate_of_lt (Nat.sub_pos_of_lt h)]

end passes

section words

variable {factor divisor carry remainder : UInt32}

theorem scaleFits (c : UInt8) (hf : factor.toNat ≤ 2 ^ 24) (h : carry.toNat < factor.toNat) :
    ScaleFits factor c carry :=
  ⟨h, toNat_mul_factor c hf, toNat_mul_factor_add c hf (Nat.lt_of_lt_of_le h hf)⟩

/-- Under a bound on the factor, a carry below the bound hands on one below it. -/
theorem scaleCarry_lt {bound : Nat} (cells : List UInt8) (hb : bound ≤ 2 ^ 24)
    (hf : factor.toNat ≤ bound) (h : carry.toNat < bound) :
    (scaleCarry factor cells carry).toNat < bound := by
  induction cells generalizing carry with
  | nil => exact h
  | cons c cs ih =>
    have hmul := Nat.mul_le_mul (Nat.le_of_lt_succ c.toNat_lt) hf
    have hacc := toNat_mul_factor_add c (Nat.le_trans hf hb) (Nat.lt_of_lt_of_le h hb)
    refine ih ?_
    rw [toNat_shiftRight_cell, hacc]
    omega

/-- Cells are scaled with the carry of those below them. -/
theorem mulAdd_append (low high : List UInt8) : mulAdd factor (low ++ high) carry =
    (mulAdd factor low carry).take low.length ++
      mulAdd factor high (scaleCarry factor low carry) := by
  induction low generalizing carry with
  | nil => simp [scaleCarry]
  | cons c low ih => simp [mulAdd, scaleCarry, ih]

theorem shareFits (c : UInt8) (hd : divisor.toNat ≤ 2 ^ 24)
    (h : remainder.toNat < divisor.toNat) : ShareFits divisor c remainder := by
  have hremainder := Nat.lt_of_lt_of_le h hd
  exact ⟨h, toNat_remainder_shiftLeft hremainder, toNat_remainder_or c hremainder,
    Nat.le_of_lt_succ (toNat_quotient_lt c hd h), fun _ => rfl⟩

end words

end Cells

namespace Number

/-- While the divisor still fits, the count of its takes is a cell that can grow. -/
structure CountFits (divisor remainder : Number) : Prop where
  lt_last : ∀ k rest, sub? (takeOff divisor k remainder 0).1 divisor = some rest →
    (takeOff divisor k remainder 0).2.toNat = k ∧ k < 255

/-- No bit of the word is shifted out when a cell is put below it. -/
structure ShiftFits (c : UInt8) (word : BitVec 128) : Prop where
  shifted_eq : (word <<< 8).toNat = 256 * word.toNat
  joined_eq : (word <<< 8 ||| c.toBitVec.setWidth 128).toNat = 256 * word.toNat + c.toNat

theorem takeOff_of_takesOff {divisor remainder last : Number} {count : Nat}
    (h : TakesOff divisor remainder count last) {k : Nat} {digit : UInt8} {rest : Number}
    (hfits : sub? (takeOff divisor k remainder digit).1 divisor = some rest) :
    k < count ∧ (takeOff divisor k remainder digit).2 = digit + UInt8.ofNat k := by
  induction h generalizing k digit with
  | stop h =>
    cases k with
    | zero => simp [takeOff, h] at hfits
    | succ k => simp [takeOff, h] at hfits
  | take h _ ih =>
    cases k with
    | zero => exact ⟨Nat.succ_pos _, (UInt8.add_zero digit).symm⟩
    | succ k =>
      simp only [takeOff, h] at hfits ⊢
      obtain ⟨hlt, hdigit⟩ := ih hfits
      refine ⟨Nat.succ_lt_succ hlt, ?_⟩
      rw [hdigit, UInt8.ofNat_add, UInt8.add_comm (UInt8.ofNat k), ← UInt8.add_assoc]
      rfl

theorem countFits {divisor : Number} {state : List UInt8 × Number} (c : UInt8)
    (h : state.2.toNat < divisor.toNat) : CountFits divisor (state.2.shiftIn c) where
  lt_last k rest hfits := by
    obtain ⟨count, last, hcount, htakes, -⟩ := exists_takesOff_shiftIn c h
    obtain ⟨hlt, hdigit⟩ := takeOff_of_takesOff htakes hfits
    have hk : k < 255 := Nat.lt_of_lt_of_le hlt hcount
    rw [hdigit, UInt8.zero_add, UInt8.toNat_ofNat', Nat.mod_eq_of_lt (by omega)]
    exact ⟨rfl, hk⟩

theorem shiftFits (c : UInt8) {cells : List UInt8} (h : cells.length ≤ 15) :
    ShiftFits c (wordOfCells cells) := by
  have hlt : (wordOfCells cells).toNat < 256 ^ 15 := by
    rw [toNat_wordOfCells cells (by omega)]
    exact Nat.lt_of_lt_of_le (Cells.value_lt cells) (Nat.pow_le_pow_right (by omega) h)
  exact ⟨toNat_word_shiftLeft hlt, toNat_word_or c hlt⟩

theorem mul_cells_eq_storedRow {a b : Number} (ha : a.toNat ≠ 0) (hb : b.toNat ≠ 0) :
    (a * b).cells = Cells.normal (Cells.storedRow a.cells b.cells a.size) := by
  have hzero : ¬ (Raw.isZero a.cells || Raw.isZero b.cells) = true := by
    rw [Raw.isZero_cells, Raw.isZero_cells, Bool.or_eq_true, isZero_iff, isZero_iff]
    exact not_or.mpr ⟨ha, hb⟩
  rw [← Raw.mulStored_cells, Raw.mulStored, if_neg hzero]
  rfl

/-- What each loop on the cells of two numbers finds at each of its places, in the words that it
computes in, where the places of a sum, a difference and a product are those of `columns` and
`storedRow`. The cells below a place are `low`, those above it `high`. -/
structure WideEnough (a b : Number) : Prop where
  add_eq : (a + b).cells = Cells.normal
    (Cells.closed (Cells.columns Cells.addColumn (max a.size b.size) a.cells b.cells 0))
  sub_eq : Cells.subBorrow a.cells b.cells 0 =
    Cells.columns Cells.subColumn a.size a.cells b.cells 0
  mul_eq : a.toNat ≠ 0 → b.toNat ≠ 0 →
    (a * b).cells = Cells.normal (Cells.storedRow a.cells b.cells a.size)
  sum : ∀ n, Cells.SumFits (a.cells.getD n 0) (b.cells.getD n 0)
    (Cells.columns Cells.addColumn n a.cells b.cells 0).2
  difference : ∀ n, Cells.DifferenceFits (a.cells.getD n 0) (b.cells.getD n 0)
    (Cells.columns Cells.subColumn n a.cells b.cells 0).2
  product : ∀ i x, a.cells[i]? = some x →
    Cells.PassFits b.cells x i (Cells.storedRow a.cells b.cells i) ∧
    Cells.storedRow a.cells b.cells (i + 1) =
      Cells.storeCell b.cells x i (Cells.storedRow a.cells b.cells i)
  quotient : b.toNat ≠ 0 → ∀ low c high, a.cells = low ++ c :: high →
    CountFits b ((divideCells b high).2.shiftIn c)
  scale : ∀ digit : UInt32, digit.toNat ≤ 9 → ∀ low c high, a.cells = low ++ c :: high →
    Cells.ScaleFits 10 c (Cells.scaleCarry 10 low digit) ∧
    Cells.mulAdd 10 a.cells digit = (Cells.mulAdd 10 low digit).take low.length ++
      Cells.mulAdd 10 (c :: high) (Cells.scaleCarry 10 low digit)
  share : ∀ low c high, a.cells = low ++ c :: high →
    Cells.ShareFits 10000 c (Cells.divMod 10000 high).2
  word : a.size ≤ 16 → ∀ low c high, a.cells = low ++ c :: high → ShiftFits c (wordOfCells high)

theorem wideEnough (a b : Number) : WideEnough a b where
  add_eq := (Raw.add_cells a b).symm.trans (Raw.add_eq_columns a.cells b.cells)
  sub_eq := Cells.subBorrow_eq_columns a.cells b.cells 0
  mul_eq := mul_cells_eq_storedRow
  sum n := Cells.sumFits _ _ (Cells.columns_handed_le Cells.addColumn_carry_le n _ _ (by simp))
  difference n :=
    Cells.differenceFits _ _ (Cells.columns_handed_le Cells.subColumn_borrow_le n _ _ (by simp))
  product i x hx := by
    have hi : i < a.cells.length := (List.getElem?_eq_some_iff.mp hx).1
    exact ⟨Cells.passFits x (Cells.storedRow_still_zero hi b.cells),
      Cells.storedRow_succ hx b.cells⟩
  quotient hb low c high _ :=
    countFits c (foldr_divideCell_value (Nat.pos_of_ne_zero hb) high).1
  scale digit hd low c high ha := by
    have hdigit : digit.toNat < (10 : UInt32).toNat := Nat.lt_succ_of_le hd
    have hcarry := Cells.scaleCarry_lt low (by decide) (Nat.le_refl _) hdigit
    refine ⟨Cells.scaleFits c (by decide) hcarry, ?_⟩
    rw [ha, Cells.mulAdd_append]
  share low c high _ :=
    Cells.shareFits c (by decide) (Cells.divMod_value high (by decide) (by decide)).1
  word ha low c high hcells := by
    refine shiftFits c ?_
    rw [size, hcells, List.length_append, List.length_cons] at ha
    omega

/-- The bound on the accumulator is met: in the product of 65535 and 16777215 a cell of 255 and a
carry of 255 come to a step of the second pass. -/
theorem wideEnough_without_slack :
    (ofCells [255, 255]).cells[1]? = some 255 ∧ (ofCells [255, 255, 255]).cells[1]? = some 255 ∧
    ∃ held carry, Cells.ProductFits 255 255 held carry ∧
      Cells.productStep 255 255 held carry = 65535 := by
  have ha : (ofCells [255, 255]).cells[1]? = some 255 := by decide
  have hb : (ofCells [255, 255, 255]).cells[1]? = some 255 := by decide
  have hstep := ((wideEnough (ofCells [255, 255]) (ofCells [255, 255, 255])).product 1 255 ha).1.step
    1 255 hb
  exact ⟨ha, hb, _, _, hstep, by decide⟩

end Number

end TapeCalc
