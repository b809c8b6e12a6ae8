import TapeCalc.Proofs.RawCells

/-!
# Carry and borrow chains

The columns of a sum or a difference, taken up to any place: the cells so far, and the carry or the
borrow that is handed on. Both are exact at every place, so addition and subtraction are, and each
undoes the other.
-/
namespace TapeCalc

namespace Cells

/-- The cells of the first columns, and what they hand to the next one. Where a list has ended its
cells are zero. -/
def columns (column : UInt8 → UInt8 → UInt16 → UInt8 × UInt16) :
    Nat → List UInt8 → List UInt8 → UInt16 → List UInt8 × UInt16
  | 0, _, _, handed => ([], handed)
  | n + 1, xs, ys, handed =>
    let first := column (xs.headD 0) (ys.headD 0) handed
    let rest := columns column n xs.tail ys.tail first.2
    (first.1 :: rest.1, rest.2)

/-- The cells of all columns, and one more cell for a last carry. -/
def closed (done : List UInt8 × UInt16) : List UInt8 :=
  done.1 ++ if done.2 = 0 then [] else [1]

theorem length_columns (column : UInt8 → UInt8 → UInt16 → UInt8 × UInt16) (n : Nat)
    (xs ys : List UInt8) (handed : UInt16) : (columns column n xs ys handed).1.length = n := by
  induction n generalizing xs ys handed with
  | zero => rfl
  | succ n ih => simp [columns, ih]

theorem value_take_succ (n : Nat) (cells : List UInt8) :
    value (cells.take (n + 1)) = (cells.headD 0).toNat + 256 * value (cells.tail.take n) := by
  cases cells with
  | nil => simp [value]
  | cons c cs => simp [value]

/-- The cells and the carry after any number of columns make up the sum of the cells taken. -/
theorem value_columns_add (n : Nat) (xs ys : List UInt8) (carry : UInt16) (h : carry.toNat ≤ 1) :
    value (columns addColumn n xs ys carry).1 +
        256 ^ n * (columns addColumn n xs ys carry).2.toNat =
      value (xs.take n) + value (ys.take n) + carry.toNat := by
  induction n generalizing xs ys carry with
  | zero => simp [columns, value]
  | succ n ih =>
    have hc := addColumn_value (xs.headD 0) (ys.headD 0) h
    have hi := ih xs.tail ys.tail _ (addColumn_carry_le (xs.headD 0) (ys.headD 0) carry)
    rw [value_take_succ, value_take_succ]
    simp only [columns, value, Nat.pow_succ, Nat.mul_comm _ 256, Nat.mul_assoc]
    omega

/-- The cells after any number of columns, and the cells taken off, make up the cells taken and the
borrow on top of them. -/
theorem value_columns_sub (n : Nat) (xs ys : List UInt8) (borrow : UInt16) (h : borrow.toNat ≤ 1) :
    value (columns subColumn n xs ys borrow).1 + value (ys.take n) + borrow.toNat =
      value (xs.take n) + 256 ^ n * (columns subColumn n xs ys borrow).2.toNat := by
  induction n generalizing xs ys borrow with
  | zero => simp [columns, value]
  | succ n ih =>
    have hc := subColumn_value (xs.headD 0) (ys.headD 0) h
    have hi := ih xs.tail ys.tail _ (subColumn_borrow_le (xs.headD 0) (ys.headD 0) borrow)
    rw [value_take_succ, value_take_succ]
    simp only [columns, value, Nat.pow_succ, Nat.mul_comm _ 256, Nat.mul_assoc]
    omega

theorem value_columns_lt (column : UInt8 → UInt8 → UInt16 → UInt8 × UInt16) (n : Nat)
    (xs ys : List UInt8) (handed : UInt16) :
    value (columns column n xs ys handed).1 < 256 ^ n := by
  have h := value_lt (columns column n xs ys handed).1
  rwa [length_columns] at h

theorem value_take_lt (n : Nat) (cells : List UInt8) : value (cells.take n) < 256 ^ n :=
  Nat.lt_of_lt_of_le (value_lt (cells.take n))
    (Nat.pow_le_pow_right (by omega) (List.length_take_le n cells))

theorem addColumn_comm (x y : UInt8) (carry : UInt16) :
    addColumn x y carry = addColumn y x carry := by
  have ht : columnTotal x y carry = columnTotal y x carry := by
    rw [columnTotal, columnTotal, UInt16.add_comm x.toUInt16]
  rw [addColumn, addColumn, ht]

theorem columns_add_comm (n : Nat) (xs ys : List UInt8) (carry : UInt16) :
    columns addColumn n xs ys carry = columns addColumn n ys xs carry := by
  induction n generalizing xs ys carry with
  | zero => rfl
  | succ n ih =>
    rw [columns, columns, addColumn_comm (xs.headD 0)]
    simp only [ih xs.tail]

theorem addCarry_eq_columns (xs ys : List UInt8) (carry : UInt16) :
    addCarry xs ys carry = closed (columns addColumn xs.length xs ys carry) := by
  induction xs generalizing ys carry with
  | nil => rfl
  | cons x xs ih => exact congrArg _ (ih ys.tail _)

theorem subBorrow_eq_columns (xs ys : List UInt8) (borrow : UInt16) :
    subBorrow xs ys borrow = columns subColumn xs.length xs ys borrow := by
  induction xs generalizing ys borrow with
  | nil => rfl
  | cons x xs ih =>
    simp only [subBorrow, List.length_cons, columns, List.headD_cons, List.tail_cons, ih]

/-- What the first columns have to give: the low cells of the sum with a carry for the rest, and the
low cells of the difference with a borrow where the cells to take off are the greater. -/
structure ExactUpTo (n : Nat) (xs ys : List UInt8) : Prop where
  sum : value (columns addColumn n xs ys 0).1 =
    (value (xs.take n) + value (ys.take n)) % 256 ^ n
  carry : (columns addColumn n xs ys 0).2.toNat =
    (value (xs.take n) + value (ys.take n)) / 256 ^ n
  difference : value (columns subColumn n xs ys 0).1 =
    (value (xs.take n) + 256 ^ n - value (ys.take n)) % 256 ^ n
  borrow : (columns subColumn n xs ys 0).2.toNat =
    if value (xs.take n) < value (ys.take n) then 1 else 0

theorem columns_add_exact (n : Nat) (xs ys : List UInt8) :
    value (columns addColumn n xs ys 0).1 = (value (xs.take n) + value (ys.take n)) % 256 ^ n ∧
      (columns addColumn n xs ys 0).2.toNat =
        (value (xs.take n) + value (ys.take n)) / 256 ^ n := by
  have hv := value_columns_add n xs ys 0 (by simp)
  have hlt := value_columns_lt addColumn n xs ys 0
  have hdm := (Nat.div_mod_unique (Nat.pow_pos (by omega))).mpr ⟨hv, hlt⟩
  exact ⟨hdm.2.symm, hdm.1.symm⟩

theorem columns_sub_exact (n : Nat) (xs ys : List UInt8) :
    value (columns subColumn n xs ys 0).1 =
        (value (xs.take n) + 256 ^ n - value (ys.take n)) % 256 ^ n ∧
      (columns subColumn n xs ys 0).2.toNat =
        if value (xs.take n) < value (ys.take n) then 1 else 0 := by
  have hv := value_columns_sub n xs ys 0 (by simp)
  have hlt := value_columns_lt subColumn n xs ys 0
  have hx := value_take_lt n xs
  have hy := value_take_lt n ys
  have hzero : (0 : UInt16).toNat = 0 := rfl
  rw [hzero, Nat.add_zero] at hv
  generalize value (columns subColumn n xs ys 0).1 = cells at hv hlt ⊢
  generalize (columns subColumn n xs ys 0).2.toNat = borrow at hv ⊢
  -- the cells are below the base power, so the borrow alone tells which side is greater
  have hborrow : borrow < 2 := Nat.lt_of_mul_lt_mul_left (a := 256 ^ n) (by omega)
  rcases (show borrow = 0 ∨ borrow = 1 by omega) with rfl | rfl
  · have hd : value (xs.take n) + 256 ^ n - value (ys.take n) = cells + 256 ^ n := by omega
    rw [if_neg (by omega), hd, Nat.add_mod_right, Nat.mod_eq_of_lt hlt]
    exact ⟨rfl, rfl⟩
  · have hd : value (xs.take n) + 256 ^ n - value (ys.take n) = cells := by omega
    rw [if_pos (by omega), hd, Nat.mod_eq_of_lt hlt]
    exact ⟨rfl, rfl⟩

theorem exactUpTo (n : Nat) (xs ys : List UInt8) : ExactUpTo n xs ys where
  sum := (columns_add_exact n xs ys).1
  carry := (columns_add_exact n xs ys).2
  difference := (columns_sub_exact n xs ys).1
  borrow := (columns_sub_exact n xs ys).2

end Cells

/-- A sum has as many columns as its longer operand, whichever that is. -/
theorem Raw.add_eq_columns (xs ys : List UInt8) :
    Raw.add xs ys =
      Cells.normal
        (Cells.closed (Cells.columns Cells.addColumn (max xs.length ys.length) xs ys 0)) := by
  unfold Raw.add
  split
  next h => rw [Cells.addCarry_eq_columns, Nat.max_eq_left h]
  next h =>
    rw [Cells.addCarry_eq_columns, Nat.max_eq_right (Nat.le_of_not_le h), Cells.columns_add_comm]

namespace Number

/-- After the last column there is nothing left to borrow if and only if the difference is not below
zero. -/
theorem subBorrow_borrow_eq_zero_iff {a b : Number} (h : b.size ≤ a.size) :
    (Cells.subBorrow a.cells b.cells 0).2 = 0 ↔ b.toNat ≤ a.toNat := by
  have ha : a.cells.take a.size = a.cells := List.take_of_length_le (Nat.le_refl _)
  have hb : b.cells.take a.size = b.cells := List.take_of_length_le h
  have hlast : (Cells.columns Cells.subColumn a.size a.cells b.cells 0).2.toNat =
      if a.toNat < b.toNat then 1 else 0 := by
    rw [(Cells.columns_sub_exact a.size a.cells b.cells).2, ha, hb]
    rfl
  rw [Cells.subBorrow_eq_columns, ← UInt16.toNat_inj]
  change (Cells.columns Cells.subColumn a.size a.cells b.cells 0).2.toNat = 0 ↔ _
  rw [hlast]
  split <;> simp <;> omega

theorem sub?_eq_some_iff {a b d : Number} : sub? a b = some d ↔ d + b = a := by
  rw [← toNat_inj, toNat_add]
  constructor
  · exact toNat_sub?
  · intro h
    cases hs : sub? a b with
    | none =>
      have := (sub?_eq_none_iff a b).mp hs
      omega
    | some c =>
      have := toNat_sub? hs
      rw [Option.some.injEq, ← toNat_inj]
      omega

theorem exists_sub?_eq_some {a b : Number} (h : b.toNat ≤ a.toNat) :
    ∃ d, sub? a b = some d ∧ d.toNat = a.toNat - b.toNat := by
  cases hs : sub? a b with
  | none => exact absurd ((sub?_eq_none_iff a b).mp hs) (Nat.not_lt.mpr h)
  | some d =>
    have := toNat_sub? hs
    exact ⟨d, rfl, by omega⟩

/-- Sums and differences are exact, and trimmed on cells that carry no proof. A difference is
refused where it would be below zero and nowhere else, and then no borrow is left. Taking off what
was added, or adding what was taken off, gives back the number. The columns of both are exact up to
every place. -/
theorem carryChains_exact (a b : Number) :
    ((a + b).toNat = a.toNat + b.toNat ∧ Raw.add a.cells b.cells = (a + b).cells ∧
      Cells.Canonical (Raw.add a.cells b.cells)) ∧
    ((sub? a b = none ↔ a < b) ∧ (a < b ↔ a.toNat < b.toNat) ∧
      Raw.sub? a.cells b.cells = (sub? a b).map cells) ∧
    (b.toNat ≤ a.toNat → ∃ d, sub? a b = some d ∧ d.toNat = a.toNat - b.toNat ∧
      Cells.Canonical d.cells ∧ (Cells.subBorrow a.cells b.cells 0).2 = 0 ∧ d + b = a) ∧
    ((a - b).toNat = a.toNat - b.toNat ∧ Raw.sub a.cells b.cells = (a - b).cells ∧
      Cells.Canonical (Raw.sub a.cells b.cells)) ∧
    sub? (a + b) b = some a ∧
    Raw.add a.cells b.cells = Cells.normal
      (Cells.closed (Cells.columns Cells.addColumn (max a.size b.size) a.cells b.cells 0)) ∧
    Cells.subBorrow a.cells b.cells 0 =
      Cells.columns Cells.subColumn a.size a.cells b.cells 0 ∧
    ∀ n, Cells.ExactUpTo n a.cells b.cells := by
  refine ⟨⟨toNat_add a b, Raw.add_cells a b, ?_⟩, ⟨?_, lt_iff, Raw.sub?_cells a b⟩, ?_,
    ⟨toNat_sub a b, Raw.sub_cells a b, ?_⟩, sub?_eq_some_iff.mpr rfl, Raw.add_eq_columns _ _,
    Cells.subBorrow_eq_columns _ _ _, fun n => Cells.exactUpTo n a.cells b.cells⟩
  · exact Cells.normal_canonical _
  · rw [sub?_eq_none_iff, lt_iff]
  · intro h
    obtain ⟨d, hd, hvalue⟩ := exists_sub?_eq_some h
    exact ⟨d, hd, hvalue, d.canonical,
      (subBorrow_borrow_eq_zero_iff (length_le_of_toNat_le h)).mpr h, sub?_eq_some_iff.mp hd⟩
  · rw [Raw.sub_cells]
    exact (a - b).canonical

/-- One off 65536: the borrow goes through every cell, and the top cell is trimmed. -/
theorem carryChains_exact_borrow :
    (ofByte 1).toNat ≤ (ofCells [0, 0, 1]).toNat ∧
    ∃ d, sub? (ofCells [0, 0, 1]) (ofByte 1) = some d ∧ d.toNat = 65535 ∧
      (Cells.subBorrow (ofCells [0, 0, 1]).cells (ofByte 1).cells 0).2 = 0 ∧
      d + ofByte 1 = ofCells [0, 0, 1] := by
  have hle : (ofByte 1).toNat ≤ (ofCells [0, 0, 1]).toNat := by decide
  have hdiff : (ofCells [0, 0, 1]).toNat - (ofByte 1).toNat = 65535 := by decide
  obtain ⟨d, hd, hvalue, -, hborrow, hsum⟩ :=
    (carryChains_exact (ofCells [0, 0, 1]) (ofByte 1)).2.2.1 hle
  exact ⟨hle, d, hd, hvalue.trans hdiff, hborrow, hsum⟩

end Number

end TapeCalc
