import TapeCalc.Number.Power

/-!
# Cells

A natural number as a list of bytes in base 256, least significant first. A list is canonical
when it is not empty and has no zero at its far end, the single cell of zero apart; each value
has one canonical list, `normal`.
-/
namespace TapeCalc.Cells

/-- The natural number that the cells stand for. -/
def value : List UInt8 → Nat
  | [] => 0
  | c :: cs => c.toNat + 256 * value cs

/-- Drops the zero cells at the most significant end. -/
def trim (cells : List UInt8) : List UInt8 :=
  cells.foldr (fun c rest => if c == 0 && rest.isEmpty then [] else c :: rest) []

/-- The canonical cells of the same value. -/
def normal (cells : List UInt8) : List UInt8 :=
  match trim cells with
  | [] => [0]
  | c :: rest => c :: rest

def Canonical (cells : List UInt8) : Prop :=
  cells ≠ [] ∧ (cells.getLast? = some 0 → cells = [0])

instance (cells : List UInt8) : Decidable (Canonical cells) :=
  inferInstanceAs (Decidable (_ ∧ _))

/-- Compares lists of one length: the more significant cells decide first. -/
def compareCells : List UInt8 → List UInt8 → Ordering
  | x :: xs, y :: ys => (compareCells xs ys).then (compare x y)
  | _, _ => .eq

theorem trim_cons (c : UInt8) (cs : List UInt8) :
    trim (c :: cs) = if c == 0 && (trim cs).isEmpty then [] else c :: trim cs := rfl

@[simp] theorem value_trim (cells : List UInt8) : value (trim cells) = value cells := by
  induction cells with
  | nil => rfl
  | cons c cs ih =>
    rw [trim_cons]
    split
    next h =>
      simp only [Bool.and_eq_true, beq_iff_eq, List.isEmpty_iff] at h
      rw [h.2] at ih
      simp [value, h.1, ← ih]
    next => simp [value, ih]

theorem getLast?_trim_ne_zero (cells : List UInt8) : (trim cells).getLast? ≠ some 0 := by
  induction cells with
  | nil => simp [trim]
  | cons c cs ih =>
    rw [trim_cons]
    split
    next => simp
    next h =>
      cases ht : trim cs with
      | nil => simp_all
      | cons d ds =>
        rw [ht] at ih
        rwa [List.getLast?_cons_cons]

@[simp] theorem value_normal (cells : List UInt8) : value (normal cells) = value cells := by
  have h := value_trim cells
  unfold normal
  split
  next ht => simp [← h, ht, value]
  next ht => rw [← h, ht]

theorem normal_canonical (cells : List UInt8) : Canonical (normal cells) := by
  have h := getLast?_trim_ne_zero cells
  unfold normal
  split
  next => simp [Canonical]
  next ht =>
    rw [ht] at h
    exact ⟨by simp, fun hz => absurd hz h⟩

theorem value_headD_tail (cells : List UInt8) :
    value cells = (cells.headD 0).toNat + 256 * value cells.tail := by
  cases cells <;> rfl

theorem value_lt (cells : List UInt8) : value cells < 256 ^ cells.length := by
  induction cells with
  | nil => simp [value]
  | cons c cs ih =>
    have hc := c.toNat_lt
    simp only [value, List.length_cons, Nat.pow_succ]
    omega

theorem canonical_singleton (c : UInt8) : Canonical [c] := by
  refine ⟨List.cons_ne_nil c [], fun h => ?_⟩
  rw [List.getLast?_singleton] at h
  rw [Option.some.inj h]

theorem Canonical.cons {cells : List UInt8} (h : Canonical cells) (hne : cells ≠ [0]) (c : UInt8) :
    Canonical (c :: cells) := by
  refine ⟨List.cons_ne_nil c cells, fun hlast => ?_⟩
  rw [List.getLast?_cons_of_ne_nil h.1] at hlast
  exact absurd (h.2 hlast) hne

theorem Canonical.tail {c : UInt8} {cs : List UInt8} (h : Canonical (c :: cs)) (hne : cs ≠ []) :
    Canonical cs ∧ cs ≠ [0] := by
  have h2 := h.2
  rw [List.getLast?_cons_of_ne_nil hne] at h2
  have hz : cs.getLast? ≠ some 0 := fun hz => hne (by have := h2 hz; simp at this; exact this.2)
  refine ⟨⟨hne, fun h0 => absurd h0 hz⟩, fun h0 => hz (by simp [h0])⟩

theorem value_pos_of_canonical {cells : List UInt8} (h : Canonical cells) (hne : cells ≠ [0]) :
    0 < value cells := by
  induction cells with
  | nil => exact absurd rfl h.1
  | cons c cs ih =>
    by_cases hcs : cs = []
    · subst hcs
      have : c ≠ 0 := fun h0 => hne (by rw [h0])
      have : c.toNat ≠ 0 := fun h0 => this (UInt8.toNat_inj.mp h0)
      simp [value]
      omega
    · have := ih (h.tail hcs).1 (h.tail hcs).2
      simp [value]
      omega

/-- A canonical list has the least length for its value. -/
theorem pow_length_le {cells : List UInt8} (h : Canonical cells) (hne : cells ≠ [0]) :
    256 ^ (cells.length - 1) ≤ value cells := by
  induction cells with
  | nil => exact absurd rfl h.1
  | cons c cs ih =>
    by_cases hcs : cs = []
    · subst hcs
      have := value_pos_of_canonical h hne
      simp
      omega
    · have hi := ih (h.tail hcs).1 (h.tail hcs).2
      obtain ⟨d, ds, rfl⟩ := List.exists_cons_of_ne_nil hcs
      simp only [List.length_cons, Nat.add_sub_cancel, Nat.pow_succ] at hi ⊢
      rw [value]
      omega

theorem eq_of_value_eq {xs ys : List UInt8} (hl : xs.length = ys.length)
    (h : value xs = value ys) : xs = ys := by
  induction xs generalizing ys with
  | nil => exact (List.eq_nil_of_length_eq_zero hl.symm).symm
  | cons x xs ih =>
    cases ys with
    | nil => simp at hl
    | cons y ys =>
      have hx := x.toNat_lt
      have hy := y.toNat_lt
      simp only [value] at h
      have hxy : x = y := UInt8.toNat_inj.mp (by omega)
      rw [hxy, ih (by simpa using hl) (by omega)]

theorem compareCells_eq_compare {xs ys : List UInt8} (hl : xs.length = ys.length) :
    compareCells xs ys = compare (value xs) (value ys) := by
  induction xs generalizing ys with
  | nil =>
    obtain rfl := List.eq_nil_of_length_eq_zero hl.symm
    simp [compareCells]
  | cons x xs ih =>
    cases ys with
    | nil => simp at hl
    | cons y ys =>
      have hx := x.toNat_lt
      have hy := y.toNat_lt
      have hxy : compare x y = compare x.toNat y.toNat := by
        simp only [compare, compareOfLessAndEq, UInt8.lt_iff_toNat_lt, ← UInt8.toNat_inj]
      rw [compareCells, ih (by simpa using hl), hxy]
      simp only [value, Nat.compare_eq_ite_lt]
      repeat' split
      all_goals first | rfl | omega

/-- Of two canonical lists the longer one has the greater value. -/
theorem value_lt_of_length_lt {xs ys : List UInt8} (hx : Canonical xs) (hy : Canonical ys)
    (hl : xs.length < ys.length) : value xs < value ys := by
  have hne : ys ≠ [0] := by
    rintro rfl
    exact hx.1 (List.eq_nil_of_length_eq_zero (by simpa using hl))
  have h := Nat.pow_le_pow_right (show 0 < 256 by omega) (Nat.le_sub_one_of_lt hl)
  have h1 := pow_length_le hy hne
  have h2 := value_lt xs
  omega

theorem Canonical.eq_of_value_eq {xs ys : List UInt8} (hx : Canonical xs) (hy : Canonical ys)
    (h : value xs = value ys) : xs = ys := by
  rcases Nat.lt_trichotomy xs.length ys.length with hl | hl | hl
  · have := value_lt_of_length_lt hx hy hl
    omega
  · exact Cells.eq_of_value_eq hl h
  · have := value_lt_of_length_lt hy hx hl
    omega

theorem normal_of_canonical {cells : List UInt8} (h : Canonical cells) : normal cells = cells :=
  (normal_canonical cells).eq_of_value_eq h (value_normal cells)

theorem value_append (xs ys : List UInt8) :
    value (xs ++ ys) = value xs + 256 ^ xs.length * value ys := by
  induction xs with
  | nil => simp [value]
  | cons x xs ih =>
    have : 256 * (256 ^ xs.length * value ys) = 256 ^ (xs.length + 1) * value ys := by
      rw [Nat.pow_succ, Nat.mul_comm (256 ^ xs.length) 256, Nat.mul_assoc]
    simp only [List.cons_append, value, ih, List.length_cons, Nat.mul_add, this]
    omega

end TapeCalc.Cells
