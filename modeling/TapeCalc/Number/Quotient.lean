import TapeCalc.Number.Carry

/-!
# Quotients

Long division, most significant cell first: the next cell is shifted into the remainder, and the
divisor is taken off as often as it fits. That count is the next quotient cell.
-/
namespace TapeCalc.Number

/-- The number times 256, plus one cell. -/
def shiftIn (n : Number) (c : UInt8) : Number := ofCells (c :: n.cells)

/-- Takes the divisor off the remainder while it fits, at most `fuel` times, and counts. -/
def takeOff (divisor : Number) : Nat → Number → UInt8 → Number × UInt8
  | 0, remainder, count => (remainder, count)
  | fuel + 1, remainder, count =>
    match sub? remainder divisor with
    | none => (remainder, count)
    | some rest => takeOff divisor fuel rest (count + 1)

/-- One step of long division on the quotient cells so far, most significant last, and the
remainder. A remainder below the divisor, shifted by one cell, holds it fewer than 256 times. -/
def divideCell (divisor : Number) (cell : UInt8) (state : List UInt8 × Number) :
    List UInt8 × Number :=
  let taken := takeOff divisor 256 (state.2.shiftIn cell) 0
  (taken.2 :: state.1, taken.1)

/-- Quotient and remainder, or `none` for a divisor of zero. -/
def divMod? (a b : Number) : Option (Number × Number) :=
  if b.isZero then none
  else if compare a b == .lt then some (zero, a)
  else
    let result := a.cells.foldr (divideCell b) ([], zero)
    some (ofCells result.1, result.2)

@[simp] theorem toNat_shiftIn (n : Number) (c : UInt8) :
    (n.shiftIn c).toNat = 256 * n.toNat + c.toNat := by
  rw [shiftIn, toNat_ofCells, Cells.value, toNat, Nat.add_comm]

/-- The divisor comes off `count` times, one time after the other, and then it no longer fits. -/
inductive TakesOff (divisor : Number) : Number → Nat → Number → Prop
  | stop {remainder : Number} (h : sub? remainder divisor = none) :
    TakesOff divisor remainder 0 remainder
  | take {remainder rest last : Number} {count : Nat} (h : sub? remainder divisor = some rest)
      (ht : TakesOff divisor rest count last) : TakesOff divisor remainder (count + 1) last

/-- However often the divisor has come off when it no longer fits, that is the quotient. -/
theorem TakesOff.value {divisor remainder last : Number} {count : Nat}
    (h : TakesOff divisor remainder count last) :
    remainder.toNat = count * divisor.toNat + last.toNat ∧ last.toNat < divisor.toNat := by
  induction h with
  | stop h => exact ⟨by simp, (sub?_eq_none_iff _ _).mp h⟩
  | take h _ ih =>
    have hr := toNat_sub? h
    rw [Nat.succ_mul]
    exact ⟨by omega, ih.2⟩

/-- With fuel for every take that fits, the loop ends where the divisor no longer fits. -/
theorem takesOff_takeOff {divisor : Number} {fuel : Nat} {remainder : Number}
    (h : remainder.toNat < fuel * divisor.toNat) (count : UInt8) :
    ∃ taken, TakesOff divisor remainder taken (takeOff divisor fuel remainder count).1 ∧
      (takeOff divisor fuel remainder count).2 = count + UInt8.ofNat taken := by
  induction fuel generalizing remainder count with
  | zero => simp at h
  | succ fuel ih =>
    rw [takeOff]
    cases hs : sub? remainder divisor with
    | none => exact ⟨0, .stop hs, by simp⟩
    | some rest =>
      have hr := toNat_sub? hs
      rw [Nat.succ_mul] at h
      have hrest : rest.toNat < fuel * divisor.toNat := by omega
      obtain ⟨taken, htakes, hcount⟩ := ih hrest (count + 1)
      refine ⟨taken + 1, .take hs htakes, ?_⟩
      rw [UInt8.ofNat_add, UInt8.add_comm (UInt8.ofNat taken), ← UInt8.add_assoc]
      exact hcount

/-- With fuel for every take that fits, quotient and remainder come out. -/
theorem takeOff_value (divisor : Number) (fuel : Nat) (remainder : Number) (count : UInt8)
    (hd : 0 < divisor.toNat) (hf : remainder.toNat < fuel * divisor.toNat)
    (hc : count.toNat + fuel ≤ 256) :
    (takeOff divisor fuel remainder count).1.toNat = remainder.toNat % divisor.toNat ∧
      (takeOff divisor fuel remainder count).2.toNat =
        count.toNat + remainder.toNat / divisor.toNat := by
  obtain ⟨taken, htakes, hcount⟩ := takesOff_takeOff hf count
  obtain ⟨hsum, hlt⟩ := htakes.value
  have htaken : taken < fuel := Nat.lt_of_mul_lt_mul_right (a := divisor.toNat) (by omega)
  rw [Nat.add_comm, Nat.mul_comm] at hsum
  obtain ⟨hq, hr⟩ := (Nat.div_mod_unique hd).mpr ⟨hsum.symm, hlt⟩
  rw [hq, hr, hcount, UInt8.toNat_add, UInt8.toNat_ofNat']
  exact ⟨rfl, by omega⟩

/-- A step keeps the remainder below the divisor and the quotient exact. -/
theorem divideCell_value {divisor : Number} {state : List UInt8 × Number} (cell : UInt8)
    (h : state.2.toNat < divisor.toNat) :
    (divideCell divisor cell state).2.toNat < divisor.toNat ∧
      Cells.value (divideCell divisor cell state).1 * divisor.toNat +
          (divideCell divisor cell state).2.toNat =
        256 * (Cells.value state.1 * divisor.toNat + state.2.toNat) + cell.toNat := by
  have hc := cell.toNat_lt
  have ht := takeOff_value divisor 256 (state.2.shiftIn cell) 0 (by omega)
    (by rw [toNat_shiftIn]; omega)
    (by simp)
  have hdm := Nat.div_add_mod (state.2.shiftIn cell).toNat divisor.toNat
  simp only [toNat_shiftIn] at ht hdm
  simp only [divideCell, Cells.value, ht, Nat.add_mul]
  refine ⟨Nat.mod_lt _ (by omega), ?_⟩
  have h1 : 256 * Cells.value state.1 * divisor.toNat =
    256 * (Cells.value state.1 * divisor.toNat) := Nat.mul_assoc ..
  rw [Nat.mul_comm divisor.toNat] at hdm
  simp only [UInt8.reduceToNat, h1, Nat.mul_add]
  omega

theorem foldr_divideCell_value {divisor : Number} (hd : 0 < divisor.toNat) (cells : List UInt8) :
    (cells.foldr (divideCell divisor) ([], zero)).2.toNat < divisor.toNat ∧
      Cells.value (cells.foldr (divideCell divisor) ([], zero)).1 * divisor.toNat +
        (cells.foldr (divideCell divisor) ([], zero)).2.toNat = Cells.value cells := by
  induction cells with
  | nil => simpa [Cells.value] using hd
  | cons c cs ih =>
    have := divideCell_value c ih.1
    rw [ih.2] at this
    simp only [List.foldr_cons, Cells.value]
    omega

theorem divMod?_eq_none_iff (a b : Number) : divMod? a b = none ↔ b.toNat = 0 := by
  rw [← isZero_iff]
  unfold divMod?
  split
  next h => simp [h]
  next h => split <;> simp [h]

theorem divMod?_value {a b q r : Number} (h : divMod? a b = some (q, r)) :
    r.toNat < b.toNat ∧ q.toNat * b.toNat + r.toNat = a.toNat := by
  unfold divMod? at h
  split at h
  next => cases h
  next hz =>
    have hb : 0 < b.toNat := by
      rw [isZero_iff] at hz
      omega
    split at h
    next hlt =>
      simp only [compare_eq_compare_toNat, beq_iff_eq, Nat.compare_eq_lt] at hlt
      simp only [Option.some.injEq, Prod.mk.injEq] at h
      simp [← h.1, ← h.2, hlt]
    next =>
      simp only [Option.some.injEq, Prod.mk.injEq] at h
      rw [← h.1, ← h.2, toNat_ofCells]
      exact foldr_divideCell_value hb a.cells

end TapeCalc.Number
