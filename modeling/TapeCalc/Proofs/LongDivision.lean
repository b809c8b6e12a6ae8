import TapeCalc.Proofs.RawCells

/-!
# Long division

Before each cell of the dividend, the quotient cells so far times the divisor, and the remainder,
make up the cells already taken, and the remainder is below the divisor. So the divisor comes off
the remainder and the next cell at most 255 times, and the count fits a cell.
-/
namespace TapeCalc.Number

/-- The quotient cells and the remainder of cells, before anything is trimmed. -/
def divideCells (divisor : Number) (cells : List UInt8) : List UInt8 × Number :=
  cells.foldr (divideCell divisor) ([], zero)

/-- A remainder below the divisor and one more cell hold the divisor at most 255 times. -/
theorem exists_takesOff_shiftIn {divisor : Number} {state : List UInt8 × Number} (c : UInt8)
    (h : state.2.toNat < divisor.toNat) :
    ∃ count rest, count ≤ 255 ∧ TakesOff divisor (state.2.shiftIn c) count rest ∧
      divideCell divisor c state = (UInt8.ofNat count :: state.1, rest) := by
  have hc := c.toNat_lt
  have hfit : (state.2.shiftIn c).toNat < 256 * divisor.toNat := by
    rw [toNat_shiftIn]
    omega
  obtain ⟨count, htakes, hcount⟩ := takesOff_takeOff hfit 0
  -- what came off is at most the remainder and the cell, so less than 256 divisors
  have hsum := htakes.value.1
  have hlt : count < 256 := Nat.lt_of_mul_lt_mul_right (a := divisor.toNat) (by omega)
  rw [UInt8.zero_add] at hcount
  refine ⟨count, (divideCell divisor c state).2, Nat.le_of_lt_succ hlt, htakes, ?_⟩
  rw [← hcount]
  rfl

theorem divMod?_eq_divideCells {a b : Number} (hb : b.toNat ≠ 0) (h : b.toNat ≤ a.toNat) :
    divMod? a b = some (ofCells (divideCells b a.cells).1, (divideCells b a.cells).2) := by
  have hzero : ¬ b.isZero = true := fun hz => hb (b.isZero_iff.mp hz)
  have hlt : ¬ (compare a b == .lt) = true := by
    rw [beq_iff_eq, compare_eq_compare_toNat, Nat.compare_eq_lt]
    omega
  rw [divMod?, if_neg hzero, if_neg hlt]
  rfl

/-- Division is refused by zero only. Else the quotient and the remainder come out exact and
canonical, also without trimming anything but the quotient. For each cell of the dividend the
divisor comes off at most 255 times, and as often as the quotient cell says. -/
theorem longDivision_exact (a b : Number) :
    (divMod? a b = none ↔ b.toNat = 0) ∧ (a.div b = .infinity ↔ b.toNat = 0) ∧
    (b.toNat ≠ 0 →
      (∃ q r, divMod? a b = some (q, r) ∧ a.div b = .finite q ∧
        a.toNat = q.toNat * b.toNat + r.toNat ∧ r.toNat < b.toNat ∧
        Raw.divMod? a.cells b.cells = some (q.cells, r.cells) ∧
        Cells.Canonical q.cells ∧ Cells.Canonical r.cells) ∧
      (b.toNat ≤ a.toNat →
        divMod? a b = some (ofCells (divideCells b a.cells).1, (divideCells b a.cells).2)) ∧
      ∀ low c high, a.cells = low ++ c :: high →
        Cells.value high =
          Cells.value (divideCells b high).1 * b.toNat + (divideCells b high).2.toNat ∧
        (divideCells b high).2.toNat < b.toNat ∧
        ∃ count rest, count ≤ 255 ∧
          TakesOff b ((divideCells b high).2.shiftIn c) count rest ∧
          divideCells b (c :: high) = (UInt8.ofNat count :: (divideCells b high).1, rest)) := by
  refine ⟨divMod?_eq_none_iff a b, div_eq_infinity_iff a b,
    fun hb => ⟨?_, divMod?_eq_divideCells hb, ?_⟩⟩
  · cases h : divMod? a b with
    | none => exact absurd ((divMod?_eq_none_iff a b).mp h) hb
    | some result =>
      obtain ⟨q, r⟩ := result
      obtain ⟨hlt, hsum⟩ := divMod?_value h
      refine ⟨q, r, rfl, ?_, hsum.symm, hlt, ?_, q.canonical, r.canonical⟩
      · rw [div, h]
      · rw [Raw.divMod?_cells, h]
        rfl
  · intro low c high _
    obtain ⟨hlt, hsum⟩ := foldr_divideCell_value (Nat.pos_of_ne_zero hb) high
    exact ⟨hsum.symm, hlt, exists_takesOff_shiftIn c hlt⟩

/-- A quotient with a zero cell inside: 131074 is 2 * 65536 + 2. -/
theorem longDivision_exact_zero_inside :
    (ofByte 3).toNat ≠ 0 ∧ (ofByte 3).toNat ≤ (ofCells [7, 0, 6]).toNat ∧
    (∃ q r, divMod? (ofCells [7, 0, 6]) (ofByte 3) = some (q, r) ∧ q.toNat = 131074 ∧
      r.toNat = 1) ∧
    (ofCells [7, 0, 6]).cells = [7] ++ 0 :: [6] ∧
    ∃ count rest, count ≤ 255 ∧
      TakesOff (ofByte 3) ((divideCells (ofByte 3) [6]).2.shiftIn 0) count rest := by
  have hb : (ofByte 3).toNat ≠ 0 := by decide
  have hle : (ofByte 3).toNat ≤ (ofCells [7, 0, 6]).toNat := by decide
  have hcells : (ofCells [7, 0, 6]).cells = [7] ++ 0 :: [6] := by decide
  have h3 : (ofByte 3).toNat = 3 := by decide
  have ha : (ofCells [7, 0, 6]).toNat = 393223 := by decide
  have h := (longDivision_exact (ofCells [7, 0, 6]) (ofByte 3)).2.2 hb
  obtain ⟨q, r, hqr, _, hsum, hlt, _⟩ := h.1
  rw [ha, h3] at hsum
  rw [h3] at hlt
  obtain ⟨_, _, count, rest, hcount, htakes, _⟩ := h.2.2 [7] 0 [6] hcells
  exact ⟨hb, hle, ⟨q, r, hqr, by omega, by omega⟩, hcells, count, rest, hcount, htakes⟩

end TapeCalc.Number
