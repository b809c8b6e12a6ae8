import TapeCalc.Proofs.PowerSize

/-!
# Numbers and machine words

A number goes into a word exactly if it is below the word's bound, and comes back from it; every
word comes back from its number. The tests behind this look at nothing but the count of cells, and
are right since no number has a zero at its far end. The bit length of a number is the only one
that leaves it no bit to spare.
-/
namespace TapeCalc.Number

/-- The bytes of a word, the lowest first, up to the last that is not zero. -/
def wordCells (w : BitVec 128) : List UInt8 :=
  if w = 0 then [] else UInt8.ofBitVec (w.setWidth 8) :: wordCells (w >>> 8)
termination_by w.toNat
decreasing_by
  rename_i h
  have hpos : w.toNat ≠ 0 := fun h0 => h (BitVec.eq_of_toNat_eq h0)
  rw [BitVec.toNat_ushiftRight, Nat.shiftRight_eq_div_pow]
  omega

theorem value_wordCells (w : BitVec 128) : Cells.value (wordCells w) = w.toNat := by
  induction w using wordCells.induct with
  | case1 =>
    rw [wordCells, if_pos rfl]
    rfl
  | case2 w h ih =>
    rw [wordCells, if_neg h, Cells.value, ih, BitVec.toNat_ushiftRight, Nat.shiftRight_eq_div_pow,
      UInt8.toNat_ofBitVec, BitVec.toNat_setWidth, Nat.mod_add_div]

/-- The bytes that are left out would be trimmed. -/
theorem ofCells_wordCells (w : BitVec 128) : ofCells (wordCells w) = ofWord w := by
  rw [← toNat_inj, toNat_ofCells, value_wordCells, toNat_ofWord]

theorem toWord?_ofWord (w : BitVec 128) : (ofWord w).toWord? = some w :=
  (toWord?_eq_some_iff _ _).mpr (toNat_ofWord w)

theorem ofWord_of_toWord? {n : Number} {w : BitVec 128} (h : n.toWord? = some w) :
    ofWord w = n := by
  rw [← toNat_inj, toNat_ofWord, (toWord?_eq_some_iff n w).mp h]

theorem exists_toWord?_eq_some {n : Number} (h : n.toNat < 2 ^ 128) :
    ∃ w, n.toWord? = some w ∧ w.toNat = n.toNat := by
  have hw : (BitVec.ofNat 128 n.toNat).toNat = n.toNat := Nat.mod_eq_of_lt h
  exact ⟨_, (toWord?_eq_some_iff n _).mpr hw.symm, hw⟩

theorem toUInt64?_eq_some_iff (n : Number) (v : UInt64) :
    n.toUInt64? = some v ↔ n.toNat = v.toNat := by
  have hv := v.toNat_lt
  rw [toUInt64?_eq]
  split
  next h =>
    rw [Option.some.injEq, ← UInt64.toNat_inj, UInt64.toNat_ofNat', Nat.mod_eq_of_lt h]
  next h =>
    refine iff_of_false nofun ?_
    omega

theorem toUInt64?_eq_none_iff (n : Number) : n.toUInt64? = none ↔ 2 ^ 64 ≤ n.toNat := by
  rw [toUInt64?_eq, ← Nat.not_lt]
  split
  next h => exact iff_of_false nofun (not_not_intro h)
  next h => exact iff_of_true rfl h

/-- The eight bits of a cell are its leading zeros and its significant bits. -/
theorem cellBits_eq_sub_clz (c : UInt8) : cellBits c = 8 - c.toBitVec.clz.toNat := by
  have h : ∀ v : BitVec 8, cellBits (UInt8.ofBitVec v) = 8 - v.clz.toNat := by decide +kernel
  exact h c.toBitVec

/-- Only the bit length leads to a power of two above the number and, one less, to one that is
not. -/
theorem eq_bitLength_iff {n : Number} (h : n.toNat ≠ 0) (k : Nat) :
    k = n.bitLength ↔ 1 ≤ k ∧ 2 ^ (k - 1) ≤ n.toNat ∧ n.toNat < 2 ^ k := by
  have hpos : 0 < n.toNat.size := Nat.size_pos.mpr (Nat.pos_of_ne_zero h)
  rw [bitLength_eq_size, ← Nat.lt_size, ← Nat.size_le]
  omega

/-- What a number is converted to, and what its conversions are converted back to. -/
structure ConvertsExactly (n : Number) : Prop where
  word : n.toNat < 2 ^ 128 → ∃ w, n.toWord? = some w ∧ w.toNat = n.toNat ∧ ofWord w = n
  no_word : 2 ^ 128 ≤ n.toNat → n.toWord? = none
  uint64 : n.toNat < 2 ^ 64 →
    ∃ v, n.toUInt64? = some v ∧ v.toNat = n.toNat ∧ ofWord (v.toBitVec.setWidth 128) = n
  no_uint64 : 2 ^ 64 ≤ n.toNat → n.toUInt64? = none
  bitLength_zero : n.toNat = 0 → n.bitLength = 0
  bitLength_iff : n.toNat ≠ 0 →
    ∀ k, k = n.bitLength ↔ 1 ≤ k ∧ 2 ^ (k - 1) ≤ n.toNat ∧ n.toNat < 2 ^ k
  bitLength_word : n.size < 2 ^ 60 → (UInt64.ofNat (n.size - 1) * 8 +
    UInt64.ofNat (8 - (n.cells.getLastD 0).toBitVec.clz.toNat)).toNat = n.bitLength

theorem convertsExactly (n : Number) : ConvertsExactly n where
  word h := by
    obtain ⟨w, hw, heq⟩ := exists_toWord?_eq_some h
    exact ⟨w, hw, heq, ofWord_of_toWord? hw⟩
  no_word := (toWord?_eq_none_iff n).mpr
  uint64 h := by
    have hv : (UInt64.ofNat n.toNat).toNat = n.toNat := UInt64.toNat_ofNat_of_lt h
    refine ⟨_, (toUInt64?_eq_some_iff n _).mpr hv.symm, hv, ?_⟩
    rw [← toNat_inj, toNat_ofWord, BitVec.toNat_setWidth_of_le (by omega)]
    exact hv
  no_uint64 := (toUInt64?_eq_none_iff n).mpr
  bitLength_zero h := by rw [bitLength_eq_size, h, Nat.size_zero]
  bitLength_iff := eq_bitLength_iff
  bitLength_word h := by
    rw [← cellBits_eq_sub_clz]
    exact toNat_bitLengthWord h

/-- Every word, or word of fewer bits that is widened to one, becomes the number of its value, whose
word it is; the loop over its bytes may stop at the last that is not zero. A number becomes the
word of its value and comes back from it, if it is below the bound of the word, and becomes none
otherwise. The bit length is 0 for zero, and else that of the shortest word that holds the number. -/
theorem conversions_exact :
    (∀ width, width ≤ 128 → ∀ v : BitVec width,
      (ofWord (v.setWidth 128)).toNat = v.toNat ∧
      (ofWord (v.setWidth 128)).toWord? = some (v.setWidth 128) ∧
      ofWord (v.setWidth 128) = ofCells (wordCells (v.setWidth 128))) ∧
    ∀ n : Number, n.ConvertsExactly := by
  refine ⟨fun width hw v => ⟨?_, toWord?_ofWord _, (ofCells_wordCells _).symm⟩, convertsExactly⟩
  rw [toNat_ofWord, BitVec.toNat_setWidth_of_le hw]

/-- A byte that is widened, and the first number that eight cells do not hold. -/
theorem conversions_exact_nine_cells :
    8 ≤ 128 ∧ (ofWord ((200 : BitVec 8).setWidth 128)).toNat = 200 ∧
    (ofCells (List.replicate 8 0 ++ [1])).size = 9 ∧
    (ofCells (List.replicate 8 0 ++ [1])).toUInt64? = none ∧
    (ofCells (List.replicate 8 0 ++ [1])).bitLength = 65 := by
  have hvalue : (ofCells (List.replicate 8 0 ++ [1])).toNat = 2 ^ 64 := by decide
  have hexact := conversions_exact.2 (ofCells (List.replicate 8 0 ++ [1]))
  have hbits := (hexact.bitLength_iff (by omega) 65).mpr (by omega)
  exact ⟨by decide, (conversions_exact.1 8 (by decide) 200).1, by decide,
    hexact.no_uint64 (by omega), hbits.symm⟩

end TapeCalc.Number
