import TapeCalc.Number.Basic

/-!
# Machine words

Numbers as words of 64 and 128 bits, and the number of significant bits.
-/
namespace TapeCalc.Number

/-- Significant bits of one cell. -/
def cellBits (c : UInt8) : Nat := if c = 0 then 0 else c.toNat.log2 + 1

/-- The number of significant bits, 0 for zero: eight for each cell below the top one. -/
def bitLength (n : Number) : Nat := (n.size - 1) * 8 + cellBits (n.cells.getLastD 0)

/-- Shifts the cells into a word, the most significant first. -/
def wordOfCells (cells : List UInt8) : BitVec 128 :=
  cells.foldr (fun c acc => acc <<< 8 ||| c.toBitVec.setWidth 128) 0

/-- The 128-bit word of the number, if sixteen cells hold it. -/
def toWord? (n : Number) : Option (BitVec 128) :=
  if 16 < n.size then none else some (wordOfCells n.cells)

/-- The number as a 64-bit word, if it fits. -/
def toUInt64? (n : Number) : Option UInt64 :=
  n.toWord?.bind fun w => if w.toNat < 2 ^ 64 then some (UInt64.ofNat w.toNat) else none

/-- The bytes of a word, the lowest first. -/
def wordBytes : Nat → BitVec 128 → List UInt8
  | 0, _ => []
  | n + 1, w => UInt8.ofBitVec (w.setWidth 8) :: wordBytes n (w >>> 8)

def ofWord (w : BitVec 128) : Number := ofCells (wordBytes 16 w)

theorem value_wordBytes (n : Nat) (w : BitVec 128) :
    Cells.value (wordBytes n w) = w.toNat % 256 ^ n := by
  induction n generalizing w with
  | zero => simp [wordBytes, Cells.value, Nat.mod_one]
  | succ n ih =>
    rw [wordBytes, Cells.value, ih, Nat.pow_succ, Nat.mul_comm (256 ^ n), Nat.mod_mul]
    simp [BitVec.toNat_ushiftRight, Nat.shiftRight_eq_div_pow]

@[simp] theorem toNat_ofWord (w : BitVec 128) : (ofWord w).toNat = w.toNat := by
  have := w.isLt
  rw [ofWord, toNat_ofCells, value_wordBytes]
  exact Nat.mod_eq_of_lt (by omega)

/-- No bit of fifteen bytes is shifted out of the word by one more. -/
theorem toNat_word_shiftLeft {w : BitVec 128} (h : w.toNat < 256 ^ 15) :
    (w <<< 8).toNat = 256 * w.toNat := by
  rw [BitVec.toNat_shiftLeft, Nat.shiftLeft_eq, Nat.mul_comm]
  exact Nat.mod_eq_of_lt (by omega)

theorem toNat_word_or (c : UInt8) {w : BitVec 128} (h : w.toNat < 256 ^ 15) :
    (w <<< 8 ||| c.toBitVec.setWidth 128).toNat = 256 * w.toNat + c.toNat := by
  have hor := Nat.shiftLeft_add_eq_or_of_lt c.toNat_lt w.toNat
  have hc : (c.toBitVec.setWidth 128).toNat = c.toNat :=
    BitVec.toNat_setWidth_of_le (by omega)
  rw [Nat.shiftLeft_eq, Nat.mul_comm] at hor
  rw [BitVec.toNat_or, toNat_word_shiftLeft h, hc]
  exact hor.symm

/-- Sixteen cells fill the word. -/
theorem toNat_wordOfCells (cells : List UInt8) (h : cells.length ≤ 16) :
    (wordOfCells cells).toNat = Cells.value cells := by
  induction cells with
  | nil => rfl
  | cons c cs ih =>
    have hl : cs.length ≤ 15 := Nat.le_of_succ_le_succ h
    have hcs := ih (Nat.le_succ_of_le hl)
    have hlt : (wordOfCells cs).toNat < 256 ^ 15 := by
      rw [hcs]
      exact Nat.lt_of_lt_of_le (Cells.value_lt cs) (Nat.pow_le_pow_right (by omega) hl)
    rw [Cells.value, ← hcs, Nat.add_comm]
    exact toNat_word_or c hlt

theorem size_le_iff (n : Number) (k : Nat) (hk : 0 < k) : n.size ≤ k ↔ n.toNat < 256 ^ k := by
  constructor
  · intro h
    exact Nat.lt_of_lt_of_le (Cells.value_lt n.cells)
      (Nat.pow_le_pow_right (by omega) h)
  · intro h
    by_cases hz : n.cells = [0]
    · simp [size, hz]
      omega
    · have hp := Cells.pow_length_le n.canonical hz
      have := (Nat.pow_lt_pow_iff_right (show 1 < 256 by omega)).mp (Nat.lt_of_le_of_lt hp h)
      simp only [size]
      omega

theorem toWord?_eq_some_iff (n : Number) (w : BitVec 128) :
    n.toWord? = some w ↔ n.toNat = w.toNat := by
  have hs := size_le_iff n 16 (by omega)
  unfold toWord?
  split
  next h =>
    have := w.isLt
    constructor
    · intro h0
      cases h0
    · omega
  next h =>
    have hv := toNat_wordOfCells n.cells (by simp only [size] at h; omega)
    rw [Option.some.injEq, ← BitVec.toNat_inj, hv]
    rfl

theorem toWord?_eq_none_iff (n : Number) : n.toWord? = none ↔ 2 ^ 128 ≤ n.toNat := by
  have hs := size_le_iff n 16 (by omega)
  unfold toWord?
  split
  next h => simp; omega
  next h => simp; omega

theorem two_pow_cellBits (c : UInt8) (h : c ≠ 0) :
    2 ^ (cellBits c - 1) ≤ c.toNat ∧ c.toNat < 2 ^ cellBits c := by
  have h0 : c.toNat ≠ 0 := fun h0 => h (UInt8.toNat_inj.mp h0)
  simp only [cellBits, h, if_false, Nat.add_sub_cancel]
  exact ⟨Nat.log2_self_le h0, Nat.lt_log2_self⟩

theorem bitLength_zero : zero.bitLength = 0 := rfl

/-- The bit length of a number that is not zero bounds it by powers of two on both sides. -/
theorem two_pow_bitLength {n : Number} (h : n.toNat ≠ 0) :
    2 ^ (n.bitLength - 1) ≤ n.toNat ∧ n.toNat < 2 ^ n.bitLength := by
  have hne := n.canonical.1
  have htop : n.cells.getLast hne ≠ 0 := by
    intro h0
    have := n.canonical.2 (by rw [List.getLast?_eq_some_getLast hne, h0])
    simp [toNat, this, Cells.value] at h
  have hlow := Cells.value_lt n.cells.dropLast
  have hbits := two_pow_cellBits _ htop
  have hpos : 1 ≤ cellBits (n.cells.getLast hne) := by simp [cellBits, htop]
  have hv : n.toNat = Cells.value n.cells.dropLast +
      256 ^ (n.size - 1) * (n.cells.getLast hne).toNat := by
    conv => lhs; rw [toNat, ← List.dropLast_concat_getLast hne, Cells.value_append]
    simp [size, Cells.value]
  have hb : n.bitLength = (n.size - 1) * 8 + cellBits (n.cells.getLast hne) := by
    rw [bitLength, List.getLastD_eq_getLast?, List.getLast?_eq_some_getLast hne]
    rfl
  have hlen : n.cells.dropLast.length = n.size - 1 := by simp [size]
  have h256 : 256 ^ (n.size - 1) = 2 ^ ((n.size - 1) * 8) := by
    rw [Nat.mul_comm, Nat.pow_mul]
  rw [hlen] at hlow
  rw [hv, hb, Nat.add_sub_assoc hpos, Nat.pow_add, Nat.pow_add, ← h256]
  have h1 := Nat.mul_le_mul_left (256 ^ (n.size - 1)) hbits.1
  have h2 := Nat.mul_le_mul_left (256 ^ (n.size - 1)) (Nat.succ_le_of_lt hbits.2)
  rw [Nat.mul_succ] at h2
  omega

end TapeCalc.Number
