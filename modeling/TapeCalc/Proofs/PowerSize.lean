import Mathlib.Data.Nat.Size
import TapeCalc.Proofs.ExactArithmetic

/-!
# Sizes of powers

The guard of powers in exact numbers. Its estimate, the exponent times the bits of the base, is
never below the bits of the power and less than twice of them, so a power that is let through keeps
within the limit, and one that is refused for its size needs more than half of it.
-/
namespace TapeCalc

theorem size_pow_le (n : Nat) {exponent : Nat} (h : exponent ≠ 0) :
    (n ^ exponent).size ≤ exponent * n.size := by
  rw [Nat.size_le, Nat.mul_comm, Nat.pow_mul]
  exact Nat.pow_lt_pow_left (Nat.lt_size_self n) h

theorem mul_size_lt {n : Nat} (h : 2 ≤ n) (exponent : Nat) :
    exponent * n.size < 2 * (n ^ exponent).size := by
  have htwo : 2 ≤ n.size := Nat.lt_size.mpr h
  have hlow : 2 ^ (n.size - 1) ≤ n := Nat.lt_size.mp (by omega)
  have hpow : 2 ^ ((n.size - 1) * exponent) ≤ n ^ exponent := by
    rw [Nat.pow_mul]
    exact Nat.pow_le_pow_left hlow exponent
  have hsize : (n.size - 1) * exponent < (n ^ exponent).size := Nat.lt_size.mpr hpow
  -- a base of at least two bits loses at most half of them with its lowest one
  have hhalf : n.size * exponent ≤ 2 * (n.size - 1) * exponent :=
    Nat.mul_le_mul_right exponent (by omega)
  rw [Nat.mul_assoc, Nat.mul_comm n.size] at hhalf
  omega

namespace Number

theorem bitLength_eq_size (n : Number) : n.bitLength = n.toNat.size := by
  by_cases h : n.toNat = 0
  · obtain rfl : n = zero := toNat_inj.mp h
    rw [bitLength_zero, toNat_zero, Nat.size_zero]
  · obtain ⟨hlow, hhigh⟩ := two_pow_bitLength h
    have hlt := Nat.lt_size.mpr hlow
    have hle := Nat.size_le.mpr hhigh
    omega

/-- The bit length as it is counted in words. -/
def bitLengthWord (n : Number) : UInt64 :=
  UInt64.ofNat (n.size - 1) * 8 + UInt64.ofNat (cellBits (n.cells.getLastD 0))

theorem cellBits_le (c : UInt8) : cellBits c ≤ 8 := by
  unfold cellBits
  split
  next => omega
  next h =>
    have h0 : c.toNat ≠ 0 := fun h0 => h (UInt8.toNat_inj.mp h0)
    have := (Nat.log2_lt h0).mpr (show c.toNat < 2 ^ 8 from c.toNat_lt)
    omega

/-- Numbers whose cells can be counted have their bits counted without overflow. -/
theorem toNat_bitLengthWord {n : Number} (h : n.size < 2 ^ 60) :
    n.bitLengthWord.toNat = n.bitLength := by
  have hbits := cellBits_le (n.cells.getLastD 0)
  simp only [bitLengthWord, bitLength, UInt64.toNat_add, UInt64.toNat_mul, UInt64.toNat_ofNat',
    UInt64.reduceToNat]
  omega

variable {limits : Limits} {base exponent : Number}

/-- Against a limit below the greatest word, the estimate that is cut to words twice decides as the
exact one does. -/
theorem estimate_le_iff (exponent : Number) (hb : 2 ≤ base.toNat)
    (hbits : limits.maxResultBits.toNat < 2 ^ 64 - 1) :
    min (min exponent.toNat (2 ^ 64 - 1) * base.bitLength) (2 ^ 64 - 1) ≤
        limits.maxResultBits.toNat ↔
      exponent.toNat * base.bitLength ≤ limits.maxResultBits.toNat := by
  have hlength := two_le_bitLength hb
  rcases Nat.le_total exponent.toNat (2 ^ 64 - 1) with hfit | hcut
  · rw [Nat.min_eq_left hfit]
    omega
  · have hmax : 2 ^ 64 - 1 ≤ exponent.toNat * base.bitLength :=
      Nat.le_trans hcut (Nat.le_mul_of_pos_right _ (by omega))
    have hword : 2 ^ 64 - 1 ≤ (2 ^ 64 - 1) * base.bitLength :=
      Nat.le_mul_of_pos_right _ (by omega)
    rw [Nat.min_eq_right hcut, Nat.min_eq_right hword]
    omega

theorem exists_power_eq_ok_iff (hbits : limits.maxResultBits.toNat < 2 ^ 64 - 1) :
    (∃ n, power limits base exponent = .ok n) ↔
      exponent.toNat = 0 ∨ base.toNat ≤ 1 ∨
        exponent.toNat ≤ limits.maxExponent.toNat ∧
          exponent.toNat * base.bitLength ≤ limits.maxResultBits.toNat := by
  by_cases hc : exponent.toNat = 0 ∨ base.toNat ≤ 1
  · obtain ⟨n, hn, -⟩ : ∃ n, power limits base exponent = .ok n ∧ _ := power_of_constant hc
    exact iff_of_true ⟨n, hn⟩ (or_assoc.mp (.inl hc))
  · have hb : 2 ≤ base.toNat := by omega
    have he : 1 ≤ exponent.toNat := by omega
    have hword := limits.maxExponent.toNat_lt
    have hlength := two_le_bitLength hb
    have hbelow : exponent.toNat ≤ exponent.toNat * base.bitLength :=
      Nat.le_mul_of_pos_right _ (by omega)
    simp only [power_eq_ok_iff hb he, estimate_le_iff exponent hb hbits]
    constructor
    · rintro ⟨n, hexp, hestimate, -⟩
      exact .inr (.inr ⟨by omega, hestimate⟩)
    · rintro (hzero | hconst | ⟨hexp, hestimate⟩)
      · omega
      · omega
      · exact ⟨_, by omega, hestimate, rfl⟩

/-- A limit on bits below the greatest word keeps out every exponent that does not fit a word. -/
theorem toNat_of_power_eq_ok {n : Number} (hbits : limits.maxResultBits.toNat < 2 ^ 64 - 1)
    (h : power limits base exponent = .ok n) : n.toNat = base.toNat ^ exponent.toNat :=
  power_eq_ok (fun hl _ => absurd hl.2 (Nat.ne_of_lt hbits)) h

theorem bitLength_le_of_power_eq_ok {n : Number} (hb : 2 ≤ base.toNat) (he : 1 ≤ exponent.toNat)
    (hbits : limits.maxResultBits.toNat < 2 ^ 64 - 1) (h : power limits base exponent = .ok n) :
    n.bitLength ≤ limits.maxResultBits.toNat := by
  obtain ⟨-, hestimate, -⟩ := (power_eq_ok_iff hb he).mp h
  rw [estimate_le_iff exponent hb hbits, bitLength_eq_size] at hestimate
  rw [bitLength_eq_size, toNat_of_power_eq_ok hbits h]
  exact Nat.le_trans (size_pow_le base.toNat (by omega)) hestimate

/-- A power that is checked is refused for its exponent first, and else for its size. -/
theorem power_eq_error_iff (hb : 2 ≤ base.toNat) (he : 1 ≤ exponent.toNat) {cause : PowerError} :
    power limits base exponent = .error cause ↔
      limits.maxExponent.toNat < min exponent.toNat (2 ^ 64 - 1) ∧
        cause = .exponentTooLarge exponent.exponentWord limits.maxExponent ∨
      min exponent.toNat (2 ^ 64 - 1) ≤ limits.maxExponent.toNat ∧
        limits.maxResultBits.toNat <
          min (min exponent.toNat (2 ^ 64 - 1) * base.bitLength) (2 ^ 64 - 1) ∧
        cause = .resultTooLarge (base.powerBits exponent.exponentWord) limits.maxResultBits := by
  rw [power_of_checked hb he, ← toNat_exponentWord, ← toNat_powerBits, ← UInt64.lt_iff_toNat_lt,
    ← UInt64.lt_iff_toNat_lt, ← Nat.not_lt, ← UInt64.lt_iff_toNat_lt]
  split
  next hexp => simp [hexp, eq_comm]
  next hexp =>
    split
    next hbits => simp [hexp, hbits, eq_comm]
    next hbits => simp [hexp, hbits]

/-- A power refused for its size needs more than half of the bits that the limit allows. -/
theorem lt_size_of_power_eq_error {bits limit : UInt64}
    (h : power limits base exponent = .error (.resultTooLarge bits limit)) :
    limits.maxResultBits.toNat < 2 * (base.toNat ^ exponent.toNat).size := by
  obtain ⟨hb, he⟩ := power_eq_error h
  rcases (power_eq_error_iff hb he).mp h with ⟨-, hcause⟩ | ⟨-, hestimate, -⟩
  · cases hcause
  · have hsize := mul_size_lt hb exponent.toNat
    have hcut : min exponent.toNat (2 ^ 64 - 1) * base.bitLength ≤
        exponent.toNat * base.toNat.size := by
      rw [bitLength_eq_size]
      exact Nat.mul_le_mul_right _ (Nat.min_le_left ..)
    omega

end Number

theorem Operator.apply_pow_eq_ok_iff {limits : Limits} {a b : Number} {v : Value} :
    Operator.apply .pow limits a b = .ok v ↔
      ∃ n, Number.power limits a b = .ok n ∧ v = .finite n := by
  rw [apply]
  cases Number.power limits a b with
  | error cause => simp [Except.map]
  | ok n => simp [Except.map, eq_comm]

theorem Operator.apply_pow_eq_error_iff {limits : Limits} {a b : Number} {cause : PowerError} :
    Operator.apply .pow limits a b = .error cause ↔
      Number.power limits a b = .error cause := by
  rw [apply]
  cases Number.power limits a b with
  | error cause => simp [Except.map]
  | ok n => simp [Except.map]

/-- With a limit on bits below the greatest word, the guard lets through exactly the powers within
both limits, and those that never grow. What it refuses it refuses for the exponent first, with the
amounts cut to words. What it lets through keeps within the limit on bits, and what it refuses for
its size needs more than half of it. -/
theorem Operator.apply_pow_guard (limits : Limits)
    (hbits : limits.maxResultBits.toNat < 2 ^ 64 - 1) (a b : Number) :
    ((∃ v, Operator.apply .pow limits a b = .ok v) ↔
      b.toNat = 0 ∨ a.toNat ≤ 1 ∨
        b.toNat ≤ limits.maxExponent.toNat ∧
          b.toNat * a.bitLength ≤ limits.maxResultBits.toNat) ∧
    (b.toNat ≠ 0 → 2 ≤ a.toNat → ∀ cause, Operator.apply .pow limits a b = .error cause ↔
      limits.maxExponent.toNat < min b.toNat (2 ^ 64 - 1) ∧
        (∃ exponent, exponent.toNat = min b.toNat (2 ^ 64 - 1) ∧
          cause = .exponentTooLarge exponent limits.maxExponent) ∨
      min b.toNat (2 ^ 64 - 1) ≤ limits.maxExponent.toNat ∧
        limits.maxResultBits.toNat < b.toNat * a.bitLength ∧
        ∃ bits, bits.toNat = min (min b.toNat (2 ^ 64 - 1) * a.bitLength) (2 ^ 64 - 1) ∧
          cause = .resultTooLarge bits limits.maxResultBits) ∧
    (2 ≤ a.toNat → 1 ≤ b.toNat → ∀ v, Operator.apply .pow limits a b = .ok v →
      ∃ n, v = .finite n ∧ n.toNat = a.toNat ^ b.toNat ∧
        n.bitLength = (a.toNat ^ b.toNat).size ∧ n.bitLength ≤ limits.maxResultBits.toNat) ∧
    (∀ bits limit, Operator.apply .pow limits a b = .error (.resultTooLarge bits limit) →
      limits.maxResultBits.toNat < 2 * (a.toNat ^ b.toNat).size) ∧
    (a.size < 2 ^ 60 → a.bitLengthWord.toNat = a.bitLength) := by
  refine ⟨?_, fun hb ha cause => ?_, fun ha hb v hv => ?_, fun bits limit h => ?_,
    Number.toNat_bitLengthWord⟩
  · rw [← Number.exists_power_eq_ok_iff hbits]
    constructor
    · rintro ⟨v, hv⟩
      obtain ⟨n, hn, -⟩ := apply_pow_eq_ok_iff.mp hv
      exact ⟨n, hn⟩
    · rintro ⟨n, hn⟩
      exact ⟨.finite n, apply_pow_eq_ok_iff.mpr ⟨n, hn, rfl⟩⟩
  · have hbig := not_congr (Number.estimate_le_iff b ha hbits)
    rw [Nat.not_le, Nat.not_le] at hbig
    rw [apply_pow_eq_error_iff, Number.power_eq_error_iff ha (Nat.one_le_iff_ne_zero.mpr hb), hbig]
    have hexponent := b.toNat_exponentWord
    have hestimate := a.toNat_powerBits b.exponentWord
    rw [hexponent] at hestimate
    constructor
    · rintro (⟨hexp, rfl⟩ | ⟨hexp, hbits, rfl⟩)
      · exact .inl ⟨hexp, _, hexponent, rfl⟩
      · exact .inr ⟨hexp, hbits, _, hestimate, rfl⟩
    · rintro (⟨hexp, word, hword, rfl⟩ | ⟨hexp, hbits, word, hword, rfl⟩)
      · rw [UInt64.toNat_inj.mp (hexponent.trans hword.symm)]
        exact .inl ⟨hexp, rfl⟩
      · rw [UInt64.toNat_inj.mp (hestimate.trans hword.symm)]
        exact .inr ⟨hexp, hbits, rfl⟩
  · obtain ⟨n, hn, rfl⟩ := apply_pow_eq_ok_iff.mp hv
    have hexact := Number.toNat_of_power_eq_ok hbits hn
    exact ⟨n, rfl, hexact, hexact ▸ n.bitLength_eq_size,
      Number.bitLength_le_of_power_eq_ok ha hb hbits hn⟩
  · exact Number.lt_size_of_power_eq_error (apply_pow_eq_error_iff.mp h)

/-- With a limit of 1000 bits two has a power for the exponent 500, whose estimate is the limit
itself, and none for 1000. -/
theorem Operator.apply_pow_guard_two :
    (Limits.mk 1000 1000).maxResultBits.toNat < 2 ^ 64 - 1 ∧
    (∃ n, Operator.apply .pow ⟨1000, 1000⟩ (.ofByte 2) (.ofCells [244, 1]) = .ok (.finite n) ∧
      n.toNat = 2 ^ 500 ∧ n.bitLength ≤ 1000) ∧
    ∃ bits, Operator.apply .pow ⟨1000, 1000⟩ (.ofByte 2) (.ofCells [232, 3]) =
        .error (.resultTooLarge bits 1000) ∧
      bits.toNat = 2000 ∧ 1000 < 2 * (2 ^ 1000).size := by
  have hbits : (Limits.mk 1000 1000).maxResultBits.toNat < 2 ^ 64 - 1 := by decide
  have ha : (Number.ofByte 2).toNat = 2 := rfl
  have hlength : (Number.ofByte 2).bitLength = 2 := rfl
  have h500 : (Number.ofCells [244, 1]).toNat = 500 := rfl
  have h1000 : (Number.ofCells [232, 3]).toNat = 1000 := rfl
  refine ⟨hbits, ?_, ?_⟩
  · obtain ⟨hok, -, hfits, -⟩ := apply_pow_guard ⟨1000, 1000⟩ hbits (.ofByte 2) (.ofCells [244, 1])
    rw [ha, hlength, h500] at hok
    rw [ha, h500] at hfits
    obtain ⟨v, hv⟩ := hok.mpr (.inr (.inr ⟨by decide, by decide⟩))
    obtain ⟨n, rfl, hn, -, hle⟩ := hfits (by omega) (by omega) v hv
    exact ⟨n, hv, hn, hle⟩
  · obtain ⟨-, hrefused, -, hlarge, -⟩ :=
      apply_pow_guard ⟨1000, 1000⟩ hbits (.ofByte 2) (.ofCells [232, 3])
    rw [ha, hlength, h1000] at hrefused
    rw [ha, h1000] at hlarge
    have hword : (UInt64.ofNat 2000).toNat =
        min (min 1000 (2 ^ 64 - 1) * 2) (2 ^ 64 - 1) := by decide
    have herror := (hrefused (by omega) (by omega) (.resultTooLarge (UInt64.ofNat 2000) 1000)).mpr
      (.inr ⟨by decide, by decide, _, hword, rfl⟩)
    exact ⟨_, herror, by decide, hlarge _ _ herror⟩

end TapeCalc
