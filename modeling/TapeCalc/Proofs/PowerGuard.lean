import TapeCalc.Arithmetic

/-!
# The guard of powers

Which powers are let through, and for which exponent. An exponent that does not fit a word is
checked as the greatest word, and so is an estimate of the bits that does not fit: a limit below
the greatest word keeps both out, two limits at the greatest word let both through.
-/
namespace TapeCalc

/-- Neither limit is below the greatest word. -/
def Limits.Unbounded (limits : Limits) : Prop :=
  limits.maxExponent.toNat = 2 ^ 64 - 1 ∧ limits.maxResultBits.toNat = 2 ^ 64 - 1

theorem toNat_saturated (n : Nat) : (saturated n).toNat = min n (2 ^ 64 - 1) := by
  unfold saturated
  split
  next h => rw [UInt64.toNat_ofNat', Nat.mod_eq_of_lt h, Nat.min_eq_left (by omega)]
  next h => rw [UInt64.toNat_ofNat', Nat.mod_eq_of_lt (by omega), Nat.min_eq_right (by omega)]

namespace Number

theorem toUInt64?_eq (n : Number) :
    n.toUInt64? = if n.toNat < 2 ^ 64 then some (UInt64.ofNat n.toNat) else none := by
  unfold toUInt64?
  cases h : n.toWord? with
  | none =>
    have := (toWord?_eq_none_iff n).mp h
    rw [if_neg (by omega)]
    rfl
  | some w =>
    rw [(toWord?_eq_some_iff n w).mp h]
    rfl

theorem toNat_exponentWord (n : Number) : n.exponentWord.toNat = min n.toNat (2 ^ 64 - 1) := by
  rw [exponentWord, toUInt64?_eq]
  split
  next h =>
    rw [Option.getD_some, UInt64.toNat_ofNat', Nat.mod_eq_of_lt h, Nat.min_eq_left (by omega)]
  next h =>
    rw [Option.getD_none, UInt64.toNat_ofNat', Nat.mod_eq_of_lt (by omega),
      Nat.min_eq_right (by omega)]

theorem toNat_powerBits (base : Number) (exponent : UInt64) :
    (base.powerBits exponent).toNat = min (exponent.toNat * base.bitLength) (2 ^ 64 - 1) :=
  toNat_saturated _

theorem two_le_bitLength {n : Number} (h : 2 ≤ n.toNat) : 2 ≤ n.bitLength := by
  have hlt := (two_pow_bitLength (n := n) (by omega)).2
  refine Nat.le_of_not_lt fun hlow => ?_
  have := Nat.pow_le_pow_right (show 0 < 2 by omega) (show n.bitLength ≤ 1 by omega)
  omega

variable {limits : Limits} {base exponent n : Number}

/-- A power that never grows is not checked. -/
theorem power_of_constant (h : exponent.toNat = 0 ∨ base.toNat ≤ 1) :
    ∃ n, power limits base exponent = .ok n ∧ n.toNat = base.toNat ^ exponent.toNat := by
  unfold power
  by_cases he : exponent.isZero = true
  · rw [if_pos he]
    exact ⟨one, rfl, by rw [(isZero_iff _).mp he, Nat.pow_zero, toNat_one]⟩
  · have hne : exponent.toNat ≠ 0 := fun h0 => he ((isZero_iff _).mpr h0)
    have hb : base.toNat = 0 ∨ base.toNat = 1 := by omega
    rw [if_neg he, if_pos (by rwa [Bool.or_eq_true, isZero_iff, isOne_iff])]
    refine ⟨base, rfl, ?_⟩
    rcases hb with hb | hb
    · rw [hb, Nat.zero_pow (by omega)]
    · rw [hb, Nat.one_pow]

/-- A power that can grow is checked, its exponent first. -/
theorem power_of_checked (hb : 2 ≤ base.toNat) (he : 1 ≤ exponent.toNat) :
    power limits base exponent =
      if limits.maxExponent < exponent.exponentWord then
        .error (.exponentTooLarge exponent.exponentWord limits.maxExponent)
      else if limits.maxResultBits < base.powerBits exponent.exponentWord then
        .error (.resultTooLarge (base.powerBits exponent.exponentWord) limits.maxResultBits)
      else .ok (base.pow exponent.exponentWord.toNat) := by
  have he0 : ¬ exponent.isZero = true := by
    rw [isZero_iff]
    omega
  have hb0 : ¬ (base.isZero || base.isOne) = true := by
    rw [Bool.or_eq_true, isZero_iff, isOne_iff]
    omega
  rw [power, if_neg he0, if_neg hb0]

/-- A power that is checked passes within both limits, with its exponent cut to a word. -/
theorem power_eq_ok_iff (hb : 2 ≤ base.toNat) (he : 1 ≤ exponent.toNat) :
    power limits base exponent = .ok n ↔
      min exponent.toNat (2 ^ 64 - 1) ≤ limits.maxExponent.toNat ∧
      min (min exponent.toNat (2 ^ 64 - 1) * base.bitLength) (2 ^ 64 - 1) ≤
        limits.maxResultBits.toNat ∧
      n = base.pow (min exponent.toNat (2 ^ 64 - 1)) := by
  rw [power_of_checked hb he, ← toNat_exponentWord, ← toNat_powerBits]
  split
  next hexp =>
    rw [UInt64.lt_iff_toNat_lt] at hexp
    exact iff_of_false nofun fun h => Nat.not_le.mpr hexp h.1
  next hexp =>
    rw [UInt64.lt_iff_toNat_lt, Nat.not_lt] at hexp
    split
    next hbits =>
      rw [UInt64.lt_iff_toNat_lt] at hbits
      exact iff_of_false nofun fun h => Nat.not_le.mpr hbits h.2.1
    next hbits =>
      rw [UInt64.lt_iff_toNat_lt, Nat.not_lt] at hbits
      rw [Except.ok.injEq]
      exact ⟨fun h => ⟨hexp, hbits, h.symm⟩, fun h => h.2.2.symm⟩

/-- Unless both limits are the greatest word, an exponent that does not fit a word is kept out. -/
theorem unbounded_of_power_eq_ok (hb : 2 ≤ base.toNat) (he : 2 ^ 64 ≤ exponent.toNat)
    (h : power limits base exponent = .ok n) : limits.Unbounded := by
  obtain ⟨hexp, hbits, -⟩ := (power_eq_ok_iff hb (by omega)).mp h
  have hmul := Nat.mul_le_mul_left (2 ^ 64 - 1) (two_le_bitLength hb)
  have hcut : min exponent.toNat (2 ^ 64 - 1) = 2 ^ 64 - 1 := Nat.min_eq_right (by omega)
  rw [hcut] at hexp hbits
  rw [Nat.min_eq_right (by omega)] at hbits
  exact ⟨Nat.le_antisymm (Nat.le_pred_of_lt limits.maxExponent.toNat_lt) hexp,
    Nat.le_antisymm (Nat.le_pred_of_lt limits.maxResultBits.toNat_lt) hbits⟩

/-- With both limits at the greatest word the power is that of the greatest word. -/
theorem power_of_unbounded (hl : limits.Unbounded) (hb : 2 ≤ base.toNat)
    (he : 2 ^ 64 ≤ exponent.toNat) :
    power limits base exponent = .ok (base.pow (2 ^ 64 - 1)) := by
  have hcut : min exponent.toNat (2 ^ 64 - 1) = 2 ^ 64 - 1 := Nat.min_eq_right (by omega)
  rw [power_eq_ok_iff hb (by omega), hcut, hl.1, hl.2]
  exact ⟨Nat.le_refl _, Nat.min_le_right .., rfl⟩

/-- An exponent that does not fit a word is kept out, unless both limits are the greatest word. -/
theorem power_eq_ok (hfit : limits.Unbounded → 2 ≤ base.toNat → exponent.toNat < 2 ^ 64)
    (h : power limits base exponent = .ok n) : n.toNat = base.toNat ^ exponent.toNat := by
  by_cases hc : exponent.toNat = 0 ∨ base.toNat ≤ 1
  · have hconst : ∃ m, power limits base exponent = .ok m ∧ _ := power_of_constant hc
    obtain ⟨m, hm, hpow⟩ := hconst
    rw [h] at hm
    cases hm
    exact hpow
  · have hb : 2 ≤ base.toNat := by omega
    have hlt : exponent.toNat < 2 ^ 64 :=
      Nat.lt_of_not_le fun hge => Nat.not_lt.mpr hge (hfit (unbounded_of_power_eq_ok hb hge h) hb)
    obtain ⟨-, -, rfl⟩ := (power_eq_ok_iff hb (by omega)).mp h
    rw [toNat_pow, Nat.min_eq_left (by omega)]

theorem power_eq_error {cause : PowerError} (h : power limits base exponent = .error cause) :
    2 ≤ base.toNat ∧ 1 ≤ exponent.toNat := by
  refine Decidable.byContradiction fun hc => ?_
  have hconst : ∃ n, power limits base exponent = .ok n ∧ _ := power_of_constant (by omega)
  obtain ⟨n, hn, -⟩ := hconst
  rw [h] at hn
  cases hn

end Number

end TapeCalc
