import TapeCalc.Proofs.Schoolbook

/-!
# Powers by repeated multiplication

The loop of a power starts at the base, and two kinds of powers never reach it. All of them are the
loop that starts at one, so powers with one base multiply by adding their exponents.
-/
namespace TapeCalc.Number

protected theorem mul_assoc (a b c : Number) : a * b * c = a * (b * c) := by
  simp only [← toNat_inj, toNat_mul, Nat.mul_assoc]

protected theorem mul_one (a : Number) : a * one = a := by
  simp [← toNat_inj]

theorem mulRepeat_add (base : Number) (m n : Nat) (start : Number) :
    mulRepeat base (m + n) start = mulRepeat base n (mulRepeat base m start) := by
  induction m generalizing start with
  | zero => rw [Nat.zero_add, mulRepeat]
  | succ m ih => rw [Nat.succ_add, mulRepeat, ih, mulRepeat]

/-- A factor of the start is a factor of all that follows. -/
theorem mulRepeat_mul (base : Number) (n : Nat) (a start : Number) :
    mulRepeat base n (a * start) = a * mulRepeat base n start := by
  induction n generalizing start with
  | zero => rfl
  | succ n ih => rw [mulRepeat, Number.mul_assoc, ih, mulRepeat]

/-- What the loop that starts at the base would give is what the shortcuts give. -/
theorem pow_succ_eq_mulRepeat (base : Number) (n : Nat) :
    base.pow (n + 1) = mulRepeat base n base := by
  rw [← toNat_inj, toNat_pow, toNat_mulRepeat, Nat.pow_succ, Nat.mul_comm]

theorem pow_eq_mulRepeat_one (base : Number) (exponent : Nat) :
    base.pow exponent = mulRepeat base exponent one := by
  cases exponent with
  | zero => rfl
  | succ n =>
    rw [pow_succ_eq_mulRepeat, mulRepeat, ← toNat_inj, toNat_mulRepeat, toNat_mulRepeat, toNat_mul,
      toNat_one, Nat.one_mul]

protected theorem pow_add (base : Number) (m n : Nat) : base.pow (m + n) = base.pow m * base.pow n := by
  calc base.pow (m + n)
      = mulRepeat base n (mulRepeat base m one) := by rw [pow_eq_mulRepeat_one, mulRepeat_add]
    _ = mulRepeat base n (base.pow m * one) := by rw [Number.mul_one, pow_eq_mulRepeat_one]
    _ = base.pow m * mulRepeat base n one := mulRepeat_mul base n (base.pow m) one
    _ = base.pow m * base.pow n := by rw [← pow_eq_mulRepeat_one]

/-- Powers with word exponents are exact, with 1 for the exponent 0 of every base, and the
shortcuts give what the loop would. Where the sum of two exponents is a word, its power is the
product of theirs. -/
theorem repeatedProduct_exact (base : Number) :
    (∀ exponent : UInt64,
      (base.pow exponent.toNat).toNat = base.toNat ^ exponent.toNat ∧
      Raw.pow base.cells exponent.toNat = (base.pow exponent.toNat).cells) ∧
    base.pow 0 = one ∧ (∀ n, base.pow (n + 1) = mulRepeat base n base) ∧
    ∀ m n : UInt64, m.toNat + n.toNat < 2 ^ 64 →
      base.pow (m + n).toNat = base.pow m.toNat * base.pow n.toNat ∧
      Raw.pow base.cells (m + n).toNat =
        Raw.mul (Raw.pow base.cells m.toNat) (Raw.pow base.cells n.toNat) := by
  refine ⟨fun exponent => ⟨toNat_pow base exponent.toNat, Raw.pow_cells base exponent.toNat⟩, rfl,
    pow_succ_eq_mulRepeat base, fun m n h => ?_⟩
  have hsum : (m + n).toNat = m.toNat + n.toNat := by
    rw [UInt64.toNat_add, Nat.mod_eq_of_lt h]
  have hpow : base.pow (m + n).toNat = base.pow m.toNat * base.pow n.toNat := by
    rw [hsum, Number.pow_add]
  refine ⟨hpow, ?_⟩
  rw [Raw.pow_cells, Raw.pow_cells, Raw.pow_cells, Raw.mul_cells, hpow]

/-- Zero to the power 0, and to the power 5 by a shortcut. -/
theorem repeatedProduct_exact_zero :
    (0 : UInt64).toNat + (5 : UInt64).toNat < 2 ^ 64 ∧
    zero.pow ((0 : UInt64) + 5).toNat = zero.pow (0 : UInt64).toNat * zero.pow (5 : UInt64).toNat ∧
    zero.pow (0 : UInt64).toNat = one := by
  have h : (0 : UInt64).toNat + (5 : UInt64).toNat < 2 ^ 64 := by decide
  obtain ⟨-, hzero, -, hadd⟩ := repeatedProduct_exact zero
  exact ⟨h, (hadd 0 5 h).1, hzero⟩

end TapeCalc.Number
