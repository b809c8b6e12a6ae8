import TapeCalc.Proofs.PowerGuard

/-!
# Exact results

The operators on numbers are those on natural numbers. A power is the one of the operators that
can be refused, and the one that can be inexact: with both limits at the greatest word its guard
lets an exponent through that has been cut to a word.
-/
namespace TapeCalc

/-- The number that a value stands for. -/
def Value.toNat? : Value → Option Nat
  | finite n => some n.toNat
  | infinity => none

theorem Value.text_eq (v : Value) : v.text = v.toNat?.elim "inf" toString := by
  cases v with
  | finite n => exact n.text_eq_toString
  | infinity => rfl

theorem Number.toNat?_div (a b : Number) :
    (a.div b).toNat? = if b.toNat = 0 then none else some (a.toNat / b.toNat) := by
  unfold div
  cases h : divMod? a b with
  | none =>
    rw [if_pos ((divMod?_eq_none_iff a b).mp h)]
    rfl
  | some result =>
    obtain ⟨q, r⟩ := result
    obtain ⟨hlt, hsum⟩ := divMod?_value h
    have hq : a.toNat / b.toNat = q.toNat := by
      rw [Nat.add_comm, Nat.mul_comm] at hsum
      exact ((Nat.div_mod_unique (by omega)).mpr ⟨hsum, hlt⟩).1
    rw [if_neg (by omega), hq]
    rfl

/-- The operator on natural numbers: differences stop at zero, and nothing is a quotient by
zero. -/
def Operator.exact : Operator → Nat → Nat → Option Nat
  | add, a, b => some (a + b)
  | sub, a, b => some (a - b)
  | mul, a, b => some (a * b)
  | div, a, b => if b = 0 then none else some (a / b)
  | pow, a, b => some (a ^ b)

theorem Operator.exact_eq_none_iff (op : Operator) (a b : Nat) :
    op.exact a b = none ↔ op = .div ∧ b = 0 := by
  cases op <;> simp [exact]

theorem Operator.toNat?_of_apply {op : Operator} {limits : Limits} {a b : Number} {v : Value}
    (hfit : op = .pow → limits.maxResultBits.toNat < 2 ^ 64 - 1 ∨ b.toNat < 2 ^ 64)
    (h : op.apply limits a b = .ok v) :
    v.toNat? = op.exact a.toNat b.toNat := by
  cases op with
  | add =>
    cases h
    exact congrArg some (Number.toNat_add a b)
  | sub =>
    cases h
    exact congrArg some (Number.toNat_sub a b)
  | mul =>
    cases h
    exact congrArg some (Number.toNat_mul a b)
  | div =>
    cases h
    exact Number.toNat?_div a b
  | pow =>
    rw [apply] at h
    cases hp : Number.power limits a b with
    | error cause =>
      rw [hp] at h
      cases h
    | ok n =>
      rw [hp] at h
      cases h
      refine congrArg some (Number.power_eq_ok (fun hl _ => ?_) hp)
      have := hl.2
      have := hfit rfl
      omega

/-- With both limits at the greatest word, an exponent that does not fit is cut to that word. -/
theorem Operator.apply_pow_of_unbounded {limits : Limits} {a b : Number} (hl : limits.Unbounded)
    (ha : 2 ≤ a.toNat) (hb : 2 ^ 64 ≤ b.toNat) :
    ∃ v, Operator.apply .pow limits a b = .ok v ∧ v.toNat? = some (a.toNat ^ (2 ^ 64 - 1)) ∧
      v.toNat? ≠ some (a.toNat ^ b.toNat) := by
  have hv : Value.toNat? (.finite (a.pow (2 ^ 64 - 1))) = some (a.toNat ^ (2 ^ 64 - 1)) :=
    congrArg some (a.toNat_pow (2 ^ 64 - 1))
  refine ⟨.finite (a.pow (2 ^ 64 - 1)), ?_, hv, fun h => ?_⟩
  · rw [apply, Number.power_of_unbounded hl ha hb]
    rfl
  · have hpow := Option.some.inj (hv.symm.trans h)
    have := (Nat.pow_right_inj (show 1 < a.toNat by omega)).mp hpow
    omega

/-- The power that is let through is the one asked for, unless both limits are the greatest word
and the exponent does not fit a word. -/
theorem Operator.apply_pow_exact_iff (limits : Limits) (a b : Number) :
    (∀ v, Operator.apply .pow limits a b = .ok v → v.toNat? = some (a.toNat ^ b.toNat)) ↔
      ¬ (limits.Unbounded ∧ 2 ≤ a.toNat ∧ 2 ^ 64 ≤ b.toNat) := by
  constructor
  · rintro h ⟨hl, ha, hb⟩
    obtain ⟨v, hv, -, hne⟩ := Operator.apply_pow_of_unbounded hl ha hb
    exact hne (h v hv)
  · intro h v hv
    rw [apply] at hv
    cases hp : Number.power limits a b with
    | error cause =>
      rw [hp] at hv
      cases hv
    | ok n =>
      rw [hp] at hv
      cases hv
      refine congrArg some (Number.power_eq_ok (fun hl ha => ?_) hp)
      exact Nat.lt_of_not_le fun hb => h ⟨hl, ha, hb⟩

/-- Two to the power 2 ^ 64, which comes out as two to the power 2 ^ 64 - 1. -/
theorem Operator.apply_pow_two_inexact :
    ∃ v, Operator.apply .pow ⟨.ofNat (2 ^ 64 - 1), .ofNat (2 ^ 64 - 1)⟩ (.ofCells [2])
        (.ofCells [0, 0, 0, 0, 0, 0, 0, 0, 1]) = .ok v ∧
      v.toNat? = some (2 ^ (2 ^ 64 - 1)) ∧ v.toNat? ≠ some (2 ^ 2 ^ 64) := by
  have ha : (Number.ofCells [2]).toNat = 2 := by decide
  have hb : (Number.ofCells [0, 0, 0, 0, 0, 0, 0, 0, 1]).toNat = 2 ^ 64 := by decide
  have hl : Limits.Unbounded ⟨.ofNat (2 ^ 64 - 1), .ofNat (2 ^ 64 - 1)⟩ := ⟨by decide, by decide⟩
  have h := Operator.apply_pow_of_unbounded hl (Nat.le_of_eq ha.symm) (Nat.le_of_eq hb.symm)
  rwa [ha, hb] at h

theorem Operator.apply_eq_infinity_iff {op : Operator} {limits : Limits} {a b : Number} :
    op.apply limits a b = .ok .infinity ↔ op = .div ∧ b.toNat = 0 := by
  constructor
  · intro h
    cases op with
    | add => cases h
    | sub => cases h
    | mul => cases h
    | div => exact ⟨rfl, (Number.div_eq_infinity_iff a b).mp (Except.ok.inj h)⟩
    | pow =>
      rw [apply] at h
      cases hp : Number.power limits a b <;> rw [hp] at h <;> cases h
  · rintro ⟨rfl, hb⟩
    exact congrArg Except.ok ((Number.div_eq_infinity_iff a b).mpr hb)

theorem Operator.apply_eq_error {op : Operator} {limits : Limits} {a b : Number}
    {cause : PowerError} (h : op.apply limits a b = .error cause) :
    op = .pow ∧ 2 ≤ a.toNat ∧ 1 ≤ b.toNat := by
  cases op with
  | pow =>
    rw [apply] at h
    cases hp : Number.power limits a b with
    | error cause => exact ⟨rfl, Number.power_eq_error hp⟩
    | ok n =>
      rw [hp] at h
      cases h
  | _ => cases h

end TapeCalc
