import TapeCalc.Calculator
import TapeCalc.Proofs.ExactArithmetic
import TapeCalc.Proofs.ExpressionText

/-!
# Exact calculation

From text to text: what exact mode answers for every text, and when it answers nothing.
-/
namespace TapeCalc

theorem toString_ne_inf (n : Nat) : toString n ≠ "inf" := by
  intro h
  have hlist : Nat.toDigits 10 n = ['i', 'n', 'f'] := by
    rw [← String.toList_ofList (l := Nat.toDigits 10 n)]
    exact congrArg String.toList h
  have hmem : 'i' ∈ Nat.toDigits 10 n := by
    rw [hlist]
    exact List.mem_cons_self
  have := Nat.isDigit_of_mem_toDigits (by omega) (by omega) hmem
  revert this
  decide

theorem Value.text_eq_inf_iff (v : Value) : v.text = "inf" ↔ v.toNat? = none := by
  rw [Value.text_eq]
  cases v with
  | finite n => exact iff_of_false (toString_ne_inf n.toNat) nofun
  | infinity => exact iff_of_true rfl rfl

namespace Calculator

theorem calculateBig_of_spells {calculator : Calculator} {s : String} {e : Expression}
    (h : Expression.Spells (Text.compact s.toList) e) :
    calculator.calculateBig s = calculator.evaluateBig e.op e.lhs e.rhs := by
  rw [calculateBig, Expression.parse_eq_ok_iff.mpr h]

theorem calculateBig_of_not_spells {calculator : Calculator} {s : String}
    (h : ∀ e, ¬ Expression.Spells (Text.compact s.toList) e) :
    calculator.calculateBig s =
      .error (.unreadable (String.ofList (Text.compact s.toList))) := by
  rw [calculateBig, Expression.parse_eq_error_iff.mpr ⟨rfl, h⟩]

theorem evaluateBig_cases (calculator : Calculator)
    (hbits : calculator.limits.maxResultBits.toNat < 2 ^ 64 - 1) (op : Operator) (a b : Number) :
    (∃ v, calculator.evaluateBig op a b = .ok v ∧ v.toNat? = op.exact a.toNat b.toNat) ∨
      op = .pow ∧ 2 ≤ a.toNat ∧ 1 ≤ b.toNat ∧
        ∃ cause, calculator.evaluateBig op a b = .error (.power cause) := by
  unfold evaluateBig
  cases h : op.apply calculator.limits a b with
  | ok v => exact .inl ⟨v, rfl, Operator.toNat?_of_apply (fun _ => .inl hbits) h⟩
  | error cause =>
    obtain ⟨hop, ha, hb⟩ := Operator.apply_eq_error h
    exact .inr ⟨hop, ha, hb, cause, rfl⟩

/-- Two numerals with an operator between them, blanks apart, give the decimal numeral of the
result, or of a power nothing but a refusal; every other text is unreadable. -/
theorem calculateBig_exact (calculator : Calculator)
    (hbits : calculator.limits.maxResultBits.toNat < 2 ^ 64 - 1) (s : String) :
    (∀ before op after, Text.compact s.toList = before ++ Operator.symbol op :: after →
      IsNumeral before → IsNumeral after →
      (∃ v, calculator.calculateBig s = .ok v ∧
        v.text = (op.exact (numeralValue before) (numeralValue after)).elim "inf" toString ∧
        (v.text = "inf" ↔ op = .div ∧ numeralValue after = 0)) ∨
      op = .pow ∧ 2 ≤ numeralValue before ∧ 1 ≤ numeralValue after ∧
        ∃ cause, calculator.calculateBig s = .error (.power cause)) ∧
    ((∀ before op after, Text.compact s.toList = before ++ Operator.symbol op :: after →
      ¬ (IsNumeral before ∧ IsNumeral after)) →
      calculator.calculateBig s =
        .error (.unreadable (String.ofList (Text.compact s.toList)))) := by
  constructor
  · intro before op after ht hbefore hafter
    obtain ⟨a, ha⟩ := Number.exists_toNat_eq hbefore
    obtain ⟨b, hb⟩ := Number.exists_toNat_eq hafter
    have hspells : Expression.Spells (Text.compact s.toList) ⟨op, a, b⟩ :=
      ⟨before, after, ht, ⟨hbefore, ha⟩, hafter, hb⟩
    rw [calculateBig_of_spells hspells, ← ha, ← hb]
    rcases calculator.evaluateBig_cases hbits op a b with ⟨v, hv, hn⟩ | herror
    · refine .inl ⟨v, hv, hn ▸ v.text_eq, ?_⟩
      rw [v.text_eq_inf_iff, hn, Operator.exact_eq_none_iff]
    · exact .inr herror
  · intro h
    refine calculateBig_of_not_spells ?_
    rintro e ⟨before, after, ht, hl, hr⟩
    exact h before e.op after ht ⟨hl.1, hr.1⟩

/-- Blanks are ignored inside numerals too, and differences stop at zero. -/
theorem calculateBig_exact_sub :
    (withLibrary {} .builtin).limits.maxResultBits.toNat < 2 ^ 64 - 1 ∧
    ∃ v, (withLibrary {} .builtin).calculateBig "7 - 1 2" = .ok v ∧ v.text = "0" := by
  have hbits : (withLibrary {} .builtin).limits.maxResultBits.toNat < 2 ^ 64 - 1 := by decide
  refine ⟨hbits, ?_⟩
  have h := (calculateBig_exact (withLibrary {} .builtin) hbits "7 - 1 2").1 ['7'] .sub ['1', '2']
    (by decide) (by decide) (by decide)
  rcases h with ⟨v, hv, ht, _⟩ | ⟨hop, _⟩
  · exact ⟨v, hv, ht⟩
  · cases hop

end Calculator

end TapeCalc
