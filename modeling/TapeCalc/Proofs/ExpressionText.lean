import TapeCalc.Failure
import TapeCalc.Proofs.DecimalText

/-!
# Texts of expressions

A text without blanks is read as an expression exactly if it is two numerals with an operator
between them. No operator is a digit, so a text spells at most one expression, and the order in
which the operators are tried does not matter.
-/
namespace TapeCalc

theorem Operator.mem_searchOrder (op : Operator) : op ∈ Operator.searchOrder := by
  cases op <;> decide

theorem Operator.isDigit_symbol (op : Operator) : op.symbol.isDigit = false := by
  cases op <;> decide

theorem Operator.symbol_inj {op other : Operator} (h : op.symbol = other.symbol) : op = other := by
  have := congrArg Operator.ofSymbol? h
  rw [ofSymbol?_symbol, ofSymbol?_symbol] at this
  exact Option.some.inj this

theorem Operator.symbol_not_mem {digits : List Char} (h : digits.all Char.isDigit = true)
    (op : Operator) : op.symbol ∉ digits := by
  intro hmem
  have := List.all_eq_true.mp h _ hmem
  rw [op.isDigit_symbol] at this
  cases this

/-- Where digits end can be seen from what follows. -/
theorem append_cons_inj_of_digits {xs ys as bs : List Char} {a b : Char}
    (hx : xs.all Char.isDigit = true) (hy : ys.all Char.isDigit = true)
    (ha : a.isDigit = false) (hb : b.isDigit = false) (h : xs ++ a :: as = ys ++ b :: bs) :
    xs = ys ∧ a = b ∧ as = bs := by
  induction xs generalizing ys with
  | nil =>
    cases ys with
    | nil => exact ⟨rfl, List.cons.inj h⟩
    | cons y ys =>
      obtain ⟨rfl, _⟩ := List.cons.inj h
      simp [ha] at hy
  | cons x xs ih =>
    cases ys with
    | nil =>
      obtain ⟨rfl, _⟩ := List.cons.inj h
      simp [hb] at hx
    | cons y ys =>
      obtain ⟨rfl, ht⟩ := List.cons.inj h
      simp only [List.all_cons, Bool.and_eq_true] at hx hy
      obtain ⟨rfl, hrest⟩ := ih hx.2 hy.2 ht
      exact ⟨rfl, hrest⟩

namespace Expression

theorem splitAt?_eq_some_iff {symbol : Char} {text before after : List Char} :
    splitAt? symbol text = some (before, after) ↔
      text = before ++ symbol :: after ∧ symbol ∉ before := by
  induction text generalizing before with
  | nil => simp [splitAt?]
  | cons c cs ih =>
    rw [splitAt?]
    by_cases hc : c = symbol
    · subst hc
      rw [if_pos rfl]
      cases before with
      | nil => simp [eq_comm]
      | cons d ds =>
        simp only [List.cons_append, List.cons.injEq, List.mem_cons, not_or, Option.some.injEq,
          Prod.mk.injEq, reduceCtorEq, false_and, false_iff]
        rintro ⟨⟨hd, _⟩, hne, _⟩
        exact hne hd
    · rw [if_neg hc]
      cases before with
      | nil => simp [hc]
      | cons d ds =>
        simp only [Option.map_eq_some_iff, Prod.exists, Prod.mk.injEq, List.cons_append,
          List.cons.injEq, List.mem_cons, not_or]
        constructor
        · rintro ⟨ds, rest, hs, ⟨rfl, rfl⟩, rfl⟩
          obtain ⟨hcs, hne⟩ := ih.mp hs
          exact ⟨⟨rfl, hcs⟩, Ne.symm hc, hne⟩
        · rintro ⟨⟨rfl, hcs⟩, _, hne⟩
          exact ⟨ds, after, ih.mpr ⟨hcs, hne⟩, ⟨rfl, rfl⟩, rfl⟩

/-- The text is two numerals, of the operands, with the operator between them. -/
def Spells (text : List Char) (e : Expression) : Prop :=
  ∃ before after, text = before ++ e.op.symbol :: after ∧
    (IsNumeral before ∧ e.lhs.toNat = numeralValue before) ∧
    IsNumeral after ∧ e.rhs.toNat = numeralValue after

theorem Spells.unique {text : List Char} {e f : Expression} (he : Spells text e)
    (hf : Spells text f) : e = f := by
  obtain ⟨before, after, ht, ⟨hb, hl⟩, _, hr⟩ := he
  obtain ⟨before', after', ht', ⟨hb', hl'⟩, _, hr'⟩ := hf
  obtain ⟨hbefore, hsymbol, hafter⟩ := append_cons_inj_of_digits hb.2 hb'.2 e.op.isDigit_symbol
    f.op.isDigit_symbol (ht.symm.trans ht')
  have hop := Operator.symbol_inj hsymbol
  have hlhs := Number.toNat_inj.mp (hl.trans (hbefore ▸ hl'.symm))
  have hrhs := Number.toNat_inj.mp (hr.trans (hafter ▸ hr'.symm))
  cases e
  cases f
  rw [Expression.mk.injEq]
  exact ⟨hop, hlhs, hrhs⟩

theorem ofSplit?_eq_some_iff {text : List Char} {op : Operator} {e : Expression} :
    ofSplit? text op = some e ↔ op = e.op ∧ Spells text e := by
  constructor
  · intro h
    unfold ofSplit? at h
    split at h
    next => cases h
    next before after hs =>
      split at h
      next lhs rhs hl hr =>
        cases h
        exact ⟨rfl, before, after, (splitAt?_eq_some_iff.mp hs).1, Number.ofDigits_eq_ok_iff.mp hl,
          Number.ofDigits_eq_ok_iff.mp hr⟩
      next => cases h
  · rintro ⟨rfl, before, after, ht, hl, hr⟩
    have hs := splitAt?_eq_some_iff.mpr ⟨ht, e.op.symbol_not_mem hl.1.2⟩
    simp only [ofSplit?, hs, Number.ofDigits_eq_ok_iff.mpr hl, Number.ofDigits_eq_ok_iff.mpr hr]

/-- Whatever the order in which the operators are tried, a text that spells an expression is read
as that expression, for the other operators do not read it. -/
theorem findSome?_ofSplit?_eq_some_iff {order : List Operator} (horder : ∀ op, op ∈ order)
    {text : List Char} {e : Expression} :
    order.findSome? (ofSplit? text) = some e ↔ Spells text e := by
  constructor
  · intro h
    obtain ⟨op, _, hop⟩ := List.exists_of_findSome?_eq_some h
    exact (ofSplit?_eq_some_iff.mp hop).2
  · intro h
    have hsome : (order.findSome? (ofSplit? text)).isSome = true := by
      rw [List.findSome?_isSome_iff]
      refine ⟨e.op, horder e.op, ?_⟩
      rw [ofSplit?_eq_some_iff.mpr ⟨rfl, h⟩]
      rfl
    obtain ⟨f, hf⟩ := Option.isSome_iff_exists.mp hsome
    obtain ⟨op, _, hop⟩ := List.exists_of_findSome?_eq_some hf
    rw [hf, (ofSplit?_eq_some_iff.mp hop).2.unique h]

theorem ofCompact?_eq_some_iff {text : List Char} {e : Expression} :
    ofCompact? text = some e ↔ Spells text e :=
  findSome?_ofSplit?_eq_some_iff Operator.mem_searchOrder

theorem exists_spells_iff {text : List Char} :
    (∃ e, Spells text e) ↔
      ∃ before op after, text = before ++ Operator.symbol op :: after ∧ IsNumeral before ∧
        IsNumeral after := by
  constructor
  · rintro ⟨e, before, after, ht, ⟨hbefore, _⟩, hafter, _⟩
    exact ⟨before, e.op, after, ht, hbefore, hafter⟩
  · rintro ⟨before, op, after, ht, hbefore, hafter⟩
    obtain ⟨a, ha⟩ := Number.exists_toNat_eq hbefore
    obtain ⟨b, hb⟩ := Number.exists_toNat_eq hafter
    exact ⟨⟨op, a, b⟩, before, after, ht, ⟨hbefore, ha⟩, hafter, hb⟩

theorem parse_eq_ok_iff {s : String} {e : Expression} :
    parse s = .ok e ↔ Spells (Text.compact s.toList) e := by
  rw [← ofCompact?_eq_some_iff, parse, parse?]
  cases ofCompact? (Text.compact s.toList) with
  | none => simp
  | some f => simp

theorem parse_eq_error_iff {s : String} {failure : Failure} :
    parse s = .error failure ↔
      failure = .unreadable (String.ofList (Text.compact s.toList)) ∧
        ∀ e, ¬ Spells (Text.compact s.toList) e := by
  simp only [← ofCompact?_eq_some_iff]
  rw [parse, parse?]
  cases ofCompact? (Text.compact s.toList) with
  | none => simp [eq_comm]
  | some f => simp

end Expression

end TapeCalc
