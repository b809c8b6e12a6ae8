import TapeCalc.Proofs.ExpressionText

/-!
# Reading expressions back

A text is read as an expression exactly if one operator stands in it, between two numerals, and in
whichever order the operators are tried. So the text of an expression is read as that expression,
with blanks put into it anywhere.
-/
namespace TapeCalc

namespace Text

/-- The second text is the first one with blanks put into it. -/
inductive Spaced : List Char → List Char → Prop
  | nil : Spaced [] []
  | keep (c : Char) {text spaced : List Char} (h : Spaced text spaced) :
    Spaced (c :: text) (c :: spaced)
  | blank {c : Char} (hc : isBlank c = true) {text spaced : List Char} (h : Spaced text spaced) :
    Spaced text (c :: spaced)

theorem Spaced.refl (text : List Char) : Spaced text text := by
  induction text with
  | nil => exact .nil
  | cons c cs ih => exact .keep c ih

theorem Spaced.compact_eq {text spaced : List Char} (h : Spaced text spaced) :
    compact spaced = compact text := by
  induction h with
  | nil => rfl
  | keep c _ ih =>
    unfold compact at ih ⊢
    rw [List.filter_cons, List.filter_cons, ih]
  | blank hc _ ih =>
    unfold compact at ih ⊢
    rw [List.filter_cons_of_neg (by simp [hc]), ih]

theorem isBlank_of_isDigit {c : Char} (h : c.isDigit = true) : isBlank c = false := by
  simp only [Char.isDigit, Bool.and_eq_true, decide_eq_true_eq] at h
  have h48 : 48 ≤ c.toNat := h.1
  have h57 : c.toNat ≤ 57 := h.2
  simp [isBlank]
  omega

theorem compact_of_all_isDigit {text : List Char} (h : text.all Char.isDigit = true) :
    compact text = text := by
  refine List.filter_eq_self.mpr fun c hc => ?_
  rw [isBlank_of_isDigit (List.all_eq_true.mp h c hc)]
  rfl

end Text

namespace Operator

def isSymbol (c : Char) : Bool := (ofSymbol? c).isSome

theorem isSymbol_symbol (op : Operator) : isSymbol op.symbol = true := by
  rw [isSymbol, ofSymbol?_symbol]
  rfl

theorem isBlank_symbol (op : Operator) : Text.isBlank op.symbol = false := by
  cases op <;> decide

theorem eq_symbol_of_ofSymbol? {c : Char} {op : Operator} (h : ofSymbol? c = some op) :
    c = op.symbol := by
  unfold ofSymbol? at h
  split at h <;> cases h <;> rfl

theorem isSymbol_of_isDigit {c : Char} (h : c.isDigit = true) : isSymbol c = false := by
  cases hc : ofSymbol? c with
  | none =>
    rw [isSymbol, hc]
    rfl
  | some op =>
    rw [eq_symbol_of_ofSymbol? hc, op.isDigit_symbol] at h
    cases h

theorem countP_isSymbol_of_all_isDigit {text : List Char} (h : text.all Char.isDigit = true) :
    text.countP isSymbol = 0 := by
  refine List.countP_eq_zero.mpr fun c hc => ?_
  rw [isSymbol_of_isDigit (List.all_eq_true.mp h c hc)]
  exact Bool.false_ne_true

theorem toList_text (op : Operator) : op.text.toList = [op.symbol] := by
  cases op <;> rfl

end Operator

namespace Expression

theorem Spells.countP_isSymbol {text : List Char} {e : Expression} (h : Spells text e) :
    text.countP Operator.isSymbol = 1 := by
  obtain ⟨before, after, rfl, ⟨hbefore, _⟩, hafter, _⟩ := h
  rw [List.countP_append, List.countP_cons_of_pos e.op.isSymbol_symbol,
    Operator.countP_isSymbol_of_all_isDigit hbefore.2,
    Operator.countP_isSymbol_of_all_isDigit hafter.2]

theorem toList_text (e : Expression) :
    e.text.toList = e.lhs.text.toList ++ e.op.symbol :: e.rhs.text.toList := by
  rw [text, String.toList_append, String.toList_append, Operator.toList_text, List.append_assoc]
  rfl

theorem spells_text (e : Expression) : Spells e.text.toList e := by
  refine ⟨e.lhs.text.toList, e.rhs.text.toList, e.toList_text, ?_, ?_⟩
  · exact Number.ofDigits_eq_ok_iff.mp (Number.parse_text e.lhs)
  · exact Number.ofDigits_eq_ok_iff.mp (Number.parse_text e.rhs)

theorem compact_text (e : Expression) : Text.compact e.text.toList = e.text.toList := by
  have hl := Text.compact_of_all_isDigit e.lhs.isNumeral_text.2
  have hr := Text.compact_of_all_isDigit e.rhs.isNumeral_text.2
  rw [toList_text]
  unfold Text.compact at hl hr ⊢
  rw [List.filter_append, List.filter_cons_of_pos (by simp [e.op.isBlank_symbol]), hl, hr]

theorem parse_of_spaced {e : Expression} {s : String}
    (h : Text.Spaced e.text.toList s.toList) : parse s = .ok e := by
  rw [parse_eq_ok_iff, h.compact_eq, compact_text]
  exact e.spells_text

/-- A text is read exactly if, blanks apart, one operator stands in it, between two numerals, and
as that operator on those numbers, in whichever order the operators are tried. Every other text is
unreadable. The text of an expression is read as that expression, also with blanks put into it. -/
theorem parse_unambiguous :
    (∀ s : String,
      ((∃ e, parse s = .ok e) ↔
        (Text.compact s.toList).countP Operator.isSymbol = 1 ∧
        ∃ before op after, Text.compact s.toList = before ++ Operator.symbol op :: after ∧
          IsNumeral before ∧ IsNumeral after) ∧
      (∀ e, parse s = .ok e ↔ Spells (Text.compact s.toList) e) ∧
      (∀ order : List Operator, (∀ op, op ∈ order) →
        order.findSome? (ofSplit? (Text.compact s.toList)) = parse? s) ∧
      ∀ failure, parse s = .error failure ↔
        failure = .unreadable (String.ofList (Text.compact s.toList)) ∧
          ∀ e, ¬ Spells (Text.compact s.toList) e) ∧
    ∀ e : Expression, parse e.text = .ok e ∧
      ∀ s : String, Text.Spaced e.text.toList s.toList → parse s = .ok e := by
  refine ⟨fun s => ⟨?_, fun e => parse_eq_ok_iff, fun order horder => ?_, fun failure =>
    parse_eq_error_iff⟩, fun e => ⟨parse_of_spaced (.refl _), fun s => parse_of_spaced⟩⟩
  · simp only [parse_eq_ok_iff]
    constructor
    · rintro ⟨e, he⟩
      exact ⟨he.countP_isSymbol, exists_spells_iff.mp ⟨e, he⟩⟩
    · rintro ⟨_, h⟩
      exact exists_spells_iff.mpr h
  · refine Option.ext fun e => ?_
    rw [findSome?_ofSplit?_eq_some_iff horder, parse?, ofCompact?_eq_some_iff]

/-- The operators tried in the order of their symbols' places, and a blank inside a numeral. -/
theorem parse_unambiguous_spaced :
    (∀ op, op ∈ Operator.all) ∧
    Operator.all.findSome? (ofSplit? (Text.compact "2^3*4".toList)) = parse? "2^3*4" ∧
    Text.Spaced (Expression.text ⟨.sub, .ofByte 12, .ofByte 7⟩).toList " 1 2-7".toList ∧
    parse " 1 2-7" = .ok ⟨.sub, .ofByte 12, .ofByte 7⟩ := by
  have hall : ∀ op, op ∈ Operator.all := Operator.mem_all
  have hspaced : Text.Spaced (Expression.text ⟨.sub, .ofByte 12, .ofByte 7⟩).toList
      " 1 2-7".toList :=
    .blank rfl (.keep '1' (.blank rfl (.keep '2' (.keep '-' (.keep '7' .nil)))))
  exact ⟨hall, (parse_unambiguous.1 "2^3*4").2.2.1 Operator.all hall, hspaced,
    (parse_unambiguous.2 ⟨.sub, .ofByte 12, .ofByte 7⟩).2 " 1 2-7" hspaced⟩

end Expression

end TapeCalc
