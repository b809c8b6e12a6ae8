import TapeCalc.Value

/-!
# Decimal texts

Reading a text of digits and writing a number are inverse up to zeros in front: a number is written
without them, and reading ignores them, those of a field that is filled up with zeros too. A text
that is no numeral is refused at its first character that is no digit.
-/
namespace TapeCalc

/-- One or more decimal digits. -/
def IsNumeral (text : List Char) : Prop := text ≠ [] ∧ text.all Char.isDigit = true

instance (text : List Char) : Decidable (IsNumeral text) := inferInstanceAs (Decidable (_ ∧ _))

/-- The number that digits denote. -/
def numeralValue (text : List Char) : Nat := Nat.ofDigitChars 10 text 0

/-- The digits without the zeros in front of them; of zeros alone one is left. -/
def significant (text : List Char) : List Char :=
  match text.dropWhile (· == '0') with
  | [] => ['0']
  | c :: cs => c :: cs

theorem digitChar_toNat_sub {c : Char} (h : c.isDigit = true) :
    c.toNat - '0'.toNat < 10 ∧ Nat.digitChar (c.toNat - '0'.toNat) = c := by
  simp only [Char.isDigit, Bool.and_eq_true, decide_eq_true_eq] at h
  have h48 : 48 ≤ c.toNat := h.1
  have h57 : c.toNat ≤ 57 := h.2
  have h0 : '0'.toNat = 48 := rfl
  have hlt : c.toNat - '0'.toNat < 10 := by omega
  refine ⟨hlt, Char.toNat_inj.mp ?_⟩
  rw [Nat.toNat_digitChar_of_lt_ten hlt]
  omega

/-- Digits read on top of a number that is not zero are appended to its numeral. -/
theorem toDigits_ofDigitChars {text : List Char} (h : text.all Char.isDigit = true) {n : Nat}
    (hn : 0 < n) :
    Nat.toDigits 10 (Nat.ofDigitChars 10 text n) = Nat.toDigits 10 n ++ text := by
  -- `n` stands for the digits already read, so that the last of them is moved over at each step
  induction text generalizing n with
  | nil => rw [Nat.ofDigitChars_nil, List.append_nil]
  | cons c cs ih =>
    rw [List.all_cons, Bool.and_eq_true] at h
    obtain ⟨hlt, hc⟩ := digitChar_toNat_sub h.1
    have hstep := Nat.toDigits_append_toDigits (b := 10) (by omega) hn hlt
    rw [Nat.toDigits_of_lt_base hlt, hc] at hstep
    rw [Nat.ofDigitChars_cons, ih h.2 (by omega), ← hstep, List.append_assoc]
    rfl

theorem numeralValue_zero_cons (cs : List Char) : numeralValue ('0' :: cs) = numeralValue cs := by
  rw [numeralValue, Nat.ofDigitChars_cons]
  rfl

theorem toDigits_numeralValue_cons {c : Char} {cs : List Char}
    (h : (c :: cs).all Char.isDigit = true) (hc : c ≠ '0') :
    Nat.toDigits 10 (numeralValue (c :: cs)) = c :: cs := by
  rw [List.all_cons, Bool.and_eq_true] at h
  obtain ⟨hlt, hchar⟩ := digitChar_toNat_sub h.1
  have hpos : 0 < c.toNat - '0'.toNat := by
    refine Nat.pos_of_ne_zero fun h0 => hc ?_
    rw [← hchar, h0]
    rfl
  rw [numeralValue, Nat.ofDigitChars_cons, Nat.mul_zero, Nat.zero_add,
    toDigits_ofDigitChars h.2 hpos, Nat.toDigits_of_lt_base hlt, hchar]
  rfl

/-- The numeral of the value of digits is the digits without the zeros in front. -/
theorem toDigits_numeralValue {text : List Char} (h : text.all Char.isDigit = true) :
    Nat.toDigits 10 (numeralValue text) = significant text := by
  induction text with
  | nil => rfl
  | cons c cs ih =>
    by_cases hc : c = '0'
    · subst hc
      rw [List.all_cons, Bool.and_eq_true] at h
      rw [numeralValue_zero_cons, ih h.2, significant, significant,
        List.dropWhile_cons_of_pos rfl]
    · rw [toDigits_numeralValue_cons h hc, significant,
        List.dropWhile_cons_of_neg (by simpa using hc)]

theorem numeralValue_leftpad (text : List Char) (width : Nat) :
    numeralValue (text.leftpad width '0') = numeralValue text := by
  rw [numeralValue, List.leftpad, Nat.ofDigitChars_append, Nat.ofDigitChars_replicate_zero,
    Nat.mul_zero, numeralValue]

theorem IsNumeral.leftpad {text : List Char} (h : IsNumeral text) (width : Nat) :
    IsNumeral (text.leftpad width '0') := by
  refine ⟨List.append_ne_nil_of_right_ne_nil _ h.1, ?_⟩
  rw [List.leftpad, List.all_append, h.2, List.all_replicate]
  simp

theorem isNumeral_toDigits (n : Nat) : IsNumeral (Nat.toDigits 10 n) :=
  ⟨Nat.toDigits_ne_nil, List.all_eq_true.mpr fun _ hc =>
    Nat.isDigit_of_mem_toDigits (by omega) (by omega) hc⟩

theorem numeralValue_toDigits (n : Nat) : numeralValue (Nat.toDigits 10 n) = n :=
  Nat.ofDigitChars_ten_toDigits

/-- Only the numeral of zero begins with a zero. -/
theorem toDigits_of_head?_eq_zero {n : Nat} (h : (Nat.toDigits 10 n).head? = some '0') :
    Nat.toDigits 10 n = ['0'] := by
  have hsig := toDigits_numeralValue (isNumeral_toDigits n).2
  rw [numeralValue_toDigits] at hsig
  rw [hsig, significant] at h ⊢
  split
  next => rfl
  next c cs hdrop =>
    rw [hdrop, List.head?_cons, Option.some.injEq] at h
    have hhead := List.head?_dropWhile_not (· == '0') (Nat.toDigits 10 n)
    rw [hdrop, List.head?_cons] at hhead
    subst h
    simp at hhead

theorem exists_first_not_isDigit {text : List Char} (h : text.all Char.isDigit = false) :
    ∃ before c after, text = before ++ c :: after ∧ before.all Char.isDigit = true ∧
      c.isDigit = false := by
  induction text with
  | nil => cases h
  | cons c cs ih =>
    cases hc : c.isDigit with
    | false => exact ⟨[], c, cs, rfl, rfl, hc⟩
    | true =>
      rw [List.all_cons, hc, Bool.true_and] at h
      obtain ⟨before, d, after, rfl, hbefore, hd⟩ := ih h
      refine ⟨c :: before, d, after, rfl, ?_, hd⟩
      rw [List.all_cons, hc, hbefore, Bool.true_and]

namespace Number

theorem all_isDigit_of_readDigits {text : List Char} {index : Nat} {n m : Number}
    (h : readDigits text index n = .ok m) : text.all Char.isDigit = true := by
  induction text generalizing index n with
  | nil => rfl
  | cons c cs ih =>
    rw [readDigits] at h
    split at h
    next hc => rw [List.all_cons, hc, ih h, Bool.and_self]
    next => cases h

theorem exists_toNat_eq {text : List Char} (h : IsNumeral text) :
    ∃ n : Number, n.toNat = numeralValue text := by
  obtain ⟨n, _, hn⟩ := readDigits_of_all_isDigit h.2 0 zero
  exact ⟨n, hn⟩

theorem ofDigits_eq_ok_iff {text : List Char} {n : Number} :
    ofDigits text = .ok n ↔ IsNumeral text ∧ n.toNat = numeralValue text := by
  cases text with
  | nil => simp [ofDigits, IsNumeral]
  | cons c cs =>
    have hread : ofDigits (c :: cs) = readDigits (c :: cs) 0 zero := rfl
    rw [hread]
    constructor
    · intro h
      have hall := all_isDigit_of_readDigits h
      obtain ⟨m, hm, hv⟩ := readDigits_of_all_isDigit hall 0 zero
      rw [h] at hm
      cases hm
      exact ⟨⟨List.cons_ne_nil c cs, hall⟩, hv⟩
    · rintro ⟨⟨_, hall⟩, hn⟩
      obtain ⟨m, hm, hv⟩ := readDigits_of_all_isDigit hall 0 zero
      rw [hm, toNat_inj.mp (hv.trans hn.symm)]

theorem exists_ofDigits_iff {text : List Char} :
    (∃ n, ofDigits text = .ok n) ↔ IsNumeral text := by
  constructor
  · rintro ⟨n, hn⟩
    exact (ofDigits_eq_ok_iff.mp hn).1
  · intro h
    obtain ⟨n, hn⟩ := exists_toNat_eq h
    exact ⟨n, ofDigits_eq_ok_iff.mpr ⟨h, hn⟩⟩

theorem isNumeral_text (n : Number) : IsNumeral n.text.toList := by
  rw [toList_text]
  exact isNumeral_toDigits n.toNat

/-- Without flags nothing is put around the digits. -/
theorem layout_default (n : Number) : n.layout {} = n.text := by
  simp [layout, Text.Layout.numeral, Text.Alignment.before, text]

theorem ofDigits_append_of_not_isDigit {before : List Char}
    (h : before.all Char.isDigit = true) {c : Char} (hc : c.isDigit = false) (after : List Char) :
    ofDigits (before ++ c :: after) = .error (.invalidDigit c before.length) := by
  rw [ofDigits, if_neg (by simp), readDigits_append_of_not_isDigit h hc, Nat.zero_add]

/-- A text is a numeral, or it is empty, or it has a first character that is no digit. -/
theorem ofDigits_cases (text : List Char) :
    (IsNumeral text ∧ ∃ n, ofDigits text = .ok n) ∨
      (text = [] ∧ ofDigits text = .error .empty) ∨
      ∃ before c after, text = before ++ c :: after ∧ before.all Char.isDigit = true ∧
        c.isDigit = false ∧ ofDigits text = .error (.invalidDigit c before.length) := by
  cases h : text.all Char.isDigit with
  | false =>
    obtain ⟨before, c, after, rfl, hbefore, hc⟩ := exists_first_not_isDigit h
    exact .inr (.inr ⟨before, c, after, rfl, hbefore, hc,
      ofDigits_append_of_not_isDigit hbefore hc after⟩)
  | true =>
    cases text with
    | nil => exact .inr (.inl ⟨rfl, rfl⟩)
    | cons c cs =>
      have hnumeral : IsNumeral (c :: cs) := ⟨List.cons_ne_nil c cs, h⟩
      exact .inl ⟨hnumeral, exists_ofDigits_iff.mpr hnumeral⟩

theorem ofDigits_eq_empty_iff {text : List Char} :
    ofDigits text = .error .empty ↔ text = [] := by
  constructor
  · intro h
    rcases ofDigits_cases text with ⟨_, n, hn⟩ | ⟨ht, _⟩ | ⟨_, _, _, _, _, _, herror⟩
    · rw [hn] at h
      cases h
    · exact ht
    · rw [herror] at h
      cases h
  · rintro rfl
    rfl

theorem ofDigits_eq_invalidDigit_iff {text : List Char} {c : Char} {index : Nat} :
    ofDigits text = .error (.invalidDigit c index) ↔
      ∃ before after, text = before ++ c :: after ∧ before.all Char.isDigit = true ∧
        c.isDigit = false ∧ before.length = index := by
  constructor
  · intro h
    rcases ofDigits_cases text with ⟨_, n, hn⟩ | ⟨_, hempty⟩ |
      ⟨before, d, after, ht, hbefore, hd, herror⟩
    · rw [hn] at h
      cases h
    · rw [hempty] at h
      cases h
    · rw [herror] at h
      cases h
      exact ⟨before, after, ht, hbefore, hd, rfl⟩
  · rintro ⟨before, after, rfl, hbefore, hc, rfl⟩
    exact ofDigits_append_of_not_isDigit hbefore hc after

theorem parse_text (n : Number) : parse n.text = .ok n := by
  rw [parse, toList_text, ofDigits_eq_ok_iff]
  exact ⟨isNumeral_toDigits n.toNat, (numeralValue_toDigits n.toNat).symm⟩

theorem text_of_parse {s : String} {n : Number} (h : parse s = .ok n) :
    n.text = String.ofList (significant s.toList) := by
  obtain ⟨hs, hn⟩ := ofDigits_eq_ok_iff.mp h
  rw [← String.toList_inj, toList_text, hn, toDigits_numeralValue hs.2, String.toList_ofList]

/-- A text is read exactly if it is a numeral, and as its value; every other text is refused as
empty or at its first character that is no digit. A number is written as the numeral of its value
without zeros in front, which is read as that number; and a numeral that is read is written
without its zeros in front. -/
theorem parse_text_inverse :
    (∀ s : String,
      ((∃ n, parse s = .ok n) ↔ IsNumeral s.toList) ∧
      (∀ n, parse s = .ok n ↔ IsNumeral s.toList ∧ n.toNat = numeralValue s.toList) ∧
      (parse s = .error .empty ↔ s = "") ∧
      ∀ c index, parse s = .error (.invalidDigit c index) ↔
        ∃ before after, s.toList = before ++ c :: after ∧ before.all Char.isDigit = true ∧
          c.isDigit = false ∧ before.length = index) ∧
    (∀ n : Number,
      n.layout {} = n.text ∧ n.text = toString n.toNat ∧ IsNumeral n.text.toList ∧
      numeralValue n.text.toList = n.toNat ∧
      (n.text = "0" ∨ n.text.toList.head? ≠ some '0') ∧ parse n.text = .ok n) ∧
    ∀ s : String, IsNumeral s.toList →
      ∃ n, parse s = .ok n ∧ n.text = String.ofList (significant s.toList) := by
  refine ⟨fun s => ⟨exists_ofDigits_iff, fun n => ofDigits_eq_ok_iff, ?_, fun c index =>
    ofDigits_eq_invalidDigit_iff⟩, fun n => ?_, fun s h => ?_⟩
  · rw [parse, ofDigits_eq_empty_iff, String.toList_eq_nil_iff]
  · refine ⟨n.layout_default, n.text_eq_toString, n.isNumeral_text, ?_, ?_, n.parse_text⟩
    · rw [toList_text, numeralValue_toDigits]
    · by_cases h : n.text.toList.head? = some '0'
      · rw [toList_text] at h
        refine .inl (String.toList_inj.mp ?_)
        rw [toList_text, toDigits_of_head?_eq_zero h]
        rfl
      · exact .inr h
  · obtain ⟨n, hn⟩ := exists_ofDigits_iff.mpr h
    exact ⟨n, hn, text_of_parse hn⟩

/-- Zeros in front of a numeral are dropped, a zero inside it is kept. -/
theorem parse_text_inverse_zeros :
    IsNumeral "00100000".toList ∧ ∃ n, parse "00100000" = .ok n ∧ n.text = "100000" := by
  have h : IsNumeral "00100000".toList := by decide
  obtain ⟨n, hn, ht⟩ := parse_text_inverse.2.2 "00100000" h
  exact ⟨h, n, hn, ht⟩

theorem toList_layout (n : Number) {layout : Text.Layout} (hzeros : layout.zeros = true)
    (hplus : layout.plus = false) :
    (n.layout layout).toList = (Nat.toDigits 10 n.toNat).leftpad layout.width '0' := by
  rw [Number.layout, String.toList_ofList, layout.numeral_of_zeros hzeros hplus, digits_eq_toDigits]

/-- With the zero flag and without a sign a field holds digits alone: as many as it is wide, or as
the number has if it has more. They are read as the number, whatever else is asked of the field. -/
theorem parse_layout_zeros (n : Number) {layout : Text.Layout} (hzeros : layout.zeros = true)
    (hplus : layout.plus = false) :
    (n.layout layout).length = max layout.width (toString n.toNat).length ∧
    (∀ c ∈ (n.layout layout).toList, c.isDigit = true) ∧
    parse (n.layout layout) = .ok n ∧
    (Value.finite n).layout layout = n.layout layout := by
  have hlist := n.toList_layout hzeros hplus
  have hnumeral := (isNumeral_toDigits n.toNat).leftpad layout.width
  refine ⟨?_, ?_, ?_, rfl⟩
  · rw [← String.length_toList, hlist, List.length_leftpad, ← text_eq_toString,
      ← String.length_toList, toList_text]
  · rw [hlist]
    exact List.all_eq_true.mp hnumeral.2
  · rw [parse, hlist, ofDigits_eq_ok_iff, numeralValue_leftpad, numeralValue_toDigits]
    exact ⟨hnumeral, rfl⟩

/-- Neither the fill nor the alignment nor the precision has an effect. -/
theorem parse_layout_zeros_wide :
    ∃ layout : Text.Layout, layout.zeros = true ∧ layout.plus = false ∧ layout.width = 12 ∧
      (ofCells [45, 225, 245, 5]).layout layout = "000100000045" ∧
      parse ((ofCells [45, 225, 245, 5]).layout layout) = .ok (ofCells [45, 225, 245, 5]) := by
  refine ⟨⟨'*', some .left, false, true, true, 12, some 2⟩, rfl, rfl, rfl, ?_, ?_⟩
  · decide
  · exact (parse_layout_zeros _ rfl rfl).2.2.1

/-- A sign in front is no digit. -/
example : parse (zero.layout { plus := true, zeros := true, width := 3 }) =
    .error (.invalidDigit '+' 0) := rfl

end Number

end TapeCalc
