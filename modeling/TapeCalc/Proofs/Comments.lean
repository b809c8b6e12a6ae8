import TapeCalc.Proofs.Unmatched

/-!
# Comments

What a text reads as depends on its instruction symbols alone. The offsets that a scan keeps reach
nothing but an error: a scan with other offsets is the same scan with the offsets renamed. So a text
reads as its symbols do on their own, where a place among the symbols stands for the byte offset of
that symbol in the text.
-/
namespace TapeCalc

namespace Instruction

/-- The characters that write an instruction. -/
def isSymbol (c : Char) : Bool := (ofChar? c).isSome

theorem ofChar?_eq_some_iff {c : Char} {i : Instruction} : ofChar? c = some i ↔ c = i.symbol := by
  constructor
  · intro h
    have hs : i.symbol = c := by simpa using List.find?_some h
    exact hs.symm
  · rintro rfl
    cases i <;> rfl

theorem utf8EncodeChar_symbol (i : Instruction) : String.utf8EncodeChar i.symbol = [i.byte] := by
  cases i <;> rfl

theorem flatMap_utf8EncodeChar_symbol (is : List Instruction) :
    (is.map symbol).flatMap String.utf8EncodeChar = is.map byte := by
  induction is with
  | nil => rfl
  | cons i is ih => simp [utf8EncodeChar_symbol, ih]

theorem filter_isSymbol (cs : List Char) :
    cs.filter isSymbol = (cs.filterMap ofChar?).map symbol := by
  induction cs with
  | nil => rfl
  | cons c cs ih =>
    cases h : ofChar? c with
    | none => simp [isSymbol, h, ← ih]
    | some i =>
      obtain rfl := ofChar?_eq_some_iff.mp h
      simp [isSymbol, h, ← ih]

end Instruction

/-- The error with other offsets. -/
def ProgramError.relocate (f : Nat → Nat) : ProgramError → ProgramError
  | .unmatchedStart offset => .unmatchedStart (f offset)
  | .unmatchedEnd offset => .unmatchedEnd (f offset)

namespace Scan

open Instruction (ofChar?)

/-- The scan with other offsets. -/
def relocate (f : Nat → Nat) (scan : Scan) : Scan :=
  { scan with opened := scan.opened.map (Prod.map id f) }

theorem push_relocate (f : Nat → Nat) (offset : Nat) (i : Instruction) (scan : Scan) :
    push (f offset) i (scan.relocate f) =
      ((push offset i scan).map (relocate f)).mapError (ProgramError.relocate f) := by
  obtain ⟨is, ps, opened⟩ := scan
  cases i with
  | loopEnd => cases opened <;> rfl
  | _ => rfl

theorem pushAll_relocate (f : Nat → Nat) (ms : List (Nat × Instruction)) (scan : Scan) :
    pushAll (ms.map (Prod.map f id)) (scan.relocate f) =
      ((pushAll ms scan).map (relocate f)).mapError (ProgramError.relocate f) := by
  induction ms generalizing scan with
  | nil => rfl
  | cons m ms ih =>
    obtain ⟨offset, i⟩ := m
    simp only [List.map_cons, Prod.map, pushAll, id_eq, push_relocate]
    cases push offset i scan with
    | error e => rfl
    | ok next => exact ih next

theorem finish_relocate (f : Nat → Nat) (scan : Scan) :
    (scan.relocate f).finish = scan.finish.mapError (ProgramError.relocate f) := by
  obtain ⟨is, ps, opened⟩ := scan
  cases opened <;> rfl

theorem marks_append (bytes more : List UInt8) (offset : Nat) :
    marks (bytes ++ more) offset = marks bytes offset ++ marks more (offset + bytes.length) := by
  induction bytes generalizing offset with
  | nil => rfl
  | cons b bytes ih =>
    have := ih (offset + 1)
    rw [Nat.add_right_comm] at this
    cases h : Instruction.ofByte? b <;> simp [marks, h, this, Nat.add_assoc]

/-- No byte of a comment character is a mark, and a symbol is one. -/
theorem marks_utf8EncodeChar (c : Char) (offset : Nat) :
    marks (String.utf8EncodeChar c) offset = (ofChar? c).toList.map (offset, ·) := by
  cases h : ofChar? c with
  | none =>
    have := map_snd_marks (String.utf8EncodeChar c) offset
    rw [Instruction.listOf, Instruction.filterMap_utf8EncodeChar, h] at this
    exact List.map_eq_nil_iff.mp this
  | some i =>
    obtain rfl := Instruction.ofChar?_eq_some_iff.mp h
    simp [Instruction.utf8EncodeChar_symbol, marks, Instruction.ofByte?_byte]

/-- Where there are symbols only, the offset of a mark is its place. -/
theorem marks_map_byte (is : List Instruction) (offset : Nat) :
    marks (is.map Instruction.byte) offset = (is.zipIdx offset).map Prod.swap := by
  induction is generalizing offset with
  | nil => rfl
  | cons i is ih => simp [marks, Instruction.ofByte?_byte, ih]

/-- A mark stands for a symbol with as many symbols before it as marks, at the size of what is
before it. -/
theorem exists_of_getElem?_marks {cs : List Char} {offset k o : Nat} {i : Instruction}
    (h : (marks (cs.flatMap String.utf8EncodeChar) offset)[k]? = some (o, i)) :
    ∃ before after, cs = before ++ i.symbol :: after ∧
      (before.filter Instruction.isSymbol).length = k ∧
      o = offset + (before.flatMap String.utf8EncodeChar).length := by
  induction cs generalizing offset k with
  | nil => simp [marks] at h
  | cons c cs ih =>
    rw [List.flatMap_cons, marks_append, marks_utf8EncodeChar] at h
    have hsize : ∀ before : List Char,
        offset + ((c :: before).flatMap String.utf8EncodeChar).length =
          offset + (String.utf8EncodeChar c).length +
            (before.flatMap String.utf8EncodeChar).length := fun before => by
      rw [List.flatMap_cons, List.length_append, Nat.add_assoc]
    cases hc : ofChar? c with
    | none =>
      rw [hc] at h
      obtain ⟨before, after, rfl, hk, ho⟩ := ih h
      refine ⟨c :: before, after, rfl, ?_, ho.trans (hsize before).symm⟩
      simpa [Instruction.isSymbol, hc] using hk
    | some j =>
      rw [hc] at h
      cases k with
      | zero =>
        obtain ⟨rfl, rfl⟩ : offset = o ∧ j = i := by simpa using h
        exact ⟨[], cs, by rw [Instruction.ofChar?_eq_some_iff.mp hc, List.nil_append], rfl, rfl⟩
      | succ k =>
        obtain ⟨before, after, rfl, hk, ho⟩ := ih h
        refine ⟨c :: before, after, rfl, ?_, ho.trans (hsize before).symm⟩
        simpa [Instruction.isSymbol, hc] using hk

end Scan

namespace Program

open Instruction (isSymbol)

/-- A text without its comments. -/
def symbols (source : String) : String := String.ofList (source.toList.filter isSymbol)

/-- At a byte offset of a text stands the symbol of an instruction, with `k` symbols before it. -/
def SymbolAt (source : String) (k : Nat) (i : Instruction) (offset : Nat) : Prop :=
  ∃ before after : String, source = before ++ i.symbol.toString ++ after ∧
    (symbols before).length = k ∧ before.utf8ByteSize = offset

/-- Two texts are the same program, or the same symbol of both is blamed for the same. -/
inductive ReadAlike (source other : String) : Prop
  | read (program : Program) (h : parse source = .ok program) (h' : parse other = .ok program)
  | unmatchedStart (k offset offset' : Nat)
      (h : parse source = .error (.unmatchedStart offset))
      (h' : parse other = .error (.unmatchedStart offset'))
      (at_source : SymbolAt source k .loopStart offset)
      (at_other : SymbolAt other k .loopStart offset')
  | unmatchedEnd (k offset offset' : Nat)
      (h : parse source = .error (.unmatchedEnd offset))
      (h' : parse other = .error (.unmatchedEnd offset'))
      (at_source : SymbolAt source k .loopEnd offset)
      (at_other : SymbolAt other k .loopEnd offset')

/-- The symbols of a text with their byte offsets. -/
def marks (source : String) : List (Nat × Instruction) := Scan.marks source.toUTF8.data.toList 0

/-- The byte offset of the `k`-th symbol. -/
def offsetOf (source : String) (k : Nat) : Nat := ((marks source)[k]?.map Prod.fst).getD 0

variable {source other : String} {k offset : Nat} {i : Instruction}

theorem toUTF8_eq (source : String) :
    source.toUTF8.data.toList = source.toList.flatMap String.utf8EncodeChar := by
  rw [← Instruction.utf8_ofList, String.ofList_toList]

theorem map_snd_marks (source : String) :
    (marks source).map Prod.snd = source.toList.filterMap Instruction.ofChar? := by
  rw [marks, Scan.map_snd_marks, ← Instruction.listOf_ofList, String.ofList_toList]

theorem toList_symbols (source : String) :
    (symbols source).toList = ((marks source).map Prod.snd).map Instruction.symbol := by
  rw [symbols, String.toList_ofList, Instruction.filter_isSymbol, map_snd_marks]

theorem toUTF8_symbols (source : String) :
    (symbols source).toUTF8.data.toList = ((marks source).map Prod.snd).map Instruction.byte := by
  rw [toUTF8_eq, toList_symbols, Instruction.flatMap_utf8EncodeChar_symbol]

theorem marks_symbols (source : String) :
    marks (symbols source) = ((marks source).map Prod.snd).zipIdx.map Prod.swap := by
  rw [marks, toUTF8_symbols, Scan.marks_map_byte]

/-- The marks of a text are those of its symbols at other offsets. -/
theorem marks_eq_map (source : String) :
    marks source = (marks (symbols source)).map (Prod.map (offsetOf source) id) := by
  rw [marks_symbols]
  apply List.ext_getElem
  · simp
  · intro k hk _
    simp [offsetOf, List.getElem?_eq_getElem hk]

/-- A text reads as its symbols do, except for the offset of an error. -/
theorem parse_eq_mapError (source : String) :
    parse source = (parse (symbols source)).mapError (.relocate (offsetOf source)) := by
  have hparse : ∀ text, parse text = (Scan.pushAll (marks text) {}).bind Scan.finish := by
    intro text
    rw [parse, ofBytes, Scan.read_eq_pushAll, ← marks]
    cases Scan.pushAll (marks text) {} <;> rfl
  have hscan := Scan.pushAll_relocate (offsetOf source) (marks (symbols source)) {}
  rw [← marks_eq_map] at hscan
  rw [hparse, hparse, show Scan.pushAll (marks source) {} = _ from hscan]
  cases Scan.pushAll (marks (symbols source)) {} with
  | error e => rfl
  | ok scan => exact Scan.finish_relocate (offsetOf source) scan

theorem symbolAt_of_marks (h : (marks source)[k]? = some (offset, i)) :
    SymbolAt source k i offset := by
  rw [marks, toUTF8_eq] at h
  obtain ⟨before, after, hs, hk, ho⟩ := Scan.exists_of_getElem?_marks h
  refine ⟨.ofList before, .ofList after, ?_, ?_, ?_⟩
  · apply String.toList_inj.mp
    simp [hs]
  · simpa [symbols] using hk
  · rw [ho, Nat.zero_add, ← Instruction.utf8_ofList]
    rfl

/-- The `k`-th byte of the symbols alone is the `k`-th symbol of the text. -/
theorem symbolAt_offsetOf (h : (symbols source).toUTF8.data.toList[k]? = some i.byte) :
    SymbolAt source k i (offsetOf source k) := by
  rw [toUTF8_symbols, List.map_map, List.getElem?_map, Option.map_eq_some_iff] at h
  obtain ⟨⟨offset, j⟩, hm, hj⟩ := h
  obtain rfl : j = i := by
    have := Instruction.ofByte?_byte i
    rw [← hj] at this
    simpa [Instruction.ofByte?_byte] using this
  rw [offsetOf, hm]
  exact symbolAt_of_marks hm

/-- The instructions that are read are the symbols of the text. -/
theorem text_eq_symbols {program : Program} (h : parse source = .ok program) :
    program.text = symbols source := by
  obtain ⟨t, ht, rfl⟩ := (ofBytes_eq_ok_iff _ _).mp h
  apply String.toList_inj.mp
  rw [toList_symbols, marks, Scan.map_snd_marks, ht, text, String.toList_ofList, LoopTree.program]

/-- Texts with the same symbols read alike. -/
theorem readAlike_of_symbols_eq (h : symbols other = symbols source) :
    ReadAlike source other := by
  have hsource := parse_eq_mapError source
  have hother := parse_eq_mapError other
  rw [h] at hother
  have hat : ∀ {k i}, (symbols source).toUTF8.data.toList[k]? = some (Instruction.byte i) →
      SymbolAt source k i (offsetOf source k) ∧ SymbolAt other k i (offsetOf other k) :=
    fun hk => ⟨symbolAt_offsetOf hk, symbolAt_offsetOf (h ▸ hk)⟩
  rcases ofBytes_cases (symbols source).toUTF8.data.toList with
    ⟨-, program, hp⟩ | ⟨k, he, hp⟩ | ⟨k, outer, ho, hp⟩ <;>
    rw [show parse (symbols source) = _ from hp] at hsource hother
  · exact .read program hsource hother
  · obtain ⟨hs, ho⟩ := hat he.closes
    exact .unmatchedEnd k _ _ hsource hother hs ho
  · obtain ⟨hs, ho⟩ := hat (ho.lastUnmatched Instruction.byte_loopStart_ne).unmatched.1
    exact .unmatchedStart k _ _ hsource hother hs ho

theorem parse_symbols {program : Program} (h : parse source = .ok program) :
    parse (symbols source) = .ok program := by
  rw [parse_eq_mapError] at h
  cases hs : parse (symbols source) with
  | error e =>
    rw [hs] at h
    cases h
  | ok read =>
    rw [hs] at h
    exact h

/-- Comments change no program, and the text of a program is its symbols and reads as itself. -/
theorem parse_ignores_comments (source : String) :
    (∀ other, symbols other = symbols source → ReadAlike source other) ∧
      ∀ program, parse source = .ok program →
        program.text = symbols source ∧ parse program.text = .ok program := by
  refine ⟨fun other h => readAlike_of_symbols_eq h, fun program h => ?_⟩
  have ht := text_eq_symbols h
  exact ⟨ht, ht ▸ parse_symbols h⟩

/-- In one text the bracket that is never closed comes after a letter of two bytes. -/
theorem parse_ignores_comments_accents :
    (symbols "[+ü" = symbols "é[+" ∧ ReadAlike "é[+" "[+ü" ∧
      parse "é[+" = .error (.unmatchedStart 2) ∧ parse "[+ü" = .error (.unmatchedStart 0)) ∧
    parse "é+" = .ok ⟨#[.increment], #[0]⟩ ∧
      text ⟨#[.increment], #[0]⟩ = symbols "é+" ∧
      parse (text ⟨#[.increment], #[0]⟩) = .ok ⟨#[.increment], #[0]⟩ := by
  have hs : symbols "[+ü" = symbols "é[+" := by decide
  have hp : parse "é+" = .ok ⟨#[.increment], #[0]⟩ := rfl
  exact ⟨⟨hs, (parse_ignores_comments "é[+").1 "[+ü" hs, rfl, rfl⟩,
    hp, (parse_ignores_comments "é+").2 _ hp⟩

end Program

end TapeCalc
