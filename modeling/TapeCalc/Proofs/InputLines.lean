import Mathlib.Data.List.Basic
import TapeCalc.CommandLine.Session
import TapeCalc.Proofs.Reading

/-!
# The lines of a text in bytes

The bytes of a text are cut at their line feeds. No other character of the text has the byte of a
line feed in its encoding, so the pieces are the encoded lines of the text, and all of them can be
read.
-/
namespace TapeCalc

namespace Text

/-- The lines of a text. A line feed at its end begins no further line. -/
def lines (text : List Char) : List (List Char) :=
  let lines := text.splitOn '\n'
  if lines.getLast? = some [] then lines.dropLast else lines

def utf8 (text : List Char) : List UInt8 := text.flatMap String.utf8EncodeChar

section Pieces
variable {α : Type} [DecidableEq α] {separator : α}

theorem splitOn_cons_self (xs : List α) :
    (separator :: xs).splitOn separator = [] :: xs.splitOn separator := by
  simp only [List.splitOn_eq_splitOnP]
  rw [List.splitOnP_cons_eq_if_modifyHead, if_pos (beq_self_eq_true separator)]

theorem splitOn_cons_of_ne {x : α} (h : x ≠ separator) (xs : List α) :
    (x :: xs).splitOn separator = (xs.splitOn separator).modifyHead (x :: ·) := by
  simp only [List.splitOn_eq_splitOnP]
  rw [List.splitOnP_cons_eq_if_modifyHead, if_neg (by simpa using h)]

theorem splitOn_append {xs : List α} (h : ∀ x ∈ xs, x ≠ separator) (ys : List α) :
    (xs ++ ys).splitOn separator = (ys.splitOn separator).modifyHead (xs ++ ·) := by
  induction xs with
  | nil => exact (congrFun List.modifyHead_id _).symm
  | cons x xs ih =>
    rw [List.cons_append, splitOn_cons_of_ne (h x List.mem_cons_self),
      ih fun y hy => h y (List.mem_cons_of_mem _ hy), List.modifyHead_modifyHead]
    rfl

end Pieces

theorem ne_lineFeed_of_mem_utf8EncodeChar {c : Char} (hc : c ≠ '\n') {b : UInt8}
    (hb : b ∈ String.utf8EncodeChar c) : b ≠ 10 := by
  rintro rfl
  by_cases hlarge : 127 < c.val.toNat
  · exact absurd (Instruction.le_of_mem_utf8EncodeChar hlarge hb) (by decide)
  · have hle : c.val.toNat ≤ 127 := Nat.le_of_not_lt hlarge
    rw [String.utf8EncodeChar, if_pos hle, List.mem_singleton] at hb
    have hten : 10 = c.val.toNat % 256 := congrArg UInt8.toNat hb
    have hcode : c.toNat = 10 := by
      change c.val.toNat = 10
      omega
    exact hc (by rw [← Char.ofNat_toNat c, hcode])

theorem splitOn_utf8 (text : List Char) :
    (utf8 text).splitOn 10 = (text.splitOn '\n').map utf8 := by
  induction text with
  | nil => rfl
  | cons c text ih =>
    rw [utf8, List.flatMap_cons, ← utf8]
    by_cases hc : c = '\n'
    · subst hc
      rw [show String.utf8EncodeChar '\n' = [10] by decide, List.singleton_append,
        splitOn_cons_self, splitOn_cons_self, ih]
      rfl
    · rw [splitOn_append fun b hb => ne_lineFeed_of_mem_utf8EncodeChar hc hb, ih,
        splitOn_cons_of_ne hc]
      cases text.splitOn '\n' with
      | nil => rfl
      | cons line lines => simp [utf8]

theorem utf8_eq_nil {text : List Char} : utf8 text = [] ↔ text = [] := by
  cases text with
  | nil => simp [utf8]
  | cons c text => simp [utf8, String.utf8EncodeChar_ne_nil]

theorem fromUTF8?_utf8 (text : List Char) :
    String.fromUTF8? ⟨(utf8 text).toArray⟩ = some (String.ofList text) := by
  have hbytes : (⟨(utf8 text).toArray⟩ : ByteArray) = text.utf8Encode := by
    apply ByteArray.ext
    simp [List.utf8Encode, utf8]
  rw [hbytes, String.fromUTF8?, dif_pos ByteArray.isValidUTF8_utf8Encode]
  rfl

end Text

namespace CommandLine

theorem inputLines_utf8 (text : List Char) :
    inputLines (Text.utf8 text) = (Text.lines text).map fun line => some (String.ofList line) := by
  have hlast : (((text.splitOn '\n').map Text.utf8).getLast? = some []) =
      ((text.splitOn '\n').getLast? = some []) := by
    rw [List.getLast?_map]
    cases (text.splitOn '\n').getLast? with
    | none => simp
    | some line => simp [Text.utf8_eq_nil]
  simp only [inputLines, Text.lines, Text.splitOn_utf8, hlast]
  split
  · rw [← List.map_dropLast, List.map_map]
    exact List.map_congr_left fun line _ => Text.fromUTF8?_utf8 line
  · rw [List.map_map]
    exact List.map_congr_left fun line _ => Text.fromUTF8?_utf8 line

/-- The lines that the bytes of a text are read as. -/
def inputTexts (input : String) : List String := (Text.lines input.toList).map String.ofList

theorem inputLines_toUTF8 (input : String) :
    inputLines input.toUTF8.data.toList = (inputTexts input).map some := by
  rw [inputTexts, List.map_map, ← String.ofList_toList (s := input), Instruction.utf8_ofList,
    String.toList_ofList]
  exact inputLines_utf8 input.toList

end CommandLine

end TapeCalc
