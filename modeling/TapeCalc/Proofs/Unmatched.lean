import TapeCalc.Proofs.Brackets
import TapeCalc.Proofs.Reading

/-!
# Unmatched brackets

The texts that are read are the balanced ones. In any other text the bracket that is blamed is the
first closing one too many, and if there is none the last opening one that is never closed: the
stack of a scan holds the offsets of the brackets that are open, with balanced text between them.
-/
namespace TapeCalc

namespace Brackets

variable {α : Type} [DecidableEq α] {opening closing : α}

/-- The first closing bracket with which a prefix closes more than it opens. -/
structure FirstExcess (opening closing : α) (l : List α) (i : Nat) : Prop where
  closes : l[i]? = some closing
  exceeds : (l.take (i + 1)).count opening < (l.take (i + 1)).count closing
  nested : Nested opening closing (l.take i)

/-- An opening bracket that belongs to no closing one. -/
def Unmatched (opening closing : α) (l : List α) (i : Nat) : Prop :=
  l[i]? = some opening ∧ ∀ j, ¬ Pairs opening closing l i j

structure LastUnmatched (opening closing : α) (l : List α) (i : Nat) : Prop where
  unmatched : Unmatched opening closing l i
  last : ∀ k, Unmatched opening closing l k → k ≤ i

/-- The places of the brackets that are open at the end of a word, the innermost first: the word
is balanced before, between and after them. -/
inductive Opens (opening closing : α) : List α → List Nat → Prop
  | balanced {l : List α} (h : Balanced opening closing l) : Opens opening closing l []
  | opened {l inner : List α} {places : List Nat} (outer : Opens opening closing l places)
      (h : Balanced opening closing inner) :
      Opens opening closing (l ++ opening :: inner) (l.length :: places)

variable {l k : List α} {places : List Nat} {i n : Nat}

namespace Opens

theorem append (h : Opens opening closing l places) (g : Balanced opening closing k) :
    Opens opening closing (l ++ k) places := by
  cases h with
  | balanced h => exact .balanced (h.append g)
  | opened outer h =>
    rw [List.append_assoc, List.cons_append]
    exact .opened outer (h.append g)

theorem close (ne : opening ≠ closing) (h : Opens opening closing l (i :: places)) :
    Opens opening closing (l ++ [closing]) places := by
  cases h with
  | opened outer h =>
    rw [List.append_assoc, List.cons_append]
    exact outer.append (h.wrap ne)

theorem depth_eq (ne : opening ≠ closing) (h : Opens opening closing l places) :
    depth opening closing l = places.length := by
  induction h with
  | balanced h => exact h.depth_eq
  | opened outer h ih =>
    rw [depth_append, depth_cons, ih, h.depth_eq, depth_opening ne, List.length_cons]
    omega

theorem nested (ne : opening ≠ closing) (h : Opens opening closing l places) :
    Nested opening closing l := by
  induction h with
  | balanced h => exact h.nested
  | @opened l inner places outer h ih =>
    rw [nested_iff] at ih ⊢
    intro n
    rw [height_append]
    have hfront := ih n
    cases n - l.length with
    | zero => simpa using hfront
    | succ m =>
      have hinner := nested_iff.mp h.nested m
      rw [height_cons, depth_opening ne]
      omega

/-- The innermost open bracket is never closed, and every later bracket is. -/
theorem lastUnmatched (ne : opening ≠ closing) (h : Opens opening closing l (i :: places)) :
    LastUnmatched opening closing l i := by
  cases h with
  | @opened front inner _ outer h =>
    have hat : height opening closing (front ++ opening :: inner) front.length =
        depth opening closing front := by
      simp [height_append, height_length]
    have hafter : ∀ m, front.length < m → depth opening closing front + 1 ≤
        height opening closing (front ++ opening :: inner) m := by
      intro m hm
      obtain ⟨n, rfl⟩ := Nat.exists_eq_add_of_lt hm
      have hinner := nested_iff.mp h.nested n
      have hfront : front.take (front.length + n + 1) = front :=
        List.take_of_length_le (by omega)
      rw [height_append, height, hfront, Nat.add_assoc, Nat.add_sub_cancel_left, height_cons,
        depth_opening ne]
      omega
    have hend : height opening closing (front ++ opening :: inner)
        (front ++ opening :: inner).length = depth opening closing front + 1 := by
      rw [height_length, depth_append, depth_cons, h.depth_eq, depth_opening ne, Int.add_zero]
    refine ⟨⟨by simp, fun j hj => ?_⟩, fun k hk => Nat.le_of_not_lt fun hlt => ?_⟩
    · have := hafter (j + 1) (Nat.lt_succ_of_lt hj.lt)
      rw [hj.height_succ_eq ne, hat] at this
      omega
    · have hkl : k < (front ++ opening :: inner).length :=
        (List.getElem?_eq_some_iff.mp hk.1).1
      obtain ⟨j, hj⟩ := exists_pairs_of_height_le ne hk.1 hkl (hend ▸ hafter k hlt)
      exact hk.2 j hj

end Opens

theorem Balanced.firstExcess (ne : opening ≠ closing) (h : Balanced opening closing l)
    (k : List α) : FirstExcess opening closing (l ++ closing :: k) l.length where
  closes := by simp
  exceeds := by
    rw [List.append_cons, List.take_left' (by simp), List.count_append, List.count_append,
      h.count_eq]
    simp [ne.symm]
  nested := by simpa using h.nested

theorem FirstExcess.not_nested (h : FirstExcess opening closing l i) :
    ¬ Nested opening closing l := fun hn => Nat.not_le_of_lt h.exceeds (hn (i + 1))

end Brackets

open Brackets

namespace Instruction

theorem byte_loopStart_ne : loopStart.byte ≠ loopEnd.byte := by decide

theorem ofByte?_eq_some_iff {b : UInt8} {i : Instruction} : ofByte? b = some i ↔ b = i.byte := by
  refine ⟨?_, fun h => h ▸ ofByte?_byte i⟩
  fun_cases ofByte? b <;> rintro ⟨⟩ <;> assumption

end Instruction

namespace Scan

open Instruction (loopStart loopEnd)

/-- The stack of a scan holds the offsets of the brackets open in what it has read. -/
def Tracks (scan : Scan) (front : List UInt8) : Prop :=
  Opens loopStart.byte loopEnd.byte front (scan.opened.map Prod.snd)

variable {scan : Scan} {front : List UInt8}

theorem Tracks.comment (h : scan.Tracks front) {b : UInt8} (hb : Instruction.ofByte? b = none) :
    scan.Tracks (front ++ [b]) := by
  have hne : ∀ i : Instruction, b ≠ i.byte := by
    rintro i rfl
    rw [Instruction.ofByte?_byte] at hb
    cases hb
  exact h.append (balanced_singleton (hne _) (hne _))

/-- An instruction keeps the stack right, unless it closes a bracket and none is open. -/
theorem Tracks.push (h : scan.Tracks front) (i : Instruction) :
    (∃ next, push front.length i scan = .ok next ∧ next.Tracks (front ++ [i.byte])) ∨
      i = .loopEnd ∧ Balanced loopStart.byte loopEnd.byte front ∧
        push front.length i scan = .error (.unmatchedEnd front.length) := by
  obtain ⟨is, ps, opened⟩ := scan
  have hcommand : ∀ c : Command, ∃ next,
      Scan.push front.length c.instruction ⟨is, ps, opened⟩ = .ok next ∧
        next.Tracks (front ++ [c.instruction.byte]) := by
    intro c
    refine ⟨_, push_command .., h.append (balanced_singleton ?_ ?_)⟩
    · cases c <;> decide
    · cases c <;> decide
  cases i with
  | right => exact .inl (hcommand .right)
  | left => exact .inl (hcommand .left)
  | increment => exact .inl (hcommand .increment)
  | decrement => exact .inl (hcommand .decrement)
  | output => exact .inl (hcommand .output)
  | input => exact .inl (hcommand .input)
  | loopStart => exact .inl ⟨_, rfl, .opened h balanced_nil⟩
  | loopEnd =>
    cases opened with
    | nil =>
      cases h with
      | balanced h => exact .inr ⟨rfl, h, rfl⟩
    | cons start outer => exact .inl ⟨_, rfl, h.close Instruction.byte_loopStart_ne⟩

/-- A scan goes through a text, or it stops at the first closing bracket too many. -/
theorem Tracks.read (h : scan.Tracks front) (bytes : List UInt8) :
    (∃ final, read bytes front.length scan = .ok final ∧ final.Tracks (front ++ bytes)) ∨
      ∃ before after, front ++ bytes = before ++ loopEnd.byte :: after ∧
        Balanced loopStart.byte loopEnd.byte before ∧
        read bytes front.length scan = .error (.unmatchedEnd before.length) := by
  induction bytes generalizing front scan with
  | nil => exact .inl ⟨scan, rfl, by rwa [List.append_nil]⟩
  | cons b bytes ih =>
    have hnext : ∀ {next : Scan}, next.Tracks (front ++ [b]) → _ := fun hn => ih hn
    simp only [List.length_append, List.length_singleton, List.append_assoc,
      List.singleton_append] at hnext
    rw [Scan.read]
    cases hb : Instruction.ofByte? b with
    | none => exact hnext (h.comment hb)
    | some i =>
      obtain rfl := Instruction.ofByte?_eq_some_iff.mp hb
      rcases h.push i with ⟨next, hp, hn⟩ | ⟨rfl, hf, hp⟩
      · simp only [hp]
        exact hnext hn
      · simp only [hp]
        exact .inr ⟨front, bytes, rfl, hf, rfl⟩

end Scan

namespace Program

open Instruction (loopStart loopEnd)

/-- A text is read, or a bracket is blamed: one that closes nothing, after balanced text, or the
innermost of those that are open at the end. -/
theorem ofBytes_cases (bytes : List UInt8) :
    (Balanced loopStart.byte loopEnd.byte bytes ∧ ∃ program, ofBytes bytes = .ok program) ∨
    (∃ offset, FirstExcess loopStart.byte loopEnd.byte bytes offset ∧
      ofBytes bytes = .error (.unmatchedEnd offset)) ∨
    ∃ offset outer, Opens loopStart.byte loopEnd.byte bytes (offset :: outer) ∧
      ofBytes bytes = .error (.unmatchedStart offset) := by
  have hstart : Scan.Tracks {} [] := .balanced balanced_nil
  rcases hstart.read bytes with ⟨⟨is, ps, opened⟩, hread, hfinal⟩ | ⟨before, after, rfl, hb, hread⟩
  · rw [ofBytes, show Scan.read bytes 0 {} = _ from hread]
    cases opened with
    | nil =>
      cases hfinal with
      | balanced h => exact .inl ⟨h, _, rfl⟩
    | cons start outer => exact .inr (.inr ⟨_, _, hfinal, rfl⟩)
  · rw [ofBytes, show Scan.read _ 0 {} = _ from hread]
    exact .inr (.inl ⟨_, hb.firstExcess Instruction.byte_loopStart_ne after, rfl⟩)

/-- Exactly the balanced texts are read. -/
theorem exists_ofBytes_eq_ok_iff (bytes : List UInt8) :
    (∃ program, ofBytes bytes = .ok program) ↔ Balanced loopStart.byte loopEnd.byte bytes := by
  have hfailed : ∀ {e}, ofBytes bytes = .error e → ¬ ∃ program, ofBytes bytes = .ok program := by
    rintro e he ⟨program, hp⟩
    rw [he] at hp
    cases hp
  rcases ofBytes_cases bytes with ⟨hb, hok⟩ | ⟨_, he, hp⟩ | ⟨_, _, ho, hp⟩
  · exact iff_of_true hok hb
  · exact iff_of_false (hfailed hp) fun hb => he.not_nested hb.nested
  · refine iff_of_false (hfailed hp) fun hb => ?_
    have hdepth := ho.depth_eq Instruction.byte_loopStart_ne
    rw [hb.depth_eq, List.length_cons] at hdepth
    omega

/-- What reading the bytes of a text comes to. -/
structure ReadsAs (bytes : List UInt8) (result : Except ProgramError Program) : Prop where
  ok_iff : (∃ program, result = .ok program) ↔ Balanced loopStart.byte loopEnd.byte bytes
  instructions_eq : ∀ program, result = .ok program →
    program.instructions.toList = bytes.filterMap Instruction.ofByte?
  unmatchedEnd : ¬ Nested loopStart.byte loopEnd.byte bytes →
    ∃ offset, result = .error (.unmatchedEnd offset) ∧
      FirstExcess loopStart.byte loopEnd.byte bytes offset
  unmatchedStart : Nested loopStart.byte loopEnd.byte bytes →
    bytes.count loopEnd.byte ≠ bytes.count loopStart.byte →
    ∃ offset, result = .error (.unmatchedStart offset) ∧
      LastUnmatched loopStart.byte loopEnd.byte bytes offset

/-- Exactly the balanced texts are read, and in any other the right bracket is blamed. -/
theorem parse_readsAs (source : String) :
    ReadsAs source.toUTF8.data.toList (parse source) := by
  rw [parse]
  generalize source.toUTF8.data.toList = bytes
  have hne := Instruction.byte_loopStart_ne
  refine ⟨exists_ofBytes_eq_ok_iff bytes, fun program hp => ?_, fun hn => ?_, fun hn hc => ?_⟩
  · obtain ⟨t, ht, rfl⟩ := (ofBytes_eq_ok_iff bytes program).mp hp
    rw [← Instruction.listOf, ht, LoopTree.program]
  · rcases ofBytes_cases bytes with ⟨hb, -⟩ | ⟨offset, he, hp⟩ | ⟨_, _, ho, -⟩
    · exact absurd hb.nested hn
    · exact ⟨offset, hp, he⟩
    · exact absurd (ho.nested hne) hn
  · rcases ofBytes_cases bytes with ⟨hb, -⟩ | ⟨_, he, -⟩ | ⟨offset, _, ho, hp⟩
    · exact absurd hb.count_eq hc
    · exact absurd hn he.not_nested
    · exact ⟨offset, hp, ho.lastUnmatched hne⟩

/-- A closing bracket too many is blamed before an opening one that is never closed. -/
example : parse "[+]][" = .error (.unmatchedEnd 3) := rfl

end Program

end TapeCalc
