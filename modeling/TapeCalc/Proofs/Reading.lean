import TapeCalc.Proofs.LoopTree

/-!
# Reading programs

A scan first of all finds the instructions with their offsets; what it builds from them depends
on the instructions alone. The texts that are read are those whose instructions flatten a tree,
and the program read is the program of that tree.
-/
namespace TapeCalc

namespace Instruction

/-- The instructions of a text. -/
def listOf (bytes : List UInt8) : List Instruction := bytes.filterMap ofByte?

/-- The instruction that a character writes. -/
def ofChar? (c : Char) : Option Instruction := all.find? fun i => i.symbol == c

theorem utf8_ofList (cs : List Char) :
    (String.ofList cs).toUTF8.data.toList = cs.flatMap String.utf8EncodeChar := by
  simp [String.ofList, List.utf8Encode]

theorem ofByte?_eq_none {b : UInt8} (h : 128 ≤ b) : ofByte? b = none := by
  unfold ofByte?
  grind

theorem ofChar?_eq_none {c : Char} (h : 127 < c.toNat) : ofChar? c = none := by
  rw [ofChar?, List.find?_eq_none]
  intro i _ hi
  obtain rfl : i.symbol = c := by simpa using hi
  cases i <;> revert h <;> decide

theorem ofByte?_ofNat {n : Nat} (h : n < 128) :
    ofByte? (UInt8.ofNat n) = ofChar? (Char.ofNat n) := by
  revert n
  decide +kernel

/-- The bytes of a character outside ASCII are all outside ASCII. -/
theorem le_of_mem_utf8EncodeChar {c : Char} (hc : 127 < c.val.toNat) {b : UInt8}
    (hb : b ∈ String.utf8EncodeChar c) : 128 ≤ b := by
  have hbyte : ∀ n, 128 ≤ n → n < 256 → 128 ≤ UInt8.ofNat n := by
    intro n hn hlt
    rw [UInt8.le_iff_toNat_le, UInt8.toNat_ofNat', Nat.mod_eq_of_lt hlt]
    exact hn
  rw [String.utf8EncodeChar, if_neg (Nat.not_le.mpr hc)] at hb
  split at hb
  · simp only [List.mem_cons, List.not_mem_nil, or_false] at hb
    rcases hb with rfl | rfl <;> exact hbyte _ (by omega) (by omega)
  · split at hb
    · simp only [List.mem_cons, List.not_mem_nil, or_false] at hb
      rcases hb with rfl | rfl | rfl <;> exact hbyte _ (by omega) (by omega)
    · simp only [List.mem_cons, List.not_mem_nil, or_false] at hb
      rcases hb with rfl | rfl | rfl | rfl <;> exact hbyte _ (by omega) (by omega)

/-- The bytes of a character write the instruction that the character writes. -/
theorem filterMap_utf8EncodeChar (c : Char) :
    (String.utf8EncodeChar c).filterMap ofByte? = (ofChar? c).toList := by
  by_cases hc : 127 < c.toNat
  · rw [ofChar?_eq_none hc, Option.toList_none, List.filterMap_eq_nil_iff]
    exact fun b hb => ofByte?_eq_none (le_of_mem_utf8EncodeChar hc hb)
  · have hlow : c.val.toNat ≤ 127 := Nat.le_of_not_lt hc
    have hbyte : ofByte? (UInt8.ofNat c.val.toNat) = ofChar? c := by
      have := ofByte?_ofNat (n := c.toNat) (Nat.lt_succ_of_le hlow)
      rwa [Char.ofNat_toNat] at this
    rw [← hbyte, String.utf8EncodeChar, if_pos hlow]
    cases h : ofByte? (UInt8.ofNat c.val.toNat) with
    | none => exact List.filterMap_cons_none h
    | some i => exact List.filterMap_cons_some h

theorem listOf_ofList (cs : List Char) :
    listOf (String.ofList cs).toUTF8.data.toList = cs.filterMap ofChar? := by
  rw [utf8_ofList, listOf]
  induction cs with
  | nil => rfl
  | cons c cs ih =>
    rw [List.flatMap_cons, List.filterMap_append, ih, filterMap_utf8EncodeChar]
    cases h : ofChar? c with
    | none => simp [h]
    | some i => simp [h]

end Instruction

namespace Scan

/-- The instructions from an offset on, with their offsets. -/
def marks : List UInt8 → Nat → List (Nat × Instruction)
  | [], _ => []
  | b :: bytes, offset =>
    match Instruction.ofByte? b with
    | none => marks bytes (offset + 1)
    | some i => (offset, i) :: marks bytes (offset + 1)

def pushAll : List (Nat × Instruction) → Scan → Except ProgramError Scan
  | [], scan => .ok scan
  | (offset, i) :: rest, scan => (push offset i scan).bind (pushAll rest)

theorem map_snd_marks (bytes : List UInt8) (offset : Nat) :
    (marks bytes offset).map Prod.snd = Instruction.listOf bytes := by
  induction bytes generalizing offset with
  | nil => rfl
  | cons b bytes ih =>
    cases h : Instruction.ofByte? b with
    | none => simp [marks, h, ih, Instruction.listOf]
    | some i => simpa [marks, h, Instruction.listOf] using ih (offset + 1)

theorem read_eq_pushAll (bytes : List UInt8) (offset : Nat) (scan : Scan) :
    read bytes offset scan = pushAll (marks bytes offset) scan := by
  induction bytes generalizing offset scan with
  | nil => rfl
  | cons b bytes ih =>
    unfold read marks
    cases Instruction.ofByte? b with
    | none => exact ih (offset + 1) scan
    | some i =>
      simp only [pushAll]
      cases push offset i scan with
      | error e => rfl
      | ok scan => exact ih (offset + 1) scan

theorem pushAll_append (ms ns : List (Nat × Instruction)) (scan : Scan) :
    pushAll (ms ++ ns) scan = (pushAll ms scan).bind (pushAll ns) := by
  induction ms generalizing scan with
  | nil => rfl
  | cons m ms ih =>
    simp only [List.cons_append, pushAll]
    cases push m.1 m.2 scan with
    | error e => rfl
    | ok scan => exact ih scan

/-- A command is its own partner. -/
theorem push_command (offset : Nat) (c : Command) (is : Array Instruction) (ps : Array Nat)
    (opened : List (Nat × Nat)) :
    push offset c.instruction ⟨is, ps, opened⟩ =
      .ok ⟨is.push c.instruction, ps.push is.size, opened⟩ := by
  cases c <;> rfl

/-- The closing bracket gets the place of its partner, which gets the place of the bracket. -/
theorem setIfInBounds_link (ps : Array Nat) (inner : List Nat) (start place : Nat)
    (h : ps.size = start) :
    ((ps.push start ++ inner.toArray).setIfInBounds start place).push start =
      ps ++ (place :: (inner ++ [start])).toArray := by
  subst h
  apply Array.toList_inj.mp
  simp

/-- The marks of a tree add its code and its partners and leave the open brackets as they were. -/
theorem pushAll_flatten {t : LoopTree} {ms : List (Nat × Instruction)}
    (h : ms.map Prod.snd = t.flatten) (is : Array Instruction) (ps : Array Nat)
    (opened : List (Nat × Nat)) (hs : ps.size = is.size) :
    pushAll ms ⟨is, ps, opened⟩ =
      .ok ⟨is ++ t.flatten.toArray, ps ++ (t.links is.size).toArray, opened⟩ := by
  induction t generalizing ms is ps opened with
  | done =>
    obtain rfl : ms = [] := List.map_eq_nil_iff.mp h
    simp [pushAll, LoopTree.flatten, LoopTree.links]
  | command c next ih =>
    obtain ⟨⟨offset, i⟩, ms, rfl, rfl, hn⟩ := List.map_eq_cons_iff.mp h
    have hnext := ih hn (is.push c.instruction) (ps.push is.size) opened (by simp [hs])
    rw [pushAll, push_command]
    simp only [Except.bind, hnext, Array.size_push, LoopTree.flatten, LoopTree.links]
    simp
  | loop body next ihb ihn =>
    obtain ⟨⟨offset, i⟩, ms, rfl, rfl, hm⟩ := List.map_eq_cons_iff.mp h
    obtain ⟨inner, outer, rfl, hb, ho⟩ := List.map_eq_append_iff.mp hm
    obtain ⟨⟨last, j⟩, outer, rfl, rfl, hn⟩ := List.map_eq_cons_iff.mp ho
    have hbody := ihb hb (is.push .loopStart) (ps.push is.size) ((is.size, offset) :: opened)
      (by simp [hs])
    have hplace : (is.push .loopStart ++ body.flatten.toArray).size = is.size + body.size + 1 := by
      simp
      omega
    rw [pushAll, push, Except.bind, pushAll_append, hbody]
    simp only [Except.bind, pushAll, push, Array.size_push]
    rw [hplace, setIfInBounds_link _ _ _ _ hs, ihn hn _ _ _ (by simp [hs])]
    simp [LoopTree.flatten, LoopTree.links, Nat.add_assoc]

/-- Marks that close every open bracket are trees with one closing bracket for each of them. -/
theorem exists_trees_of_pushAll {ms : List (Nat × Instruction)} {scan final : Scan}
    (h : pushAll ms scan = .ok final) (hf : final.opened = []) :
    ∃ (t : LoopTree) (ts : List LoopTree), ts.length = scan.opened.length ∧
      ms.map Prod.snd = t.flatten ++ ts.flatMap fun u => .loopEnd :: u.flatten := by
  induction ms generalizing scan with
  | nil =>
    obtain rfl : scan = final := by simpa [pushAll] using h
    exact ⟨.done, [], by simp [hf], by simp [LoopTree.flatten]⟩
  | cons m ms ih =>
    obtain ⟨offset, i⟩ := m
    obtain ⟨is, ps, opened⟩ := scan
    have hcommand : ∀ c : Command, i = c.instruction → ∃ (t : LoopTree) (ts : List LoopTree),
        ts.length = opened.length ∧ i :: ms.map Prod.snd =
          t.flatten ++ ts.flatMap fun u => .loopEnd :: u.flatten := by
      rintro c rfl
      rw [pushAll, push_command] at h
      obtain ⟨t, ts, hl, ht⟩ := ih h
      exact ⟨.command c t, ts, hl, by simp [LoopTree.flatten, ht]⟩
    cases i with
    | right => exact hcommand .right rfl
    | left => exact hcommand .left rfl
    | increment => exact hcommand .increment rfl
    | decrement => exact hcommand .decrement rfl
    | output => exact hcommand .output rfl
    | input => exact hcommand .input rfl
    | loopStart =>
      obtain ⟨t, ts, hl, ht⟩ := ih (by simpa [pushAll, push, Except.bind] using h)
      obtain ⟨u, ts, rfl⟩ := List.exists_cons_of_length_eq_add_one hl
      exact ⟨.loop t u, ts, by simpa using hl, by simp [LoopTree.flatten, ht]⟩
    | loopEnd =>
      cases opened with
      | nil => simp [pushAll, push, Except.bind] at h
      | cons start outer =>
        obtain ⟨t, ts, hl, ht⟩ := ih (by simpa [pushAll, push, Except.bind] using h)
        exact ⟨.done, t :: ts, by simpa using hl, by simp [LoopTree.flatten, ht]⟩

end Scan

namespace Program

/-- The texts of programs are the texts of trees, and a tree's program is what is read. -/
theorem ofBytes_eq_ok_iff (bytes : List UInt8) (p : Program) :
    ofBytes bytes = .ok p ↔
      ∃ t : LoopTree, Instruction.listOf bytes = t.flatten ∧ p = t.program := by
  have hread : ∀ t : LoopTree, Instruction.listOf bytes = t.flatten →
      ofBytes bytes = .ok t.program := by
    intro t ht
    have := Scan.pushAll_flatten ((Scan.map_snd_marks bytes 0).trans ht) #[] #[] [] rfl
    rw [ofBytes, Scan.read_eq_pushAll, this]
    simp [Scan.finish, LoopTree.program]
  constructor
  · intro h
    have hp := h
    rw [ofBytes, Scan.read_eq_pushAll] at h
    cases hs : Scan.pushAll (Scan.marks bytes 0) {} with
    | error e => simp [hs] at h
    | ok final =>
      obtain ⟨is, ps, opened⟩ := final
      rw [hs] at h
      cases opened with
      | cons start outer => simp [Scan.finish] at h
      | nil =>
        obtain ⟨t, ts, hl, ht⟩ := Scan.exists_trees_of_pushAll hs rfl
        obtain rfl : ts = [] := List.eq_nil_of_length_eq_zero hl
        have ht : Instruction.listOf bytes = t.flatten := by
          rw [← Scan.map_snd_marks bytes 0, ht]
          simp
        rw [hread t ht] at hp
        exact ⟨t, ht, (Except.ok.inj hp).symm⟩
  · rintro ⟨t, ht, rfl⟩
    exact hread t ht

/-- The table of a program that is read has an entry for every place, and it is a place. -/
theorem exists_partner {source : String} {p : Program} (h : parse source = .ok p) {place : Nat}
    (hp : place < p.size) : ∃ q, p.partner? place = some q ∧ q < p.size := by
  obtain ⟨t, -, rfl⟩ := (ofBytes_eq_ok_iff _ _).mp h
  have hlt : place < (t.links 0).length := by rwa [LoopTree.length_links, ← LoopTree.size_program]
  refine ⟨(t.links 0)[place], by simp [LoopTree.program, partner?], ?_⟩
  have hq := LoopTree.lt_of_mem_links (List.getElem_mem hlt)
  rwa [Nat.zero_add, ← LoopTree.size_program] at hq

theorem isSome_partner? {source : String} {p : Program} (h : parse source = .ok p) {place : Nat}
    (hp : place < p.size) : (p.partner? place).isSome := by
  obtain ⟨q, hq, -⟩ := exists_partner h hp
  exact Option.isSome_of_eq_some hq

theorem parse_ofList {cs : List Char} {t : LoopTree}
    (h : cs.filterMap Instruction.ofChar? = t.flatten) :
    parse (String.ofList cs) = .ok t.program :=
  (ofBytes_eq_ok_iff _ _).mpr ⟨t, (Instruction.listOf_ofList cs).trans h, rfl⟩

end Program

end TapeCalc
