import TapeCalc.Proofs.Brackets
import TapeCalc.Proofs.Refinement

/-!
# The table of partners

What the table of a program that is read must say can be told from the instructions alone: a
bracket is linked with the one that it pairs with and anything else with itself. The links are
nested, lead back to where they come from, and make up the only table that is nested so.
-/
namespace TapeCalc

open Brackets

namespace Instruction

def IsBracket (i : Instruction) : Prop := i = .loopStart ∨ i = .loopEnd

theorem loopStart_ne_loopEnd : loopStart ≠ loopEnd := nofun

/-- The place that a place is linked with, seen from the instructions. -/
inductive Partner (is : List Instruction) : Nat → Nat → Prop
  | command {i : Nat} {x : Instruction} (h : is[i]? = some x) (hx : ¬ x.IsBracket) :
      Partner is i i
  | loopStart {i j : Nat} (h : Pairs .loopStart .loopEnd is i j) : Partner is i j
  | loopEnd {i j : Nat} (h : Pairs .loopStart .loopEnd is i j) : Partner is j i

namespace Partner

variable {is : List Instruction} {i j k : Nat}

theorem symm (h : Partner is i j) : Partner is j i := by
  cases h with
  | command h hx => exact .command h hx
  | loopStart h => exact .loopEnd h
  | loopEnd h => exact .loopStart h

theorem lt_length (h : Partner is i j) : i < is.length := by
  cases h with
  | command h _ => exact (List.getElem?_eq_some_iff.mp h).1
  | loopStart h => exact (List.getElem?_eq_some_iff.mp h.opens).1
  | loopEnd h => exact (List.getElem?_eq_some_iff.mp h.closes).1

theorem pairs_of_loopStart (h : Partner is i j) (hi : is[i]? = some .loopStart) :
    Pairs .loopStart .loopEnd is i j := by
  cases h with
  | command h hx =>
    cases hi.symm.trans h
    exact (hx (.inl rfl)).elim
  | loopStart h => exact h
  | loopEnd h => cases hi.symm.trans h.closes

theorem pairs_of_loopEnd (h : Partner is i j) (hi : is[i]? = some .loopEnd) :
    Pairs .loopStart .loopEnd is j i := by
  cases h with
  | command h hx =>
    cases hi.symm.trans h
    exact (hx (.inr rfl)).elim
  | loopStart h => cases hi.symm.trans h.opens
  | loopEnd h => exact h

theorem eq_of_not_isBracket {x : Instruction} (h : Partner is i j) (hi : is[i]? = some x)
    (hx : ¬ x.IsBracket) : i = j := by
  cases h with
  | command _ _ => rfl
  | loopStart h =>
    cases hi.symm.trans h.opens
    exact (hx (.inl rfl)).elim
  | loopEnd h =>
    cases hi.symm.trans h.closes
    exact (hx (.inr rfl)).elim

theorem unique (h : Partner is i j) (g : Partner is i k) : j = k := by
  cases g with
  | command g hx => exact (h.eq_of_not_isBracket g hx).symm
  | loopStart g => exact (h.pairs_of_loopStart g.opens).right_unique loopStart_ne_loopEnd g
  | loopEnd g => exact (h.pairs_of_loopEnd g.closes).left_unique loopStart_ne_loopEnd g

end Partner

end Instruction

/-- What stands in the table from a place on stands in the list of instructions. -/
theorem Follows.extract_eq {program : Program} {place : Nat} {is : List Instruction}
    (h : Follows program.fetch? place is) :
    program.instructions.toList.extract place (place + is.length) = is := by
  apply List.ext_getElem?
  intro i
  rw [List.extract_eq_take_drop, Nat.add_sub_cancel_left, List.getElem?_take, List.getElem?_drop,
    Array.getElem?_toList]
  split
  next hi => exact h i hi
  next hi => exact (List.getElem?_eq_none (Nat.le_of_not_lt hi)).symm

/-- The brackets around balanced code belong together. -/
theorem Follows.pairs {program : Program} {place : Nat} {code rest : List Instruction}
    (h : Follows program.fetch? place (.loopStart :: (code ++ .loopEnd :: rest)))
    (hcode : Balanced .loopStart .loopEnd code) :
    Pairs .loopStart .loopEnd program.instructions.toList place (place + code.length + 1) where
  lt := by omega
  opens := Array.getElem?_toList.trans h.head
  closes := Array.getElem?_toList.trans (h.past rfl).head
  between := by
    have hinner := h.tail.append_left.extract_eq
    rw [Nat.add_right_comm] at hinner
    exact hinner.symm ▸ hcode

namespace LoopTree

theorem not_isBracket_instruction (c : Command) : ¬ c.instruction.IsBracket := by
  cases c <;> rintro (h | h) <;> cases h

theorem balanced_flatten (t : LoopTree) :
    Balanced Instruction.loopStart Instruction.loopEnd t.flatten := by
  induction t with
  | done => exact balanced_nil
  | command c next ih =>
    have hc := not_isBracket_instruction c
    exact (balanced_singleton (fun e => hc (.inl e)) fun e => hc (.inr e)).append ih
  | loop body next ihb ihn =>
    rw [flatten, List.append_cons, ← List.cons_append]
    exact (ihb.wrap Instruction.loopStart_ne_loopEnd).append ihn

/-- The links of a tree that is placed in a program are those of the instructions. -/
theorem exists_partner_of_follows {program : Program} {t : LoopTree} {place : Nat}
    (hf : Follows program.fetch? place t.flatten)
    (hp : Follows program.partner? place (t.links place)) {k : Nat} (hk : place ≤ k)
    (hlt : k < place + t.size) :
    ∃ q, program.partner? k = some q ∧
      Instruction.Partner program.instructions.toList k q := by
  induction t generalizing place with
  | done => exact absurd hlt (Nat.not_lt_of_le hk)
  | command c next ih =>
    rcases Nat.lt_or_eq_of_le hk with hk | rfl
    · exact ih hf.tail hp.tail hk (by rw [size] at hlt; omega)
    · exact ⟨_, hp.head, .command (Array.getElem?_toList.trans hf.head)
        (not_isBracket_instruction c)⟩
  | loop body next ihb ihn =>
    have hfn := hf.past (length_flatten body)
    have hpn := hp.past (length_links body _)
    have hpair := hf.pairs body.balanced_flatten
    rw [length_flatten] at hpair
    rw [size] at hlt
    -- the opening bracket, the body, the closing bracket, or what follows the loop
    rcases Nat.lt_or_eq_of_le hk with hk | rfl
    · rcases Nat.lt_trichotomy k (place + body.size + 1) with hin | rfl | hout
      · exact ihb hf.tail.append_left hp.tail.append_left hk (by omega)
      · exact ⟨place, hpn.head, .loopEnd hpair⟩
      · exact ihn hfn.tail hpn.tail hout (by omega)
    · exact ⟨_, hp.head, .loopStart hpair⟩

end LoopTree

namespace Program

/-- A loop from one place to another, with every link inside it staying inside. -/
structure Loop (program : Program) (i j : Nat) : Prop where
  lt : i < j
  starts : program.fetch? i = some .loopStart
  ends : program.fetch? j = some .loopEnd
  there : program.partner? i = some j
  back : program.partner? j = some i
  inside : ∀ k x, i < k → k < j → program.fetch? k = some x → x.IsBracket →
    ∃ l, program.partner? k = some l ∧ i < l ∧ l < j

/-- The table links the brackets of loops that do not cross, and anything else with itself. -/
structure ProperlyNested (program : Program) : Prop where
  size_partners : program.partners.size = program.size
  partner?_command : ∀ i x, program.fetch? i = some x → ¬ x.IsBracket →
    program.partner? i = some i
  loop_loopStart : ∀ i, program.fetch? i = some .loopStart → ∃ j, program.Loop i j
  loop_loopEnd : ∀ j, program.fetch? j = some .loopEnd → ∃ i, program.Loop i j
  partner?_eq_none_iff : ∀ i, program.partner? i = none ↔ program.size ≤ i

/-- No link leads out of the places from one up to another. -/
def Closed (program : Program) (i j : Nat) : Prop :=
  ∀ k l, i ≤ k → k < j → program.partner? k = some l → i ≤ l ∧ l < j

variable {program : Program} {i j m : Nat}

namespace ProperlyNested

theorem exists_fetch? (h : program.ProperlyNested) (hp : program.partner? i = some j) :
    ∃ x, program.fetch? i = some x := by
  have hi : i < program.size := by
    refine Nat.lt_of_not_le fun hle => ?_
    rw [(h.partner?_eq_none_iff i).mpr hle] at hp
    cases hp
  exact ⟨_, Array.getElem?_eq_getElem hi⟩

/-- A link leads back to where it comes from. -/
theorem back (h : program.ProperlyNested) (hp : program.partner? i = some j) :
    program.partner? j = some i := by
  obtain ⟨x, hx⟩ := h.exists_fetch? hp
  by_cases hb : x.IsBracket
  · rcases hb with rfl | rfl
    · obtain ⟨k, hk⟩ := h.loop_loopStart i hx
      cases hk.there.symm.trans hp
      exact hk.back
    · obtain ⟨k, hk⟩ := h.loop_loopEnd i hx
      cases hk.back.symm.trans hp
      exact hk.there
  · cases (h.partner?_command i x hx hb).symm.trans hp
    exact hp

theorem closed_command (h : program.ProperlyNested) {x : Instruction}
    (hx : program.fetch? i = some x) (hb : ¬ x.IsBracket) : program.Closed i (i + 1) := by
  intro k l hik hki hp
  cases Nat.le_antisymm hik (Nat.le_of_lt_succ hki)
  cases (h.partner?_command i x hx hb).symm.trans hp
  exact ⟨hik, hki⟩

theorem closed_body (h : program.ProperlyNested) (hl : program.Loop i j) :
    program.Closed (i + 1) j := by
  intro k l hik hkj hp
  obtain ⟨x, hx⟩ := h.exists_fetch? hp
  by_cases hb : x.IsBracket
  · obtain ⟨l, hkl, hil, hlj⟩ := hl.inside k x hik hkj hx hb
    cases hkl.symm.trans hp
    exact ⟨hil, hlj⟩
  · cases (h.partner?_command k x hx hb).symm.trans hp
    exact ⟨hik, hkj⟩

theorem closed_loop (h : program.ProperlyNested) (hl : program.Loop i j) :
    program.Closed i (j + 1) := by
  have hij := hl.lt
  intro k l hik hkj hp
  rcases Nat.lt_or_eq_of_le hik with hik | rfl
  · rcases Nat.lt_or_eq_of_le (Nat.le_of_lt_succ hkj) with hkj | rfl
    · have hin := h.closed_body hl k l hik hkj hp
      omega
    · cases hl.back.symm.trans hp
      omega
  · cases hl.there.symm.trans hp
    omega

/-- What is left of closed places without a closed front is closed. -/
theorem closed_rest (h : program.ProperlyNested) (him : i ≤ m) (hfront : program.Closed i m)
    (hall : program.Closed i j) : program.Closed m j := by
  intro k l hmk hkj hp
  obtain ⟨hil, hlj⟩ := hall k l (Nat.le_trans him hmk) hkj hp
  refine ⟨Nat.le_of_not_lt fun hlm => ?_, hlj⟩
  have hkm := (hfront l k hil hlm (h.back hp)).2
  omega

/-- Closed places hold balanced brackets: the first of them is a command or opens a loop, and what
follows that is closed again. -/
theorem balanced_extract (h : program.ProperlyNested) (hij : i ≤ j) (hj : j ≤ program.size)
    (hc : program.Closed i j) :
    Balanced .loopStart .loopEnd (program.instructions.toList.extract i j) := by
  have hne := Instruction.loopStart_ne_loopEnd
  induction hn : j - i using Nat.strongRecOn generalizing i j with
  | ind n ih =>
    rcases Nat.lt_or_eq_of_le hij with hlt | rfl
    · obtain ⟨x, hx⟩ : ∃ x, program.fetch? i = some x :=
        ⟨_, Array.getElem?_eq_getElem (Nat.lt_of_lt_of_le hlt hj)⟩
      have hat := Array.getElem?_toList.trans hx
      by_cases hb : x.IsBracket
      · rcases hb with rfl | rfl
        · obtain ⟨k, hl⟩ := h.loop_loopStart i hx
          have hik := hl.lt
          have hkj := (hc i k (Nat.le_refl i) hlt hl.there).2
          have hbody := ih (k - (i + 1)) (by omega) hik (by omega) (h.closed_body hl) rfl
          have hpair : Pairs .loopStart .loopEnd program.instructions.toList i k :=
            ⟨hik, hat, Array.getElem?_toList.trans hl.ends, hbody⟩
          have hrest := ih (j - (k + 1)) (by omega) hkj hj
            (h.closed_rest (by omega) (h.closed_loop hl) hc) rfl
          exact (hpair.balanced_extract hne).extract_append (by omega) hkj hrest
        · obtain ⟨k, hl⟩ := h.loop_loopEnd i hx
          have hik := (hc i k (Nat.le_refl i) hlt hl.back).1
          exact (Nat.not_le_of_lt hl.lt hik).elim
      · have hfirst := balanced_extract_of_other hat (fun e => hb (.inl e)) fun e => hb (.inr e)
        have hrest := ih (j - (i + 1)) (by omega) hlt hj
          (h.closed_rest (Nat.le_succ i) (h.closed_command hx hb) hc) rfl
        exact hfirst.extract_append (Nat.le_succ i) hlt hrest
    · rw [List.extract_eq_take_drop, Nat.sub_self, List.take_zero]
      exact balanced_nil

/-- The brackets that a table links belong together, whatever else it links. -/
theorem pairs (h : program.ProperlyNested) (hl : program.Loop i j) :
    Pairs .loopStart .loopEnd program.instructions.toList i j where
  lt := hl.lt
  opens := Array.getElem?_toList.trans hl.starts
  closes := Array.getElem?_toList.trans hl.ends
  between := by
    have hj : j < program.size := (Array.getElem?_eq_some_iff.mp hl.ends).1
    exact h.balanced_extract hl.lt (Nat.le_of_lt hj) (h.closed_body hl)

end ProperlyNested

/-- Every entry of the table is the partner that the instructions tell. -/
def LinksPartners (program : Program) : Prop :=
  ∀ i < program.size, ∃ j, program.partner? i = some j ∧
    Instruction.Partner program.instructions.toList i j

theorem LinksPartners.partner?_eq (h : program.LinksPartners)
    (hp : Instruction.Partner program.instructions.toList i j) : program.partner? i = some j := by
  obtain ⟨k, hk, hpk⟩ := h i hp.lt_length
  rw [hk, hp.unique hpk]

theorem LinksPartners.loop (h : program.LinksPartners)
    (hp : Pairs .loopStart .loopEnd program.instructions.toList i j) : program.Loop i j where
  lt := hp.lt
  starts := Array.getElem?_toList.symm.trans hp.opens
  ends := Array.getElem?_toList.symm.trans hp.closes
  there := h.partner?_eq (.loopStart hp)
  back := h.partner?_eq (.loopEnd hp)
  inside := by
    intro k x hik hkj hk hx
    have hne := Instruction.loopStart_ne_loopEnd
    have hk := Array.getElem?_toList.trans hk
    obtain ⟨l, hl, hpl⟩ := h k (List.getElem?_eq_some_iff.mp hk).1
    refine ⟨l, hl, ?_⟩
    rcases hx with rfl | rfl
    · have hpair := hpl.pairs_of_loopStart hk
      exact ⟨Nat.lt_trans hik hpair.lt, hp.lt_of_opens hne hpair hik hkj⟩
    · have hpair := hpl.pairs_of_loopEnd hk
      exact ⟨hp.lt_of_closes hne hpair hik hkj, Nat.lt_trans hpair.lt hkj⟩

theorem properlyNested_iff :
    program.ProperlyNested ↔ program.partners.size = program.size ∧ program.LinksPartners := by
  constructor
  · intro h
    refine ⟨h.size_partners, fun i hi => ?_⟩
    obtain ⟨x, hx⟩ : ∃ x, program.fetch? i = some x :=
      ⟨program.instructions[i], Array.getElem?_eq_getElem hi⟩
    by_cases hb : x.IsBracket
    · rcases hb with rfl | rfl
      · obtain ⟨j, hj⟩ := h.loop_loopStart i hx
        exact ⟨j, hj.there, .loopStart (h.pairs hj)⟩
      · obtain ⟨j, hj⟩ := h.loop_loopEnd i hx
        exact ⟨j, hj.back, .loopEnd (h.pairs hj)⟩
    · exact ⟨i, h.partner?_command i x hx hb, .command (Array.getElem?_toList.trans hx) hb⟩
  · rintro ⟨hsize, h⟩
    have hat : ∀ {i x}, program.fetch? i = some x → ∃ j,
        Instruction.Partner program.instructions.toList i j := by
      intro i x hx
      obtain ⟨j, -, hp⟩ := h i (Array.getElem?_eq_some_iff.mp hx).1
      exact ⟨j, hp⟩
    exact {
      size_partners := hsize
      partner?_command := fun i x hx hb =>
        h.partner?_eq (.command (Array.getElem?_toList.trans hx) hb)
      loop_loopStart := by
        intro i hi
        obtain ⟨j, hp⟩ := hat hi
        exact ⟨j, h.loop (hp.pairs_of_loopStart (Array.getElem?_toList.trans hi))⟩
      loop_loopEnd := by
        intro j hj
        obtain ⟨i, hp⟩ := hat hj
        exact ⟨i, h.loop (hp.pairs_of_loopEnd (Array.getElem?_toList.trans hj))⟩
      partner?_eq_none_iff := by
        intro i
        rw [partner?, Array.getElem?_eq_none_iff, hsize] }

/-- Two tables for the same instructions that are both properly nested are the same. -/
theorem ProperlyNested.partners_eq (h : program.ProperlyNested) {partners : Array Nat}
    (g : ProperlyNested ⟨program.instructions, partners⟩) : partners = program.partners := by
  obtain ⟨hsize, hlinks⟩ := properlyNested_iff.mp h
  obtain ⟨gsize, glinks⟩ := properlyNested_iff.mp g
  apply Array.ext_getElem?
  intro i
  by_cases hi : i < program.size
  · obtain ⟨j, hj, hp⟩ := glinks i hi
    exact hj.trans (hlinks.partner?_eq hp).symm
  · have hle := Nat.le_of_not_lt hi
    exact ((g.partner?_eq_none_iff i).mpr hle).trans ((h.partner?_eq_none_iff i).mpr hle).symm

theorem ProperlyNested.involutive (h : program.ProperlyNested) (hi : i < program.size) :
    ∃ j < program.size, program.partner? i = some j ∧ program.partner? j = some i := by
  obtain ⟨j, hj, hp⟩ := (properlyNested_iff.mp h).2 i hi
  exact ⟨j, hp.symm.lt_length, hj, h.back hj⟩

theorem properlyNested_program (t : LoopTree) : t.program.ProperlyNested := by
  refine properlyNested_iff.mpr ⟨by simp [LoopTree.program, size], fun i hi => ?_⟩
  have hlt : i < 0 + t.size := by rwa [Nat.zero_add, ← LoopTree.size_program]
  exact LoopTree.exists_partner_of_follows t.follows_fetch? t.follows_partner? (Nat.zero_le i) hlt

/-- The table that comes with a program is properly nested, with balanced brackets in every loop,
leads back from every partner, and is the only table for its instructions that is properly
nested. -/
theorem parse_properlyNested {source : String} (h : parse source = .ok program) :
    program.ProperlyNested ∧
      (∀ i j, program.Loop i j →
        Balanced .loopStart .loopEnd (program.instructions.toList.extract (i + 1) j)) ∧
      (∀ i < program.size, ∃ j < program.size,
        program.partner? i = some j ∧ program.partner? j = some i) ∧
      ∀ partners : Array Nat, ProperlyNested ⟨program.instructions, partners⟩ →
        partners = program.partners := by
  obtain ⟨t, -, rfl⟩ := (ofBytes_eq_ok_iff _ _).mp h
  have hnested := properlyNested_program t
  exact ⟨hnested, fun i j hl => (hnested.pairs hl).between, fun i hi => hnested.involutive hi,
    fun partners hg => hnested.partners_eq hg⟩

/-- A loop in a loop, a comment, and a loop after both. -/
theorem parse_properlyNested_loops :
    parse "+[>[-] inner <],[.]" =
      .ok ⟨#[.increment, .loopStart, .right, .loopStart, .decrement, .loopEnd, .left, .loopEnd,
        .input, .loopStart, .output, .loopEnd], #[0, 7, 2, 5, 4, 3, 6, 1, 8, 11, 10, 9]⟩ ∧
    ∀ partners : Array Nat, ProperlyNested ⟨#[.increment, .loopStart, .right, .loopStart,
        .decrement, .loopEnd, .left, .loopEnd, .input, .loopStart, .output, .loopEnd],
          partners⟩ ↔ partners = #[0, 7, 2, 5, 4, 3, 6, 1, 8, 11, 10, 9] := by
  have h : parse "+[>[-] inner <],[.]" =
      .ok ⟨#[.increment, .loopStart, .right, .loopStart, .decrement, .loopEnd, .left, .loopEnd,
        .input, .loopStart, .output, .loopEnd], #[0, 7, 2, 5, 4, 3, 6, 1, 8, 11, 10, 9]⟩ := rfl
  obtain ⟨hnested, -, -, hunique⟩ := parse_properlyNested h
  exact ⟨h, fun partners => ⟨hunique partners, fun he => he ▸ hnested⟩⟩

end Program

end TapeCalc
