import TapeCalc.Proofs.Nesting
import TapeCalc.Proofs.RoundTrip

/-!
# Transfer loops

A loop that takes one off the current cell and whose body comes back to that cell without changing
it otherwise. Each pass changes the other cells by the same amounts, wherever on the ring the body
meets them, so the loop changes every cell once for each unit of the current one, which it leaves at
zero.
-/
namespace TapeCalc

namespace State

open Instruction

/-- Nothing is read and nothing is written, and so many jumps are counted. -/
structure Silent (jumps : Nat) (s t : State) : Prop where
  unread_eq : t.unread = s.unread
  output_eq : t.output = s.output
  consumed_eq : t.counters.consumed = s.counters.consumed
  produced_eq : t.counters.produced = s.counters.produced
  jumps_eq : t.counters.jumps = s.counters.jumps + jumps

theorem Silent.refl (s : State) : Silent 0 s s := ⟨rfl, rfl, rfl, rfl, rfl⟩

theorem Silent.trans {j k : Nat} {s t u : State} (h : Silent j s t) (g : Silent k t u) :
    Silent (j + k) s u where
  unread_eq := g.unread_eq.trans h.unread_eq
  output_eq := g.output_eq.trans h.output_eq
  consumed_eq := g.consumed_eq.trans h.consumed_eq
  produced_eq := g.produced_eq.trans h.produced_eq
  jumps_eq := by rw [g.jumps_eq, h.jumps_eq, Nat.add_assoc]

/-- So many silent steps, all of them taken from places between two places. -/
structure Stretch (program : Program) (low high n jumps : Nat) (s t : State) : Prop where
  steps : Steps program none n s t
  silent : Silent jumps s t
  inside : ∀ m < n, low ≤ (s.after program none m).place ∧ (s.after program none m).place ≤ high

variable {program : Program} {low high : Nat} {s t u : State}

theorem Steps.after_eq {limit : Option Nat} {n : Nat} (h : Steps program limit n s t) :
    s.after program limit n = t := by
  induction h with
  | zero => rfl
  | succ hs _ ih => rw [after, hs, ih]

theorem Stretch.refl (s : State) : Stretch program low high 0 0 s s :=
  ⟨.zero s, .refl s, nofun⟩

theorem Stretch.one {jumps : Nat} (h : s.step program none = (.advanced, t))
    (hs : Silent jumps s t) (hlow : low ≤ s.place) (hhigh : s.place ≤ high) :
    Stretch program low high 1 jumps s t where
  steps := .one h
  silent := hs
  inside m hm := by
    obtain rfl : m = 0 := Nat.lt_one_iff.mp hm
    exact ⟨hlow, hhigh⟩

theorem Stretch.trans {m n j k : Nat} (h : Stretch program low high m j s t)
    (g : Stretch program low high n k t u) : Stretch program low high (m + n) (j + k) s u where
  steps := h.steps.trans g.steps
  silent := h.silent.trans g.silent
  inside i hi := by
    rcases Nat.lt_or_ge i m with him | hmi
    · exact h.inside i him
    · obtain ⟨i, rfl⟩ := Nat.exists_eq_add_of_le hmi
      rw [after_add, h.steps.after_eq]
      exact g.inside i (Nat.lt_of_add_lt_add_left hi)

section one

variable {i : Instruction} (hi : program.fetch? s.place = some i) (hlow : low ≤ s.place)
  (hhigh : s.place ≤ high)

include hi hlow hhigh

theorem stretch_operation {op : Tape.Operation} (h : i.operation? = some op) :
    ∃ t, Stretch program low high 1 0 s t ∧ t.place = s.place + 1 ∧ t.tape = s.tape.act op := by
  refine ⟨{ s.counted i with tape := s.tape.act op, place := s.place + 1 },
    .one ?_ ⟨rfl, rfl, rfl, rfl, rfl⟩ hlow hhigh, rfl, rfl⟩
  rw [step_of_fetch hi]
  cases i <;> cases h <;> rfl

theorem stretch_pass (h : i.Passes s.tape.read) :
    ∃ t, Stretch program low high 1 0 s t ∧ t.place = s.place + 1 ∧ t.tape = s.tape := by
  refine ⟨(s.counted i).next, .one ?_ ⟨rfl, rfl, rfl, rfl, rfl⟩ hlow hhigh, rfl, rfl⟩
  rw [step_of_fetch hi]
  generalize hc : s.tape.read = c at h
  cases h with
  | loopStart nonzero => simp [execute, perform, counted, hc, nonzero]
  | loopEnd => simp [execute, perform, counted, hc]

theorem stretch_jump {j : Nat} (hj : program.partner? s.place = some j)
    (h : i.Jumps s.tape.read) :
    ∃ t, Stretch program low high 1 1 s t ∧ t.place = j + 1 ∧ t.tape = s.tape := by
  refine ⟨(s.counted i).jump program, .one ?_ ⟨rfl, rfl, rfl, rfl, rfl⟩ hlow hhigh, ?_, rfl⟩
  · rw [step_of_fetch hi]
    generalize hc : s.tape.read = c at h
    cases h with
    | loopStart => simp [execute, perform, counted, hc]
    | loopEnd nonzero => simp [execute, perform, counted, hc, nonzero]
  · simp [jump, counted, hj]

end one

/-- Code without brackets, input and output does its operations to the tape, one after another. -/
theorem stretch_operations {code : List Instruction} (hf : Follows program.fetch? s.place code)
    (hops : ∀ i ∈ code, i.operation?.isSome) (hlow : low ≤ s.place)
    (hhigh : s.place + code.length ≤ high + 1) :
    ∃ t, Stretch program low high code.length 0 s t ∧ t.place = s.place + code.length ∧
      t.tape = s.tape.acts (operations code) := by
  induction code generalizing s with
  | nil => exact ⟨s, .refl s, rfl, rfl⟩
  | cons i code ih =>
    rw [List.length_cons] at hhigh ⊢
    obtain ⟨op, hop⟩ := Option.isSome_iff_exists.mp (hops i (List.mem_cons_self ..))
    have hhere : s.place ≤ high := by omega
    obtain ⟨t, hst, hplace, htape⟩ := stretch_operation hf.head hlow hhere hop
    have hlater : t.place + code.length ≤ high + 1 := by omega
    obtain ⟨u, htu, hend, hacts⟩ := ih (hplace ▸ hf.tail)
      (fun x hx => hops x (List.mem_cons_of_mem i hx)) (by omega) hlater
    refine ⟨u, Nat.add_comm 1 code.length ▸ hst.trans htu, by omega, ?_⟩
    rw [hacts, htape, operations, operations, List.filterMap_cons_some hop]
    rfl

end State

open Tape.Operation

namespace Instruction

/-- What code that starts at a cell of a ring counts at the one so many places to its right. -/
def change (size : Nat) (code : List Instruction) (distance : Nat) : Int :=
  balance (performedAt size distance (operations code))

/-- Code that moves and counts, and comes back to the cell where it starts with nothing counted
there. -/
structure IsTransfer (size : Nat) (body : List Instruction) : Prop where
  operation?_isSome : ∀ i ∈ body, i.operation?.isSome
  displacement_eq : displacement (operations body) % size = 0
  change_zero : change size body 0 % 256 = 0

theorem not_isBracket_of_operation? {i : Instruction} (h : i.operation?.isSome) :
    ¬ i.IsBracket := by
  rintro (rfl | rfl) <;> cases h

theorem change_decrement (size : Nat) (body : List Instruction) (distance : Nat) :
    change size (.decrement :: body) distance =
      (if distance = 0 then -1 else 0) + change size body distance := by
  have hops : operations (.decrement :: body) = .decrement :: operations body := rfl
  rw [change, hops, performedAt_cons rfl, balance_append, change]
  split <;> rfl

/-- With the decrement in front of it the body of a transfer counts down. -/
theorem IsTransfer.countsDown {size : Nat} {body : List Instruction} (h : IsTransfer size body) :
    Tape.CountsDown size (operations (.decrement :: body)) where
  written?_eq _ := written?_of_mem_operations
  displacement_eq := by
    have hops : operations (.decrement :: body) = [.decrement] ++ operations body := rfl
    have hstay : displacement [.decrement] = 0 := rfl
    rw [hops, displacement_append, hstay, Int.zero_add, h.displacement_eq]
  balance_eq := by
    have hzero := h.change_zero
    rw [← change, change_decrement, if_pos rfl]
    omega

end Instruction

/-- The brackets around code without brackets are linked. -/
theorem Follows.loop {program : Program} {place : Nat} {code : List Instruction}
    (hf : Follows program.fetch? place (.loopStart :: (code ++ [.loopEnd])))
    (hcode : ∀ i ∈ code, ¬ i.IsBracket) (hp : program.ProperlyNested) :
    program.Loop place (place + code.length + 1) := by
  have hbalanced : Brackets.Balanced Instruction.loopStart .loopEnd code :=
    Brackets.balanced_of_not_mem (fun hm => hcode _ hm (.inl rfl)) fun hm => hcode _ hm (.inr rfl)
  exact (Program.properlyNested_iff.mp hp).2.loop (hf.pairs hbalanced)

namespace State

open Instruction

section passes

variable {program : Program} {code : List Instruction} {start finish : Nat} {s : State}
  (hl : program.Loop start finish) (hf : Follows program.fetch? (start + 1) code)
  (hfinish : finish = start + code.length + 1) (hops : ∀ i ∈ code, i.operation?.isSome)

include hf hfinish hops in
/-- A pass goes from the first instruction of the loop to its closing bracket. -/
theorem exists_stretch_pass (hplace : s.place = start + 1) :
    ∃ t, Stretch program start finish code.length 0 s t ∧ t.place = finish ∧
      t.tape = s.tape.acts (operations code) := by
  have hlow : start ≤ s.place := by omega
  have hhigh : s.place + code.length ≤ finish + 1 := by omega
  obtain ⟨t, hst, htplace, httape⟩ := stretch_operations (hplace ▸ hf) hops hlow hhigh
  exact ⟨t, hst, by omega, httape⟩

include hl hf hfinish hops

/-- From its first instruction a loop that counts down is gone through until the current cell is
zero. Each pass ends at the closing bracket, and each but the last with a jump back. -/
theorem exists_stretch_passes {n : Nat} (hdown : Tape.CountsDown s.tape.size (operations code))
    (hplace : s.place = start + 1) (hread : s.tape.read.toNat = n + 1) :
    ∃ t, Stretch program start finish ((n + 1) * (code.length + 1)) n s t ∧
      t.place = finish + 1 ∧ t.tape = (fun u => u.acts (operations code))^[n + 1] s.tape := by
  have hstart : start ≤ finish := Nat.le_of_lt hl.lt
  -- a pass and the jump back lead to the same place with one unit less in the current cell
  induction n generalizing s with
  | zero =>
    obtain ⟨t, hst, rfl, httape⟩ := exists_stretch_pass hf hfinish hops hplace
    have hzero : t.tape.read = 0 := by
      rw [httape, ← UInt8.toNat_inj, hdown.toNat_read_acts (hread ▸ Nat.one_pos), hread]
      rfl
    obtain ⟨u, htu, huplace, hutape⟩ :=
      stretch_pass hl.ends hstart (Nat.le_refl _) (hzero ▸ .loopEnd)
    exact ⟨u, (Nat.one_mul _).symm ▸ hst.trans htu, huplace, hutape.trans httape⟩
  | succ n ih =>
    obtain ⟨t, hst, rfl, httape⟩ := exists_stretch_pass hf hfinish hops hplace
    have hleft : t.tape.read.toNat = n + 1 := by
      rw [httape, hdown.toNat_read_acts (hread ▸ Nat.succ_pos _), hread]
      rfl
    have hagain : t.tape.read ≠ 0 := fun hz => by
      rw [hz] at hleft
      cases hleft
    obtain ⟨u, htu, huplace, hutape⟩ :=
      stretch_jump hl.ends hstart (Nat.le_refl _) hl.back (.loopEnd hagain)
    have hsize : u.tape.size = s.tape.size := by rw [hutape, httape, Tape.size_acts]
    obtain ⟨w, huw, hwplace, hwtape⟩ := ih (hsize ▸ hdown) huplace (hutape ▸ hleft)
    have hsteps : (n + 1 + 1) * (code.length + 1) =
        code.length + 1 + (n + 1) * (code.length + 1) := by
      rw [Nat.succ_mul, Nat.add_comm]
    have hjumps : n + 1 = 0 + 1 + n := by omega
    have hall := (hst.trans htu).trans huw
    rw [← hsteps, ← hjumps] at hall
    refine ⟨w, hall, hwplace, ?_⟩
    rw [hwtape, hutape, httape, Function.iterate_succ_apply _ (n + 1)]

end passes

/-- What a state at a transfer loop with the given body has come to when the loop is done. It takes
one step for the opening bracket, and for each unit of the current cell those of a pass. -/
structure Transfers (program : Program) (body : List Instruction) (s t : State) : Prop where
  run : Stretch program s.place (s.place + body.length + 2)
    (1 + s.tape.read.toNat * (body.length + 2))
    (if s.tape.read = 0 then 1 else s.tape.read.toNat - 1) s t
  place_eq : t.place = s.place + body.length + 3
  size_eq : t.tape.size = s.tape.size
  pointer_eq : t.tape.pointer = s.tape.pointer
  read_eq : t.tape.read = 0
  toNat_ahead : ∀ distance, 0 < distance → distance < s.tape.size →
    ((t.tape.ahead distance).toNat : Int) = ((s.tape.ahead distance).toNat +
      s.tape.read.toNat * change s.tape.size body distance) % 256

/-- The passes of a transfer loop empty the current cell, and change every other cell by what the
body counts there. -/
theorem transfers_of_tape_eq {program : Program} {body : List Instruction} {s t : State}
    (hbody : IsTransfer s.tape.size body)
    (hrun : Stretch program s.place (s.place + body.length + 2)
      (1 + s.tape.read.toNat * (body.length + 2))
      (if s.tape.read = 0 then 1 else s.tape.read.toNat - 1) s t)
    (hplace : t.place = s.place + body.length + 3)
    (htape : t.tape =
      (fun u => u.acts (operations (.decrement :: body)))^[s.tape.read.toNat] s.tape) :
    Transfers program body s t := by
  have htrips := hbody.countsDown.trips s.tape.read.toNat
  rw [← htape] at htrips
  refine ⟨hrun, hplace, htrips.size_eq, htrips.pointer_eq, hbody.countsDown.read_eq_zero htrips,
    fun distance hpos hd => ?_⟩
  have hcell := htrips.toNat_ahead distance hd
  rwa [← change, change_decrement, if_neg (Nat.ne_of_gt hpos), Int.zero_add] at hcell

/-- In a program that is read, a transfer loop is done from any state at its opening bracket, on any
tape on which its body comes back and leaves the current cell as it finds it. -/
theorem exists_transfers {source : String} {program : Program} {body : List Instruction}
    {s : State} (h : Program.parse source = .ok program)
    (hf : Follows program.fetch? s.place (.loopStart :: .decrement :: (body ++ [.loopEnd])))
    (hbody : IsTransfer s.tape.size body) : ∃ t, Transfers program body s t := by
  obtain ⟨tree, -, rfl⟩ := (Program.ofBytes_eq_ok_iff _ _).mp h
  have hcode : Follows tree.program.fetch? s.place
      (.loopStart :: (.decrement :: body ++ [.loopEnd])) := hf
  have hops : ∀ i ∈ Instruction.decrement :: body, i.operation?.isSome :=
    List.forall_mem_cons.mpr ⟨rfl, hbody.operation?_isSome⟩
  have hl : tree.program.Loop s.place (s.place + body.length + 2) :=
    hcode.loop (fun i hi => not_isBracket_of_operation? (hops i hi))
      (Program.properlyNested_program tree)
  have hlt := Nat.le_of_lt hl.lt
  by_cases hz : s.tape.read = 0
  · obtain ⟨t, hst, hplace, htape⟩ :=
      stretch_jump hl.starts (Nat.le_refl _) hlt hl.there (hz ▸ .loopStart)
    refine ⟨t, transfers_of_tape_eq hbody ?_ hplace ?_⟩
    · rw [if_pos hz, hz]
      simpa using hst
    · rw [hz]
      exact htape
  · obtain ⟨n, hn⟩ : ∃ n, s.tape.read.toNat = n + 1 :=
      Nat.exists_eq_succ_of_ne_zero fun h0 => hz (UInt8.toNat_inj.mp h0)
    obtain ⟨t, hst, hplace, htape⟩ :=
      stretch_pass hl.starts (Nat.le_refl _) hlt (.loopStart hz)
    obtain ⟨u, htu, huplace, hutape⟩ := exists_stretch_passes hl hcode.tail.append_left rfl hops
      (htape ▸ hbody.countsDown) hplace (htape ▸ hn)
    refine ⟨u, transfers_of_tape_eq hbody ?_ huplace ?_⟩
    · rw [if_neg hz, hn, Nat.add_sub_cancel]
      have hall := hst.trans htu
      rwa [Nat.zero_add] at hall
    · rw [hutape, htape, hn]

/-- On a ring of two cells a body comes back without a move to the left. -/
theorem exists_transfers_ring : ∃ program t, Program.parse ",[->+>] round" = .ok program ∧
    Transfers program [.right, .increment, .right] ⟨⟨#[254, 3], 1, by decide⟩, 1, [7], #[9], {}⟩ t ∧
    t.place = 7 ∧ t.tape.read = 0 ∧ t.tape.ahead 1 = 1 := by
  have hparse : Program.parse ",[->+>] round" =
      .ok ⟨#[.input, .loopStart, .decrement, .right, .increment, .right, .loopEnd],
        #[0, 6, 2, 3, 4, 5, 1]⟩ := rfl
  have hcode : Follows
      (Program.mk #[.input, .loopStart, .decrement, .right, .increment, .right, .loopEnd]
        #[0, 6, 2, 3, 4, 5, 1]).fetch? 1
      (.loopStart :: .decrement :: ([.right, .increment, .right] ++ [.loopEnd])) := by
    unfold Follows
    decide
  have hbody : IsTransfer 2 [.right, .increment, .right] := ⟨by decide, rfl, rfl⟩
  obtain ⟨t, ht⟩ := exists_transfers (s := ⟨⟨#[254, 3], 1, by decide⟩, 1, [7], #[9], {}⟩)
    hparse hcode hbody
  have hcell := ht.toNat_ahead 1 (by decide) (by decide)
  exact ⟨_, t, hparse, ht, ht.place_eq, ht.read_eq,
    UInt8.toNat_inj.mp (Int.natCast_inj.mp hcell)⟩

end State

end TapeCalc
