import TapeCalc.Proofs.LoopRun
import TapeCalc.Proofs.Reading
import TapeCalc.Proofs.Steps

/-!
# Jumps and loops

The tape machine follows the loops of the tree that its program flattens. A bracket only tests
the current cell, so a loop may be entered at either of its brackets: jumping back to the place
after the opening one is the test before the next pass.
-/
namespace TapeCalc

/-- The code of a tree stands in a program from a place on, with its brackets linked. -/
def LoopTree.Placed (program : Program) : LoopTree → Nat → Prop
  | .done, _ => True
  | .command c next, place =>
    program.fetch? place = some c.instruction ∧ Placed program next (place + 1)
  | .loop body next, place =>
    (program.fetch? place = some .loopStart ∧
      program.partner? place = some (place + body.size + 1)) ∧
    (program.fetch? (place + body.size + 1) = some .loopEnd ∧
      program.partner? (place + body.size + 1) = some place) ∧
    Placed program body (place + 1) ∧ Placed program next (place + body.size + 2)

/-- The places from which the machine runs a tree that starts at a place. -/
def LoopTree.Entry : LoopTree → Nat → Nat → Prop
  | .loop body _, start, place => place = start ∨ place = start + body.size + 1
  | _, start, place => place = start

theorem LoopTree.entry_self (t : LoopTree) (start : Nat) : t.Entry start start := by
  cases t with
  | done => rfl
  | command c next => rfl
  | loop body next => exact .inl rfl

/-- The entries of a table from a place on. -/
def Follows {α : Type} (table : Nat → Option α) (place : Nat) (xs : List α) : Prop :=
  ∀ i < xs.length, table (place + i) = xs[i]?

namespace Follows

variable {α : Type} {table : Nat → Option α} {place : Nat} {x : α} {xs ys : List α}

theorem head (h : Follows table place (x :: xs)) : table place = some x := h 0 (by simp)

theorem tail (h : Follows table place (x :: xs)) : Follows table (place + 1) xs := by
  intro i hi
  have := h (i + 1) (by simpa using hi)
  rwa [Nat.add_comm i 1, ← Nat.add_assoc, Nat.add_comm 1 i, List.getElem?_cons_succ] at this

theorem append_left (h : Follows table place (xs ++ ys)) : Follows table place xs := by
  intro i hi
  rw [h i (by simp; omega), List.getElem?_append_left hi]

theorem append_right (h : Follows table place (xs ++ ys)) :
    Follows table (place + xs.length) ys := by
  intro i hi
  rw [Nat.add_assoc, h (xs.length + i) (by simp; omega),
    List.getElem?_append_right (Nat.le_add_right ..), Nat.add_sub_cancel_left]

/-- The entries after the body of a loop. -/
theorem past {n : Nat} (h : Follows table place (x :: (xs ++ ys))) (hn : xs.length = n) :
    Follows table (place + n + 1) ys := by
  rw [← hn, Nat.add_right_comm]
  exact h.tail.append_right

end Follows

namespace LoopTree

theorem placed_of_follows {program : Program} {t : LoopTree} {place : Nat}
    (hf : Follows program.fetch? place t.flatten)
    (hp : Follows program.partner? place (t.links place)) : t.Placed program place := by
  induction t generalizing place with
  | done => trivial
  | command c next ih => exact ⟨hf.head, ih hf.tail hp.tail⟩
  | loop body next ihb ihn =>
    have hfn := hf.past (length_flatten body)
    have hpn := hp.past (length_links body _)
    exact ⟨⟨hf.head, hp.head⟩, ⟨hfn.head, hpn.head⟩, ihb hf.tail.append_left hp.tail.append_left,
      ihn hfn.tail hpn.tail⟩

theorem follows_fetch? (t : LoopTree) : Follows t.program.fetch? 0 t.flatten := by
  intro i _
  simp [program, Program.fetch?]

theorem follows_partner? (t : LoopTree) : Follows t.program.partner? 0 (t.links 0) := by
  intro i _
  simp [program, Program.partner?]

theorem placed_program (t : LoopTree) : t.Placed t.program 0 :=
  placed_of_follows t.follows_fetch? t.follows_partner?

theorem fetch?_size_program (t : LoopTree) : t.program.fetch? t.size = none := by
  simp [program, Program.fetch?]

end LoopTree

namespace State

def store (s : State) : Store := ⟨s.tape, s.unread, s.output⟩

variable {program : Program} {s : State}

theorem step_command {c : Command} {b : Store} (hf : program.fetch? s.place = some c.instruction)
    (hc : c.act s.store = some b) :
    ∃ t, s.step program none = (.advanced, t) ∧ t.place = s.place + 1 ∧ t.store = b := by
  rw [step_of_fetch hf]
  cases c with
  | input =>
    cases hu : s.unread with
    | nil => simp [Command.act, store, hu] at hc
    | cons x rest =>
      simp only [Command.act, store, hu, Option.some.injEq] at hc
      refine ⟨(s.execute program .input).2, ?_, ?_, ?_⟩ <;>
        simp [Command.instruction, execute, perform, hu, store, ← hc]
  | _ => exact ⟨_, rfl, rfl, Option.some.inj hc⟩

theorem step_stuck {c : Command} (hf : program.fetch? s.place = some c.instruction)
    (hc : c.act s.store = none) :
    ∃ t, s.step program none = (.failed (.inputExhausted s.place), t) := by
  rw [step_of_fetch hf]
  cases c with
  | input =>
    cases hu : s.unread with
    | nil =>
      exact ⟨(s.execute program .input).2, by simp [Command.instruction, execute, perform, hu]⟩
    | cons x rest => simp [Command.act, store, hu] at hc
  | _ => simp [Command.act] at hc

/-- Either bracket of a loop tests the current cell: past the loop or to the start of its body. -/
theorem step_test {body rest : LoopTree} {start : Nat}
    (hp : (LoopTree.loop body rest).Placed program start)
    (he : (LoopTree.loop body rest).Entry start s.place) :
    ∃ t, s.step program none = (.advanced, t) ∧ t.store = s.store ∧
      t.place = if s.store.current = 0 then start + body.size + 2 else start + 1 := by
  obtain ⟨⟨hopen, hclose⟩, ⟨hend, hback⟩, _⟩ := hp
  rcases he with he | he
  · rw [step_of_fetch (he ▸ hopen)]
    refine ⟨_, rfl, ?_⟩
    by_cases hz : s.tape.read = 0
    · simp [hz, jump, store, Store.current, he, hclose]
    · simp [hz, State.next, store, Store.current, he]
  · rw [step_of_fetch (he ▸ hend)]
    refine ⟨_, rfl, ?_⟩
    by_cases hz : s.tape.read = 0
    · simp [hz, State.next, store, Store.current, he]
    · simp [hz, jump, store, Store.current, he, hback]

end State

namespace LoopTree

open State

variable {program : Program} {t : LoopTree} {start : Nat} {s : State}

/-- The machine follows a run that ends to the end of the tree's code. -/
theorem Runs.steps {a b : Store} (h : t.Runs a b) (hp : t.Placed program start)
    (he : t.Entry start s.place) (hs : s.store = a) :
    ∃ n u, Steps program none n s u ∧ u.place = start + t.size ∧ u.store = b := by
  induction h generalizing start s with
  | done a => exact ⟨0, s, .zero s, he, hs⟩
  | command act rest ih =>
    obtain ⟨u, hu, hplace, hstore⟩ := step_command (he ▸ hp.1) (hs ▸ act)
    obtain ⟨n, v, hv, hend, hb⟩ := ih hp.2 (hplace ▸ he ▸ entry_self ..) hstore
    exact ⟨n + 1, v, .succ hu hv, by rw [hend, size]; omega, hb⟩
  | skip zero rest ih =>
    obtain ⟨u, hu, hstore, hplace⟩ := step_test hp he
    rw [hs, if_pos zero] at hplace
    obtain ⟨n, v, hv, hend, hb⟩ := ih hp.2.2.2 (hplace ▸ entry_self ..) (hstore.trans hs)
    exact ⟨n + 1, v, .succ hu hv, by rw [hend, size]; omega, hb⟩
  | again nonzero pass rest ihp ihr =>
    obtain ⟨u, hu, hstore, hplace⟩ := step_test hp he
    rw [hs, if_neg nonzero] at hplace
    obtain ⟨m, v, hv, hend, hb⟩ := ihp hp.2.2.1 (hplace ▸ entry_self ..) (hstore.trans hs)
    -- the pass ends at the closing bracket, where the loop may be entered again
    obtain ⟨n, w, hw, hlast, he⟩ := ihr hp (.inr (by rw [hend]; omega)) hb
    exact ⟨m + n + 1, w, .succ hu (hv.trans hw), hlast, he⟩

/-- The machine follows a run that sticks to the read without input. -/
theorem Sticks.steps {a : Store} {i : Nat} (h : t.Sticks a i) (hp : t.Placed program start)
    (he : t.Entry start s.place) (hs : s.store = a) :
    ∃ n u v, Steps program none n s u ∧
      u.step program none = (.failed (.inputExhausted (start + i)), v) := by
  induction h generalizing start s with
  | here act =>
    obtain ⟨v, hv⟩ := step_stuck (he ▸ hp.1) (hs ▸ act)
    exact ⟨0, s, v, .zero s, he ▸ hv⟩
  | command act rest ih =>
    obtain ⟨u, hu, hplace, hstore⟩ := step_command (he ▸ hp.1) (hs ▸ act)
    obtain ⟨n, v, w, hv, hw⟩ := ih hp.2 (hplace ▸ he ▸ entry_self ..) hstore
    exact ⟨n + 1, v, w, .succ hu hv, by rw [hw, Nat.add_right_comm]; rfl⟩
  | skip zero rest ih =>
    obtain ⟨u, hu, hstore, hplace⟩ := step_test hp he
    rw [hs, if_pos zero] at hplace
    obtain ⟨n, v, w, hv, hw⟩ := ih hp.2.2.2 (hplace ▸ entry_self ..) (hstore.trans hs)
    exact ⟨n + 1, v, w, .succ hu hv, by rw [hw]; simp [Nat.add_assoc]⟩
  | inside nonzero pass ih =>
    obtain ⟨u, hu, hstore, hplace⟩ := step_test hp he
    rw [hs, if_neg nonzero] at hplace
    obtain ⟨n, v, w, hv, hw⟩ := ih hp.2.2.1 (hplace ▸ entry_self ..) (hstore.trans hs)
    exact ⟨n + 1, v, w, .succ hu hv, by rw [hw, Nat.add_right_comm]; rfl⟩
  | again nonzero pass rest ih =>
    obtain ⟨u, hu, hstore, hplace⟩ := step_test hp he
    rw [hs, if_neg nonzero] at hplace
    obtain ⟨m, v, hv, hend, hb⟩ :=
      pass.steps hp.2.2.1 (hplace ▸ entry_self ..) (hstore.trans hs)
    obtain ⟨n, w, x, hw, hx⟩ := ih hp (.inr (by rw [hend]; omega)) hb
    exact ⟨m + n + 1, w, x, .succ hu (hv.trans hw), hx⟩

/-- The machine follows a run that never ends for at least one step, to another one. -/
theorem Diverges.advances (h : t.Diverges s.store) (hp : t.Placed program start)
    (he : t.Entry start s.place) :
    ∃ (n : Nat) (u : State) (after : LoopTree) (place : Nat), Steps program none (n + 1) s u ∧
      after.Diverges u.store ∧ after.Placed program place ∧ after.Entry place u.place := by
  have hgo := h.prolongs
  cases t with
  | done => exact hgo.elim
  | command c next =>
    obtain ⟨b, hb, hn⟩ := hgo
    obtain ⟨u, hu, hplace, rfl⟩ := step_command (he ▸ hp.1) hb
    exact ⟨0, u, next, start + 1, .one hu, hn, hp.2, hplace ▸ he ▸ entry_self ..⟩
  | loop body next =>
    obtain ⟨u, hu, hstore, hplace⟩ := step_test hp he
    rcases hgo with ⟨hz, hn⟩ | ⟨hz, hb⟩
    · rw [if_pos hz] at hplace
      exact ⟨0, u, next, _, .one hu, hstore ▸ hn, hp.2.2.2, hplace ▸ entry_self ..⟩
    · rw [if_neg hz] at hplace
      rcases hb with hb | ⟨b, hb, hn⟩
      · exact ⟨0, u, body, _, .one hu, hstore ▸ hb, hp.2.2.1, hplace ▸ entry_self ..⟩
      · obtain ⟨m, v, hv, hend, rfl⟩ := hb.steps hp.2.2.1 (hplace ▸ entry_self ..) hstore
        exact ⟨m, v, .loop body next, start, .succ hu hv, hn, hp, .inr (by rw [hend]; omega)⟩

theorem Diverges.steps (h : t.Diverges s.store) (hp : t.Placed program start)
    (he : t.Entry start s.place) (n : Nat) : ∃ m u, n ≤ m ∧ Steps program none m s u := by
  induction n generalizing t start s with
  | zero => exact ⟨0, s, Nat.le_refl _, .zero s⟩
  | succ n ih =>
    obtain ⟨m, u, after, place, hu, ha, hp, he⟩ := h.advances hp he
    obtain ⟨l, v, hl, hv⟩ := ih ha hp he
    exact ⟨m + 1 + l, v, by omega, hu.trans hv⟩

variable {tapeSize : Nat} {input : List UInt8}

theorem Runs.runToEnd {b : Store} (h : t.Runs (.initial tapeSize input) b) :
    ∃ fuel u, (State.initial tapeSize input).runToEnd t.program none fuel = some (.ok (), u) ∧
      u.store = b := by
  obtain ⟨n, u, hu, hplace, hb⟩ :=
    h.steps (s := State.initial tapeSize input) t.placed_program (entry_self ..) rfl
  rw [Nat.zero_add] at hplace
  have hend : u.step t.program none = (.ending (.ok ()), u) :=
    step_of_fetch_none (hplace ▸ t.fetch?_size_program)
  exact ⟨n + 1, u, (hu.runToEnd 1).trans (runToEnd_of_ending hend 0), hb⟩

theorem Sticks.runToEnd {i : Nat} (h : t.Sticks (.initial tapeSize input) i) :
    ∃ fuel u, (State.initial tapeSize input).runToEnd t.program none fuel =
      some (.error (.inputExhausted i), u) := by
  obtain ⟨n, u, v, hu, hv⟩ :=
    h.steps (s := State.initial tapeSize input) t.placed_program (entry_self ..) rfl
  rw [Nat.zero_add] at hv
  exact ⟨n + 1, v, (hu.runToEnd 1).trans (runToEnd_of_ending hv 0)⟩

theorem Diverges.runToEnd (h : t.Diverges (.initial tapeSize input)) (fuel : Nat) :
    (State.initial tapeSize input).runToEnd t.program none fuel = none :=
  runToEnd_eq_none
    (h.steps (s := State.initial tapeSize input) t.placed_program (entry_self ..)) fuel

/-- The machine ends in a store exactly if the tree's run does. -/
theorem runToEnd_eq_ok_iff (t : LoopTree) (tapeSize : Nat) (input : List UInt8) (b : Store) :
    (∃ fuel u, (State.initial tapeSize input).runToEnd t.program none fuel = some (.ok (), u) ∧
      u.store = b) ↔ t.Runs (.initial tapeSize input) b := by
  refine ⟨?_, Runs.runToEnd⟩
  rintro ⟨fuel, u, hu, rfl⟩
  rcases t.runs_or_sticks_or_diverges (.initial tapeSize input) with ⟨b, hb⟩ | ⟨i, hi⟩ | hd
  · obtain ⟨_, v, hv, rfl⟩ := hb.runToEnd
    cases runToEnd_unique hu hv
    exact hb
  · obtain ⟨_, v, hv⟩ := hi.runToEnd
    cases runToEnd_unique hu hv
  · rw [hd.runToEnd] at hu
    cases hu

theorem runToEnd_eq_inputExhausted_iff (t : LoopTree) (tapeSize : Nat) (input : List UInt8)
    (i : Nat) :
    (∃ fuel u, (State.initial tapeSize input).runToEnd t.program none fuel =
      some (.error (.inputExhausted i), u)) ↔ t.Sticks (.initial tapeSize input) i := by
  refine ⟨?_, Sticks.runToEnd⟩
  rintro ⟨fuel, u, hu⟩
  rcases t.runs_or_sticks_or_diverges (.initial tapeSize input) with ⟨b, hb⟩ | ⟨j, hj⟩ | hd
  · obtain ⟨_, v, hv, _⟩ := hb.runToEnd
    cases runToEnd_unique hu hv
  · obtain ⟨_, v, hv⟩ := hj.runToEnd
    cases runToEnd_unique hu hv
    exact hj
  · rw [hd.runToEnd] at hu
    cases hu

theorem runToEnd_eq_none_iff (t : LoopTree) (tapeSize : Nat) (input : List UInt8) :
    (∀ fuel, (State.initial tapeSize input).runToEnd t.program none fuel = none) ↔
      t.Diverges (.initial tapeSize input) := by
  refine ⟨fun h => ?_, Diverges.runToEnd⟩
  rcases t.runs_or_sticks_or_diverges (.initial tapeSize input) with ⟨b, hb⟩ | ⟨i, hi⟩ | hd
  · obtain ⟨fuel, v, hv, _⟩ := hb.runToEnd
    rw [h fuel] at hv
    cases hv
  · obtain ⟨fuel, v, hv⟩ := hi.runToEnd
    rw [h fuel] at hv
    cases hv
  · exact hd

end LoopTree

/-- Without a limit the machine ends, fails and goes on for ever on a program exactly as the run
of a tree ends, sticks and goes on for ever. -/
structure Program.Follows (program : Program) (t : LoopTree) (tapeSize : Nat)
    (input : List UInt8) : Prop where
  ends : ∀ output tape,
    (∃ fuel u, ((⟨tapeSize, none⟩ : Machine).start input).runToEnd program none fuel =
        some (.ok (), u) ∧
      (⟨tapeSize, none⟩ : Machine).execute fuel program input = some (.ok u.report) ∧
      u.report.output = output ∧ u.tape = tape) ↔
    ∃ b, t.Runs (.initial tapeSize input) b ∧ b.output.toList = output ∧ b.tape = tape
  sticks : ∀ i,
    (∃ fuel, (⟨tapeSize, none⟩ : Machine).execute fuel program input =
      some (.error (.inputExhausted i))) ↔
    t.Sticks (.initial tapeSize input) i
  diverges :
    (∀ fuel, (⟨tapeSize, none⟩ : Machine).execute fuel program input = none) ↔
    t.Diverges (.initial tapeSize input)

theorem LoopTree.follows_program (t : LoopTree) (tapeSize : Nat) (input : List UInt8) :
    t.program.Follows t tapeSize input where
  ends output tape := by
    constructor
    · rintro ⟨fuel, u, hu, _, ho, ht⟩
      exact ⟨u.store, (t.runToEnd_eq_ok_iff ..).mp ⟨fuel, u, hu, rfl⟩, ho, ht⟩
    · rintro ⟨b, hb, ho, ht⟩
      obtain ⟨fuel, u, hu, rfl⟩ := hb.runToEnd
      exact ⟨fuel, u, hu, Machine.execute_of_runToEnd hu, ho, ht⟩
  sticks i := by
    rw [← t.runToEnd_eq_inputExhausted_iff]
    exact exists_congr fun fuel => Machine.execute_eq_error_iff
  diverges := by
    rw [← t.runToEnd_eq_none_iff]
    exact forall_congr' fun fuel => Machine.execute_eq_none_iff

/-- Every program that is read flattens exactly one tree, and the machine follows its runs. -/
theorem Program.parse_follows_unique_tree {source : String} {program : Program}
    (h : Program.parse source = .ok program) :
    ∃ t : LoopTree, t.flatten = program.instructions.toList ∧
      (∀ u : LoopTree, u.flatten = program.instructions.toList → u = t) ∧
      ∀ tapeSize input, program.Follows t tapeSize input := by
  obtain ⟨t, _, rfl⟩ := (Program.ofBytes_eq_ok_iff _ _).mp h
  have ht : t.flatten = t.program.instructions.toList := by simp [LoopTree.program]
  exact ⟨t, ht, fun u hu => LoopTree.flatten_injective (hu.trans ht.symm), t.follows_program⟩

/-- The program that copies its input up to a zero byte. -/
theorem Program.parse_follows_unique_tree_copy :
    Program.parse ",[.,]" =
      .ok ⟨#[.input, .loopStart, .output, .input, .loopEnd], #[0, 4, 2, 3, 1]⟩ ∧
    ∃ t : LoopTree, t.flatten = [.input, .loopStart, .output, .input, .loopEnd] ∧
      (∀ u : LoopTree, u.flatten = [.input, .loopStart, .output, .input, .loopEnd] → u = t) ∧
      ∀ tapeSize input, Program.Follows
        ⟨#[.input, .loopStart, .output, .input, .loopEnd], #[0, 4, 2, 3, 1]⟩ t tapeSize input := by
  have h : Program.parse ",[.,]" =
      .ok ⟨#[.input, .loopStart, .output, .input, .loopEnd], #[0, 4, 2, 3, 1]⟩ := rfl
  exact ⟨h, Program.parse_follows_unique_tree h⟩

end TapeCalc
