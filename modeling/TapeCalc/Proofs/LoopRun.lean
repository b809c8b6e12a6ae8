import Mathlib.Tactic.ByContra
import TapeCalc.Proofs.LoopTree
import TapeCalc.Tape

/-!
# Runs of loop trees

The meaning of a tree without places or jumps: commands act in order, and a loop runs its body
while the current cell is not zero, with a test before every pass. A run ends, sticks at a read
without input, or goes on for ever.
-/
namespace TapeCalc

/-- What a program works on. -/
structure Store where
  tape : Tape
  unread : List UInt8
  output : Array UInt8
  deriving DecidableEq

namespace Store

def initial (tapeSize : Nat) (input : List UInt8) : Store := ⟨Tape.blank tapeSize, input, #[]⟩

def current (a : Store) : UInt8 := a.tape.read

end Store

/-- The effect of a command; a read without input has none. -/
def Command.act : Command → Store → Option Store
  | right, a => some { a with tape := a.tape.moveRight }
  | left, a => some { a with tape := a.tape.moveLeft }
  | increment, a => some { a with tape := a.tape.increment }
  | decrement, a => some { a with tape := a.tape.decrement }
  | output, a => some { a with output := a.output.push a.tape.read }
  | input, a =>
    match a.unread with
    | [] => none
    | b :: rest => some { a with tape := a.tape.write b, unread := rest }

namespace LoopTree

/-- The run of a tree ends, in a store. -/
inductive Runs : LoopTree → Store → Store → Prop
  | done (a : Store) : Runs .done a a
  | command {c : Command} {next : LoopTree} {a b e : Store} (act : c.act a = some b)
      (rest : Runs next b e) : Runs (.command c next) a e
  | skip {body next : LoopTree} {a e : Store} (zero : a.current = 0) (rest : Runs next a e) :
      Runs (.loop body next) a e
  | again {body next : LoopTree} {a b e : Store} (nonzero : a.current ≠ 0)
      (pass : Runs body a b) (rest : Runs (.loop body next) b e) : Runs (.loop body next) a e

/-- The run of a tree sticks at a read, so many places into its code. -/
inductive Sticks : LoopTree → Store → Nat → Prop
  | here {c : Command} {next : LoopTree} {a : Store} (act : c.act a = none) :
      Sticks (.command c next) a 0
  | command {c : Command} {next : LoopTree} {a b : Store} {i : Nat} (act : c.act a = some b)
      (rest : Sticks next b i) : Sticks (.command c next) a (i + 1)
  | skip {body next : LoopTree} {a : Store} {i : Nat} (zero : a.current = 0)
      (rest : Sticks next a i) : Sticks (.loop body next) a (body.size + 2 + i)
  | inside {body next : LoopTree} {a : Store} {i : Nat} (nonzero : a.current ≠ 0)
      (pass : Sticks body a i) : Sticks (.loop body next) a (i + 1)
  | again {body next : LoopTree} {a b : Store} {i : Nat} (nonzero : a.current ≠ 0)
      (pass : Runs body a b) (rest : Sticks (.loop body next) b i) :
      Sticks (.loop body next) a i

/-- How a run that never ends goes on to another one. -/
def Prolongs (X : LoopTree → Store → Prop) : LoopTree → Store → Prop
  | .done, _ => False
  | .command c next, a => ∃ b, c.act a = some b ∧ X next b
  | .loop body next, a =>
    (a.current = 0 ∧ X next a) ∨
      a.current ≠ 0 ∧ (X body a ∨ ∃ b, Runs body a b ∧ X (.loop body next) b)

/-- The run of a tree never ends: the greatest property that goes on to itself. -/
def Diverges (t : LoopTree) (a : Store) : Prop :=
  ∃ X : LoopTree → Store → Prop, (∀ u b, X u b → Prolongs X u b) ∧ X t a

theorem Diverges.prolongs {t : LoopTree} {a : Store} (h : Diverges t a) :
    Prolongs Diverges t a := by
  obtain ⟨X, hX, ha⟩ := h
  have hsub : ∀ u b, X u b → Diverges u b := fun u b hb => ⟨X, hX, hb⟩
  have hstep := hX t a ha
  cases t with
  | done => exact hstep
  | command c next =>
    obtain ⟨b, hb, hn⟩ := hstep
    exact ⟨b, hb, hsub _ _ hn⟩
  | loop body next =>
    rcases hstep with ⟨hz, hn⟩ | ⟨hz, hb | ⟨b, hb, hn⟩⟩
    · exact .inl ⟨hz, hsub _ _ hn⟩
    · exact .inr ⟨hz, .inl (hsub _ _ hb)⟩
    · exact .inr ⟨hz, .inr ⟨b, hb, hsub _ _ hn⟩⟩

/-- A run that neither ends nor sticks never ends. -/
theorem runs_or_sticks_or_diverges (t : LoopTree) (a : Store) :
    (∃ e, t.Runs a e) ∨ (∃ i, t.Sticks a i) ∨ t.Diverges a := by
  by_contra hno
  simp only [not_or, not_exists] at hno
  obtain ⟨hr, hs, hd⟩ := hno
  -- neither to end nor to stick goes on to itself
  refine hd ⟨fun u b => (∀ e, ¬ u.Runs b e) ∧ ∀ i, ¬ u.Sticks b i, ?_, hr, hs⟩
  rintro u b ⟨hr, hs⟩
  cases u with
  | done => exact hr b (.done b)
  | command c next =>
    cases hc : c.act b with
    | none => exact (hs 0 (.here hc)).elim
    | some d =>
      exact ⟨d, hc, fun e he => hr e (.command hc he), fun i hi => hs _ (.command hc hi)⟩
  | loop body next =>
    by_cases hz : b.current = 0
    · exact .inl ⟨hz, fun e he => hr e (.skip hz he), fun i hi => hs _ (.skip hz hi)⟩
    · refine .inr ⟨hz, ?_⟩
      by_cases hb : ∃ d, body.Runs b d
      · obtain ⟨d, hd⟩ := hb
        exact .inr ⟨d, hd, fun e he => hr e (.again hz hd he), fun i hi => hs _ (.again hz hd hi)⟩
      · exact .inl ⟨fun e he => hb ⟨e, he⟩, fun i hi => hs _ (.inside hz hi)⟩

/-- A loop that ends hands its store to what follows it. -/
theorem Runs.loop_then {body next : LoopTree} {a b e : Store} (h : Runs (.loop body .done) a b)
    (rest : Runs next b e) : Runs (.loop body next) a e := by
  generalize ht : LoopTree.loop body .done = t at h
  induction h with
  | done => cases ht
  | command => cases ht
  | skip zero hdone =>
    cases ht
    cases hdone
    exact .skip zero rest
  | again nonzero pass _ _ ih =>
    cases ht
    exact .again nonzero pass (ih rest rfl)

end LoopTree

end TapeCalc
