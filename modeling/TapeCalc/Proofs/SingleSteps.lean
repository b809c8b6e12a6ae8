import TapeCalc.Proofs.Calls
import TapeCalc.Proofs.StepLimit

/-!
# Single steps and runs to the end

A run to the end is single steps up to the first that does not advance, so it can be taken up after
any number of them: it comes to what it would have come to from the start, or to nothing if it would
have come to nothing. The end of the program is where steps and runs leave everything as it is.
-/
namespace TapeCalc

def Outcome.fault? : Outcome → Option Fault
  | .failed fault => some fault
  | _ => none

namespace State

/-- What so many calls for one step return. -/
def answers (program : Program) (limit : Option Nat) : Nat → State → List Outcome
  | 0, _ => []
  | n + 1, s => (s.step program limit).1 :: answers program limit n (s.step program limit).2

/-- A run to the end returns this result and leaves this state. -/
def ComesTo (program : Program) (limit : Option Nat) (s : State)
    (ending : Except Fault Unit × State) : Prop :=
  ∃ fuel, s.runToEnd program limit fuel = some ending

variable {program : Program} {limit : Option Nat} {s t : State}
  {ending : Except Fault Unit × State}

theorem comesTo_iff_of_advanced (h : s.step program limit = (.advanced, t)) :
    s.ComesTo program limit ending ↔ t.ComesTo program limit ending := by
  constructor
  · rintro ⟨fuel, hrun⟩
    cases fuel with
    | zero => cases hrun
    | succ fuel => exact ⟨fuel, (runToEnd_of_advanced h fuel).symm.trans hrun⟩
  · rintro ⟨fuel, hrun⟩
    exact ⟨fuel + 1, (runToEnd_of_advanced h fuel).trans hrun⟩

theorem comesTo_iff_of_ending {result : Except Fault Unit}
    (h : s.step program limit = (.ending result, t)) :
    s.ComesTo program limit ending ↔ ending = (result, t) := by
  have hrun := runToEnd_of_ending h 0
  refine ⟨fun ⟨fuel, hf⟩ => runToEnd_unique hf hrun, ?_⟩
  rintro rfl
  exact ⟨1, hrun⟩

/-- What a run to the end comes to, seen from what any number of single steps return. -/
theorem comesTo_of_answers (program : Program) (limit : Option Nat) (n : Nat) (s : State) :
    match (s.answers program limit n).findSome? Outcome.fault? with
    | none => ∀ ending, (s.after program limit n).ComesTo program limit ending ↔
        s.ComesTo program limit ending
    | some fault => ∃ t, ∀ ending, s.ComesTo program limit ending ↔ ending = (.error fault, t) := by
  induction n generalizing s with
  | zero => exact fun _ => Iff.rfl
  | succ n ih =>
    have hrest := ih (s.step program limit).2
    rw [answers, after]
    cases hs : s.step program limit with
    | mk outcome t =>
      rw [hs] at hrest
      cases outcome with
      | advanced =>
        simp only [List.findSome?_cons, Outcome.fault?, comesTo_iff_of_advanced hs]
        exact hrest
      | finished =>
        obtain ⟨-, rfl⟩ := eq_of_step_finished hs
        simp only [List.findSome?_cons, Outcome.fault?]
        exact hrest
      | failed fault =>
        have hfailed : s.step program limit = (.ending (.error fault), t) := hs
        exact ⟨t, fun ending => comesTo_iff_of_ending hfailed⟩

/-- Where a step ends a run and changes nothing, no call does anything else. -/
theorem Call.eq_of_step_self {outcome : Outcome} {result : Except Fault Unit}
    (hs : s.step program limit = (.ending result, s)) (h : Call program limit outcome s t) :
    outcome = .ending result ∧ t = s := by
  cases h with
  | step h =>
    rw [hs] at h
    cases h
    exact ⟨rfl, rfl⟩
  | runToEnd h =>
    cases runToEnd_unique h (runToEnd_of_ending hs 0)
    exact ⟨rfl, rfl⟩

theorem Calls.eq_of_step_self {outcomes : List Outcome} {result : Except Fault Unit}
    (hs : s.step program limit = (.ending result, s)) (h : Calls program limit outcomes s t) :
    t = s ∧ ∀ outcome ∈ outcomes, outcome = .ending result := by
  induction h with
  | nil => exact ⟨rfl, nofun⟩
  | cons hcall _ ih =>
    obtain ⟨rfl, rfl⟩ := hcall.eq_of_step_self hs
    obtain ⟨rfl, hall⟩ := ih hs
    exact ⟨rfl, List.forall_mem_cons.mpr ⟨rfl, hall⟩⟩

/-- At the end of the program every call returns at once, and leaves everything as it is. -/
structure AtRest (program : Program) (s : State) : Prop where
  returns : ∀ limit fuel, s.runToEnd program limit (fuel + 1) = some (.ok (), s)
  stays : ∀ limit outcomes t, Calls program limit outcomes s t →
    t = s ∧ ∀ outcome ∈ outcomes, outcome = .finished

theorem atRest_of_isFinished (h : s.isFinished program = true) : AtRest program s where
  returns limit fuel := runToEnd_of_ending (step_of_isFinished limit h) fuel
  stays limit _ _ hcalls := by
    have hself : s.step program limit = (.ending (.ok ()), s) := step_of_isFinished limit h
    exact hcalls.eq_of_step_self hself

/-- Calls for one step and runs to the end can be exchanged for one another. -/
structure Interchangeable (program : Program) (limit : Option Nat) (s : State) : Prop where
  resumes : ∀ n, (s.answers program limit n).findSome? Outcome.fault? = none →
    ∀ ending, (s.after program limit n).ComesTo program limit ending ↔
      s.ComesTo program limit ending
  fails : ∀ n fault, (s.answers program limit n).findSome? Outcome.fault? = some fault →
    ∃ t, ∀ ending, s.ComesTo program limit ending ↔ ending = (.error fault, t)
  finished_iff : (s.step program limit).1 = .finished ↔ s.isFinished program = true
  rests : s.isFinished program = true → AtRest program s

/-- In any state of a run, the first one among them, it makes no difference how many steps are
called for one by one before the rest is run; and a step reports the end of the program exactly
where nothing changes any more. -/
theorem interchangeable (program : Program) (limit : Option Nat) (s : State) :
    Interchangeable program limit s where
  resumes n h := by
    have := comesTo_of_answers program limit n s
    rwa [h] at this
  fails n fault h := by
    have := comesTo_of_answers program limit n s
    rwa [h] at this
  finished_iff := by
    refine ⟨fun h => ?_, fun h => by rw [step_of_isFinished limit h]⟩
    exact (eq_of_step_finished (Prod.ext h rfl)).1
  rests := atRest_of_isFinished

/-- A run that needs all the steps of its limit is finished there, not refused. -/
example : (State.initial 1 []).answers ⟨#[.increment], #[0]⟩ (some 1) 3 =
    [.advanced, .finished, .finished] := by decide

end State

end TapeCalc
