import TapeCalc.Proofs.SingleSteps

/-!
# Calls after a failure

A step that fails leaves the run where it is. At the limit it changes nothing at all; a read without
input is counted and changes nothing else, so that it is tried again by every later call until the
limit, if there is one, is reached. No call succeeds any more.
-/
namespace TapeCalc.State

/-- The next instruction is a read, and there is no input left. -/
structure Starves (program : Program) (s : State) : Prop where
  fetch : program.fetch? s.place = some .input
  empty : s.unread = []

/-- How a read without input fails when so many steps are counted. -/
def refusal (limit : Option Nat) (place steps : Nat) : Fault :=
  match limit with
  | none => .inputExhausted place
  | some most => if most ≤ steps then .stepLimitExceeded most else .inputExhausted place

/-- The states differ in nothing but so many reads that are counted. -/
structure Recounts (reads : Nat) (s t : State) : Prop where
  tape_eq : t.tape = s.tape
  place_eq : t.place = s.place
  unread_eq : t.unread = s.unread
  output_eq : t.output = s.output
  jumps_eq : t.counters.jumps = s.counters.jumps
  consumed_eq : t.counters.consumed = s.counters.consumed
  produced_eq : t.counters.produced = s.counters.produced
  steps_eq : t.counters.steps = s.counters.steps + reads
  reads_eq : t.counters.count .input = s.counters.count .input + reads
  others_eq : ∀ i ≠ .input, t.counters.count i = s.counters.count i

namespace Recounts

variable {s t u : State} {m n : Nat}

theorem refl (s : State) : Recounts 0 s s :=
  ⟨rfl, rfl, rfl, rfl, rfl, rfl, rfl, rfl, rfl, fun _ _ => rfl⟩

theorem counted (s : State) : Recounts 1 s (s.counted .input) where
  tape_eq := rfl
  place_eq := rfl
  unread_eq := rfl
  output_eq := rfl
  jumps_eq := rfl
  consumed_eq := rfl
  produced_eq := rfl
  steps_eq := rfl
  reads_eq := by rw [State.counted, Counters.count_record, if_pos rfl]
  others_eq i hi := by rw [State.counted, Counters.count_record, if_neg hi]

theorem trans (h : Recounts m s t) (g : Recounts n t u) : Recounts (m + n) s u where
  tape_eq := g.tape_eq.trans h.tape_eq
  place_eq := g.place_eq.trans h.place_eq
  unread_eq := g.unread_eq.trans h.unread_eq
  output_eq := g.output_eq.trans h.output_eq
  jumps_eq := g.jumps_eq.trans h.jumps_eq
  consumed_eq := g.consumed_eq.trans h.consumed_eq
  produced_eq := g.produced_eq.trans h.produced_eq
  steps_eq := by rw [g.steps_eq, h.steps_eq, Nat.add_assoc]
  reads_eq := by rw [g.reads_eq, h.reads_eq, Nat.add_assoc]
  others_eq i hi := (g.others_eq i hi).trans (h.others_eq i hi)

theorem starves {program : Program} (h : Recounts n s t) (hs : s.Starves program) :
    t.Starves program :=
  ⟨h.place_eq ▸ hs.fetch, h.unread_eq.trans hs.empty⟩

end Recounts

variable {program : Program} {limit : Option Nat} {s t u : State} {outcome : Outcome}
  {outcomes : List Outcome} {fault : Fault}

/-- A step fails at the limit, with no change, or at a read without input, which is counted. -/
theorem cases_of_step_failed (h : s.step program limit = (.failed fault, t)) :
    (∃ most, limit = some most ∧ fault = .stepLimitExceeded most ∧ t = s) ∨
      s.Starves program ∧ fault = .inputExhausted s.place ∧ t = s.counted .input := by
  rcases step_cases h with ⟨_, ho, _⟩ | ⟨_, most, _, hl, _, ho, rfl⟩ | ⟨i, hi, _, he⟩
  · cases ho
  · cases ho
    exact .inl ⟨most, hl, rfl, rfl⟩
  · cases effect_of_execute he with
    | starve empty => exact .inr ⟨⟨hi, empty⟩, rfl, rfl⟩

namespace Starves

/-- The next step fails, and counts the read unless the limit is reached. -/
theorem step (h : s.Starves program) (limit : Option Nat) :
    ∃ t, s.step program limit = (.failed (refusal limit s.place s.counters.steps), t) ∧
      Recounts (Outcome.exhaustions [.failed (refusal limit s.place s.counters.steps)]) s t := by
  have hexecute : s.execute program .input =
      (.failed (.inputExhausted s.place), s.counted .input) := by
    simp [execute, perform, counted, h.empty]
  cases limit with
  | none => exact ⟨_, (step_of_fetch h.fetch).trans hexecute, .counted s⟩
  | some most =>
    by_cases hm : most ≤ s.counters.steps
    · rw [refusal, if_pos hm]
      have hstep : s.step program (some most) = (.failed (.stepLimitExceeded most), s) := by
        simp [State.step, h.fetch, hm]
      exact ⟨s, hstep, .refl s⟩
    · rw [refusal, if_neg hm]
      have hlt : ∀ n, some most = some n → s.counters.steps < n := by
        rintro n ⟨⟩
        exact Nat.lt_of_not_le hm
      exact ⟨_, (step_eq_execute h.fetch hlt).trans hexecute, .counted s⟩

theorem call (hs : s.Starves program) (h : Call program limit outcome s t) :
    outcome = .failed (refusal limit s.place s.counters.steps) ∧
      Recounts (Outcome.exhaustions [outcome]) s t := by
  obtain ⟨u, hstep, hu⟩ := hs.step limit
  cases h with
  | step h =>
    rw [hstep] at h
    cases h
    exact ⟨rfl, hu⟩
  | runToEnd h =>
    have hfailed : s.step program limit =
      (.ending (.error (refusal limit s.place s.counters.steps)), u) := hstep
    cases runToEnd_unique h (runToEnd_of_ending hfailed 0)
    exact ⟨rfl, hu⟩

theorem calls (hs : s.Starves program) (h : Calls program limit outcomes s t) :
    Recounts (Outcome.exhaustions outcomes) s t ∧
      ∀ outcome ∈ outcomes, ∃ fault, outcome = .failed fault := by
  induction h with
  | nil s => exact ⟨.refl s, nofun⟩
  | cons hcall _ ih =>
    obtain ⟨rfl, hfirst⟩ := hs.call hcall
    obtain ⟨hrest, hall⟩ := ih (hfirst.starves hs)
    rw [Outcome.exhaustions_cons]
    exact ⟨hfirst.trans hrest, List.forall_mem_cons.mpr ⟨⟨_, rfl⟩, hall⟩⟩

end Starves

/-- A failed call leaves a run at its limit, or before a read without input. -/
theorem Call.starves_or_exceeded (h : Call program limit (.failed fault) s t) :
    (∃ most, fault = .stepLimitExceeded most ∧
        t.step program limit = (.ending (.error fault), t)) ∨
      t.Starves program ∧ fault = .inputExhausted t.place := by
  obtain ⟨_, u, -, hlast⟩ := h.exists_steps
  rcases cases_of_step_failed hlast with ⟨most, _, rfl, rfl⟩ | ⟨hs, rfl, rfl⟩
  · exact .inl ⟨most, rfl, hlast⟩
  · exact .inr ⟨(Recounts.counted u).starves hs, rfl⟩

/-- What the calls after a failure return, and what they change. -/
structure FailuresStick (program : Program) (limit : Option Nat) (s : State) : Prop where
  exceeded : ∀ most t, s.step program limit = (.failed (.stepLimitExceeded most), t) →
    limit = some most ∧ t = s ∧ ∀ outcomes u, Calls program limit outcomes s u →
      u = s ∧ ∀ outcome ∈ outcomes, outcome = .failed (.stepLimitExceeded most)
  exhausted : ∀ i t, s.step program limit = (.failed (.inputExhausted i), t) →
    i = s.place ∧ Recounts 1 s t
  repeats : ∀ i t, Call program limit (.failed (.inputExhausted i)) s t →
    ∀ outcomes u, Calls program limit outcomes t u →
      Recounts (Outcome.exhaustions outcomes) t u ∧
      ∀ outcome v, Call program limit outcome u v →
        outcome = .failed (refusal limit i u.counters.steps)
  fails : ∀ fault t, Call program limit (.failed fault) s t →
    ∀ outcomes u, Calls program limit outcomes t u →
      (∀ outcome ∈ outcomes, ∃ later, outcome = .failed later) ∧
      ∀ fuel, ∃ later v, u.runToEnd program limit (fuel + 1) = some (.error later, v)

/-- A step at the limit changes nothing and is refused for good. A read without input is counted
and changes nothing else; each later call repeats it until the limit is reached, and is refused
there. After a first failure every call fails. -/
theorem failuresStick (program : Program) (limit : Option Nat) (s : State) :
    FailuresStick program limit s where
  exceeded most t h := by
    rcases cases_of_step_failed h with ⟨most, hl, ⟨⟩, rfl⟩ | ⟨_, ho, _⟩
    · have hself : t.step program limit = (.ending (.error (.stepLimitExceeded most)), t) := h
      exact ⟨hl, rfl, fun _ _ hcalls => hcalls.eq_of_step_self hself⟩
    · cases ho
  exhausted i t h := by
    rcases cases_of_step_failed h with ⟨_, _, ho, _⟩ | ⟨_, ⟨⟩, rfl⟩
    · cases ho
    · exact ⟨rfl, .counted s⟩
  repeats i t h outcomes u hcalls := by
    rcases h.starves_or_exceeded with ⟨_, ho, _⟩ | ⟨ht, ⟨⟩⟩
    · cases ho
    · have hu := (ht.calls hcalls).1
      refine ⟨hu, fun outcome w hcall => ?_⟩
      have houtcome := ((hu.starves ht).call hcall).1
      rwa [hu.place_eq] at houtcome
  fails fault t h outcomes u hcalls := by
    rcases h.starves_or_exceeded with ⟨_, _, hself⟩ | ⟨ht, -⟩
    · obtain ⟨rfl, hall⟩ := hcalls.eq_of_step_self hself
      exact ⟨fun outcome ho => ⟨fault, hall outcome ho⟩,
        fun fuel => ⟨fault, u, runToEnd_of_ending hself fuel⟩⟩
    · obtain ⟨hu, hall⟩ := ht.calls hcalls
      obtain ⟨v, hstep, -⟩ := (hu.starves ht).step limit
      have hfailed : u.step program limit =
        (.ending (.error (refusal limit u.place u.counters.steps)), v) := hstep
      exact ⟨hall, fun fuel => ⟨_, v, runToEnd_of_ending hfailed fuel⟩⟩

/-- The second read finds no input twice, and then the limit is reached. -/
example : (State.initial 1 [7]).answers ⟨#[.input, .right, .input], #[0, 1, 2]⟩ (some 4) 6 =
    [.advanced, .advanced, .failed (.inputExhausted 2), .failed (.inputExhausted 2),
      .failed (.stepLimitExceeded 4), .failed (.stepLimitExceeded 4)] := by decide

end TapeCalc.State
