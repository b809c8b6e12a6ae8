import TapeCalc.Proofs.Effect

/-!
# Counted runs

Steps that all advance, counted, and what they say about a run to the end: where it goes on,
what it has read, and how a limit cuts it short.
-/
namespace TapeCalc

/-- What the last step of a run reports. -/
def Outcome.ending : Except Fault Unit → Outcome
  | .ok () => .finished
  | .error fault => .failed fault

namespace State

/-- So many steps, each of which advances, lead from one state to another. -/
inductive Steps (program : Program) (limit : Option Nat) : Nat → State → State → Prop
  | zero (s : State) : Steps program limit 0 s s
  | succ {n : Nat} {s t u : State} (h : s.step program limit = (.advanced, t))
      (rest : Steps program limit n t u) : Steps program limit (n + 1) s u

variable {program : Program} {limit : Option Nat}

theorem Steps.one {s t : State} (h : s.step program limit = (.advanced, t)) :
    Steps program limit 1 s t := .succ h (.zero t)

theorem Steps.trans {m n : Nat} {s t u : State} (h : Steps program limit m s t)
    (g : Steps program limit n t u) : Steps program limit (m + n) s u := by
  induction h with
  | zero => simpa using g
  | succ hs _ ih =>
    rw [Nat.add_right_comm]
    exact .succ hs (ih g)

theorem runToEnd_of_advanced {s t : State} (h : s.step program limit = (.advanced, t))
    (fuel : Nat) : s.runToEnd program limit (fuel + 1) = t.runToEnd program limit fuel := by
  rw [State.runToEnd, h]

theorem runToEnd_of_ending {s t : State} {result : Except Fault Unit}
    (h : s.step program limit = (.ending result, t)) (fuel : Nat) :
    s.runToEnd program limit (fuel + 1) = some (result, t) := by
  rw [State.runToEnd, h]
  cases result <;> rfl

/-- A run to the end goes through the steps. -/
theorem Steps.runToEnd {n : Nat} {s t : State} (h : Steps program limit n s t) (fuel : Nat) :
    s.runToEnd program limit (n + fuel) = t.runToEnd program limit fuel := by
  induction h with
  | zero => rw [Nat.zero_add]
  | succ hs _ ih => rw [Nat.add_right_comm, runToEnd_of_advanced hs, ih]

/-- A run to the end is so many steps that advance and one that reports its ending. -/
theorem runToEnd_eq_some_iff {fuel : Nat} {s t : State} {result : Except Fault Unit} :
    s.runToEnd program limit fuel = some (result, t) ↔
      ∃ n u, n < fuel ∧ Steps program limit n s u ∧ u.step program limit = (.ending result, t) := by
  constructor
  · intro h
    induction fuel generalizing s with
    | zero => cases h
    | succ fuel ih =>
      rw [State.runToEnd] at h
      split at h
      next v hs =>
        obtain ⟨n, u, hn, hu, hend⟩ := ih h
        exact ⟨n + 1, u, Nat.succ_lt_succ hn, .succ hs hu, hend⟩
      next v hs =>
        cases h
        exact ⟨0, s, Nat.succ_pos fuel, .zero s, hs⟩
      next fault v hs =>
        cases h
        exact ⟨0, s, Nat.succ_pos fuel, .zero s, hs⟩
  · rintro ⟨n, u, hn, hu, hend⟩
    obtain ⟨more, rfl⟩ := Nat.exists_eq_add_of_lt hn
    rw [Nat.add_assoc, hu.runToEnd, runToEnd_of_ending hend]

/-- A run of which every number of steps advances has no ending. -/
theorem runToEnd_eq_none {s : State} (h : ∀ n, ∃ m t, n ≤ m ∧ Steps program limit m s t)
    (fuel : Nat) : s.runToEnd program limit fuel = none := by
  obtain ⟨m, t, hm, hs⟩ := h fuel
  cases hr : s.runToEnd program limit fuel with
  | none => rfl
  | some ending =>
    have hend := runToEnd_add hr (m - fuel)
    rw [show fuel + (m - fuel) = m + 0 by omega, hs.runToEnd 0] at hend
    cases hend

/-- The ending of a run does not depend on the fuel. -/
theorem runToEnd_unique {s : State} {m n : Nat} {a b : Except Fault Unit × State}
    (ha : s.runToEnd program limit m = some a) (hb : s.runToEnd program limit n = some b) :
    a = b := by
  have h := runToEnd_add ha n
  rw [Nat.add_comm, runToEnd_add hb m] at h
  exact (Option.some.inj h).symm

/-- All that a step can be: nothing is left to do, the limit is reached, or an instruction is
counted and carried out. -/
theorem step_cases {s t : State} {outcome : Outcome} (h : s.step program limit = (outcome, t)) :
    (program.fetch? s.place = none ∧ outcome = .finished ∧ t = s) ∨
      (∃ i n, program.fetch? s.place = some i ∧ limit = some n ∧ n ≤ s.counters.steps ∧
        outcome = .failed (.stepLimitExceeded n) ∧ t = s) ∨
      ∃ i, program.fetch? s.place = some i ∧ (∀ n, limit = some n → s.counters.steps < n) ∧
        s.execute program i = (outcome, t) := by
  unfold step at h
  cases hi : program.fetch? s.place with
  | none =>
    simp only [hi, Prod.mk.injEq] at h
    exact .inl ⟨rfl, h.1.symm, h.2.symm⟩
  | some i =>
    simp only [hi] at h
    cases limit with
    | none => exact .inr (.inr ⟨i, rfl, by simp, h⟩)
    | some n =>
      by_cases hn : n ≤ s.counters.steps
      · simp only [hn, if_true, Prod.mk.injEq] at h
        exact .inr (.inl ⟨i, n, rfl, rfl, hn, h.1.symm, h.2.symm⟩)
      · simp only [hn, if_false] at h
        exact .inr (.inr ⟨i, rfl, by simpa using hn, h⟩)

theorem step_eq_execute {s : State} {i : Instruction} (h : program.fetch? s.place = some i)
    (hlt : ∀ n, limit = some n → s.counters.steps < n) :
    s.step program limit = s.execute program i := by
  unfold step
  rw [h]
  cases limit with
  | none => rfl
  | some n => exact if_neg (Nat.not_le_of_lt (hlt n rfl))

theorem step_of_fetch {s : State} {i : Instruction} (h : program.fetch? s.place = some i) :
    s.step program none = s.execute program i := step_eq_execute h nofun

/-- A step goes with a change of the state that leaves it where it is, with its counters, if the
instruction that the step carries out does. -/
theorem step_map {change : State → State} {s : State} (hplace : (change s).place = s.place)
    (hcounters : (change s).counters = s.counters)
    (hexecute : ∀ i, program.fetch? s.place = some i →
      (∀ n, limit = some n → s.counters.steps < n) →
      (change s).execute program i = Prod.map id change (s.execute program i)) :
    (change s).step program limit = Prod.map id change (s.step program limit) := by
  unfold step
  rw [hplace, hcounters]
  cases hi : program.fetch? s.place with
  | none => rfl
  | some i =>
    cases limit with
    | none => exact hexecute i hi nofun
    | some n =>
      by_cases hn : n ≤ s.counters.steps
      · simp only [hn, if_true]
        rfl
      · simp only [hn, if_false]
        refine hexecute i hi fun k hk => ?_
        cases hk
        exact Nat.lt_of_not_le hn

theorem step_of_fetch_none {s : State} (h : program.fetch? s.place = none) :
    s.step program limit = (.finished, s) := by
  simp [step, h]

/-- What has been read and what is left make up the input. -/
theorem consumed_add_unread_step {s t : State} {outcome : Outcome}
    (h : s.step program limit = (outcome, t)) :
    t.counters.consumed + t.unread.length = s.counters.consumed + s.unread.length := by
  rcases step_cases h with ⟨_, _, rfl⟩ | ⟨_, _, _, _, _, _, rfl⟩ | ⟨i, _, _, he⟩
  · rfl
  · rfl
  · exact (effect_of_execute he).consumed_add_unread

theorem Steps.consumed_add_unread {n : Nat} {s t : State} (h : Steps program limit n s t) :
    t.counters.consumed + t.unread.length = s.counters.consumed + s.unread.length := by
  induction h with
  | zero => rfl
  | succ hs _ ih => rw [ih, consumed_add_unread_step hs]

theorem consumed_add_unread_runToEnd {fuel : Nat} {s t : State} {result : Except Fault Unit}
    (h : s.runToEnd program limit fuel = some (result, t)) :
    t.counters.consumed + t.unread.length = s.counters.consumed + s.unread.length := by
  obtain ⟨n, u, -, hsteps, hlast⟩ := runToEnd_eq_some_iff.mp h
  rw [consumed_add_unread_step hlast, hsteps.consumed_add_unread]

/-- A step under a limit is refused for the limit, or it is the step without one. -/
theorem step_of_some (program : Program) (n : Nat) (s : State) :
    s.step program (some n) = (.failed (.stepLimitExceeded n), s) ∨
      s.step program (some n) = s.step program none := by
  unfold step
  cases program.fetch? s.place with
  | none => exact .inr rfl
  | some i =>
    by_cases h : n ≤ s.counters.steps
    · exact .inl (if_pos h)
    · exact .inr (if_neg h)

/-- A limit either cuts a run short or changes nothing. -/
theorem runToEnd_of_some {fuel : Nat} {s : State} {ending : Except Fault Unit × State}
    (h : s.runToEnd program none fuel = some ending) (n : Nat) :
    s.runToEnd program (some n) fuel = some ending ∨
      ∃ t, s.runToEnd program (some n) fuel = some (.error (.stepLimitExceeded n), t) := by
  induction fuel generalizing s with
  | zero => cases h
  | succ fuel ih =>
    rw [runToEnd] at h ⊢
    rcases step_of_some program n s with hs | hs
    · exact .inr ⟨s, by rw [hs]⟩
    · rw [hs]
      split at h
      next => exact ih h
      next => exact .inl h
      next => exact .inl h

/-- The state after so many calls for one step, whatever they return. -/
def after (program : Program) (limit : Option Nat) : Nat → State → State
  | 0, s => s
  | n + 1, s => after program limit n (s.step program limit).2

theorem after_add (s : State) (m n : Nat) :
    s.after program limit (m + n) = (s.after program limit m).after program limit n := by
  induction m generalizing s with
  | zero => rw [Nat.zero_add, after]
  | succ m ih => rw [Nat.add_right_comm, after, ih, after]

theorem after_of_isFinished {s : State} (h : s.isFinished program = true) (n : Nat) :
    s.after program limit n = s := by
  induction n with
  | zero => rfl
  | succ n ih => rw [after, step_of_isFinished limit h, ih]

end State

namespace Machine

theorem execute_eq_error_iff {m : Machine} {fuel : Nat} {program : Program} {input : List UInt8}
    {fault : Fault} :
    m.execute fuel program input = some (.error fault) ↔
      ∃ u, (m.start input).runToEnd program m.stepLimit fuel = some (.error fault, u) := by
  unfold execute
  rcases (m.start input).runToEnd program m.stepLimit fuel with _ | ⟨_ | _, u⟩ <;> simp

theorem execute_eq_none_iff {m : Machine} {fuel : Nat} {program : Program} {input : List UInt8} :
    m.execute fuel program input = none ↔
      (m.start input).runToEnd program m.stepLimit fuel = none := by
  simp [execute]

theorem execute_of_runToEnd {m : Machine} {fuel : Nat} {program : Program} {input : List UInt8}
    {u : State} (h : (m.start input).runToEnd program m.stepLimit fuel = some (.ok (), u)) :
    m.execute fuel program input = some (.ok u.report) := by
  simp [execute, h]

end Machine

/-- A run of the machine comes to an answer, and with any fuel to no other. -/
structure Machine.Ends (m : Machine) (program : Program) (input : List UInt8)
    (answer : Except Fault Report) : Prop where
  comes : ∃ fuel, m.execute fuel program input = some answer
  only : ∀ fuel other, m.execute fuel program input = some other → other = answer

theorem Machine.Ends.of_execute {m : Machine} {fuel : Nat} {program : Program}
    {input : List UInt8} {answer : Except Fault Report}
    (h : m.execute fuel program input = some answer) : m.Ends program input answer where
  comes := ⟨fuel, h⟩
  only more other ho := by
    obtain ⟨ending, he, rfl⟩ := Option.map_eq_some_iff.mp h
    obtain ⟨ending', he', rfl⟩ := Option.map_eq_some_iff.mp ho
    rw [State.runToEnd_unique he he']

theorem Machine.Ends.unique {m : Machine} {program : Program} {input : List UInt8}
    {answer other : Except Fault Report} (h : m.Ends program input answer)
    (g : m.Ends program input other) : answer = other := by
  obtain ⟨fuel, hf⟩ := h.comes
  exact g.only fuel answer hf

end TapeCalc
