import TapeCalc.Proofs.Steps

/-!
# The step limit

A limit on the steps lets a run through that needs no more of them, and cuts every other run
short at exactly that many. Every step that advances counts one instruction, so two runs that
differ in their limit go together until the count reaches it.
-/
namespace TapeCalc

namespace State

variable {program : Program} {limit : Option Nat} {s t u : State} {m n : Nat}

theorem counters_steps_of_step (h : s.step program limit = (.advanced, t)) :
    t.counters.steps = s.counters.steps + 1 := by
  rcases step_cases h with ⟨_, ho, _⟩ | ⟨_, _, _, _, _, ho, _⟩ | ⟨i, _, _, he⟩
  · cases ho
  · cases ho
  · exact (effect_of_execute he).steps_eq

theorem Steps.counters_steps (h : Steps program limit n s t) :
    t.counters.steps = s.counters.steps + n := by
  induction h with
  | zero => rfl
  | succ hs _ ih =>
    rw [ih, counters_steps_of_step hs]
    omega

theorem Steps.deterministic (h : Steps program limit n s t) (g : Steps program limit n s u) :
    t = u := by
  induction h with
  | zero =>
    cases g
    rfl
  | succ hs _ ih =>
    cases g with
    | succ gs rest =>
      rw [hs] at gs
      cases gs
      exact ih rest

/-- Steps that advance do not go beyond a step that does not. -/
theorem Steps.le_of_ending (h : Steps program limit m s t) (g : Steps program limit n s u)
    (hu : (u.step program limit).1 ≠ .advanced) : m ≤ n := by
  induction g generalizing m with
  | zero s =>
    cases h with
    | zero => exact Nat.le_refl 0
    | succ hs _ => exact (hu (congrArg Prod.fst hs)).elim
  | succ gs _ ih =>
    cases h with
    | zero => exact Nat.zero_le _
    | succ hs rest =>
      rw [gs] at hs
      cases hs
      exact Nat.succ_le_succ (ih rest hu)

/-- So many steps advance, or one of them reports an ending. -/
theorem steps_or_ends (program : Program) (limit : Option Nat) (s : State) (n : Nat) :
    (∃ t, Steps program limit n s t) ∨ ∃ m u result t, m < n ∧ Steps program limit m s u ∧
      u.step program limit = (.ending result, t) := by
  induction n with
  | zero => exact .inl ⟨s, .zero s⟩
  | succ n ih =>
    rcases ih with ⟨t, ht⟩ | ⟨m, u, result, t, hm, hu, hend⟩
    · cases hs : t.step program limit with
      | mk outcome v =>
        cases outcome with
        | advanced => exact .inl ⟨v, ht.trans (.one hs)⟩
        | finished => exact .inr ⟨n, t, .ok (), v, Nat.lt_succ_self n, ht, hs⟩
        | failed fault => exact .inr ⟨n, t, .error fault, v, Nat.lt_succ_self n, ht, hs⟩
    · exact .inr ⟨m, u, result, t, Nat.lt_succ_of_lt hm, hu, hend⟩

/-- Below the limit a step is the step without one. -/
theorem step_of_lt (h : s.counters.steps < n) :
    s.step program (some n) = s.step program none := by
  unfold step
  cases program.fetch? s.place with
  | none => rfl
  | some i => exact if_neg (Nat.not_le.mpr h)

theorem Steps.limited (h : Steps program none m s t) (hm : s.counters.steps + m ≤ n) :
    Steps program (some n) m s t := by
  induction h with
  | zero s => exact .zero s
  | succ hs _ ih =>
    rw [← step_of_lt (show _ < n by omega)] at hs
    refine .succ hs (ih ?_)
    rw [counters_steps_of_step hs]
    omega

theorem Steps.counters_steps_initial {tapeSize : Nat} {input : List UInt8}
    (h : Steps program limit n (.initial tapeSize input) t) : t.counters.steps = n :=
  h.counters_steps.trans (Nat.zero_add n)

theorem Steps.limited_initial {tapeSize : Nat} {input : List UInt8}
    (h : Steps program none m (.initial tapeSize input) t) (hm : m ≤ n) :
    Steps program (some n) m (.initial tapeSize input) t :=
  h.limited (Nat.le_trans (Nat.le_of_eq (Nat.zero_add m)) hm)

/-- Without a limit only a read can fail. -/
theorem eq_inputExhausted_of_step {fault : Fault}
    (h : s.step program none = (.failed fault, t)) : fault = .inputExhausted s.place := by
  rcases step_cases h with ⟨_, ho, _⟩ | ⟨_, _, _, hl, _⟩ | ⟨i, _, _, he⟩
  · cases ho
  · cases hl
  · cases effect_of_execute he
    rfl

theorem eq_of_step_finished (h : s.step program limit = (.finished, t)) :
    s.isFinished program = true ∧ t = s := by
  rcases step_cases h with ⟨hf, _, ht⟩ | ⟨_, _, _, _, _, ho, _⟩ | ⟨i, _, _, he⟩
  · rw [Program.fetch?, Array.getElem?_eq_none_iff] at hf
    exact ⟨decide_eq_true hf, ht⟩
  · cases ho
  · cases effect_of_execute he

end State

namespace Machine

open State

/-- A run comes to an answer of its own after so many instructions: it reaches the end of the
program, or the last of them is a read without input. -/
inductive EndsAfter (m : Machine) (program : Program) (input : List UInt8) :
    Nat → Except Fault Report → Prop
  | finished {n : Nat} {u : State} (run : Steps program m.stepLimit n (m.start input) u)
      (done : u.isFinished program = true) : EndsAfter m program input n (.ok u.report)
  | starved {n i : Nat} {u t : State} (run : Steps program m.stepLimit n (m.start input) u)
      (read : u.step program m.stepLimit = (.failed (.inputExhausted i), t)) :
      EndsAfter m program input (n + 1) (.error (.inputExhausted i))

variable {m : Machine} {program : Program} {input : List UInt8} {tapeSize n : Nat}
  {answer : Except Fault Report} {u t : State}

theorem ends_of_finished (run : Steps program m.stepLimit n (m.start input) u)
    (done : u.isFinished program = true) : m.Ends program input (.ok u.report) := by
  have hend := step_of_isFinished m.stepLimit done
  exact .of_execute <| execute_of_runToEnd <|
    runToEnd_eq_some_iff.mpr ⟨n, u, Nat.lt_succ_self n, run, hend⟩

theorem ends_of_failed {fault : Fault} (run : Steps program m.stepLimit n (m.start input) u)
    (last : u.step program m.stepLimit = (.failed fault, t)) :
    m.Ends program input (.error fault) :=
  .of_execute <| execute_eq_error_iff.mpr
    ⟨t, runToEnd_eq_some_iff.mpr ⟨n, u, Nat.lt_succ_self n, run, last⟩⟩

theorem EndsAfter.ends (h : m.EndsAfter program input n answer) : m.Ends program input answer := by
  cases h with
  | finished run done => exact ends_of_finished run done
  | starved run read => exact ends_of_failed run read

theorem EndsAfter.ne_exceeded (h : m.EndsAfter program input n answer) (k : Nat) :
    answer ≠ .error (.stepLimitExceeded k) := by
  cases h <;> simp

theorem EndsAfter.steps_report {report : Report} (h : m.EndsAfter program input n (.ok report)) :
    report.counters.steps = n := by
  cases h with
  | finished run done => exact run.counters_steps_initial

/-- Without a limit every ending is one of these. -/
theorem endsAfter_of_ending {result : Except Fault Unit}
    (run : Steps program none n (.initial tapeSize input) u)
    (last : u.step program none = (.ending result, t)) :
    ∃ k answer, (k = n ∨ k = n + 1) ∧
      (⟨tapeSize, none⟩ : Machine).EndsAfter program input k answer := by
  cases result with
  | ok =>
    exact ⟨n, _, .inl rfl, .finished run (eq_of_step_finished last).1⟩
  | error fault =>
    obtain rfl := eq_inputExhausted_of_step last
    exact ⟨n + 1, _, .inr rfl, .starved run last⟩

theorem exists_endsAfter_of_runToEnd {fuel : Nat} {s : State}
    (h : (State.initial tapeSize input).runToEnd program none fuel = some (.ok (), s)) :
    ∃ n < fuel, (⟨tapeSize, none⟩ : Machine).EndsAfter program input n (.ok s.report) := by
  obtain ⟨n, u, hn, run, last⟩ := runToEnd_eq_some_iff.mp h
  obtain ⟨done, rfl⟩ := eq_of_step_finished last
  exact ⟨n, hn, .finished run done⟩

theorem ends_iff_exists_endsAfter :
    (⟨tapeSize, none⟩ : Machine).Ends program input answer ↔
      ∃ n, (⟨tapeSize, none⟩ : Machine).EndsAfter program input n answer := by
  refine ⟨fun h => ?_, fun ⟨n, hn⟩ => hn.ends⟩
  obtain ⟨fuel, hf⟩ := h.comes
  obtain ⟨⟨result, t⟩, hrun, -⟩ := Option.map_eq_some_iff.mp hf
  obtain ⟨n, u, -, run, last⟩ := runToEnd_eq_some_iff.mp hrun
  obtain ⟨k, other, -, hk⟩ := endsAfter_of_ending run last
  rw [h.unique hk.ends]
  exact ⟨k, hk⟩

/-- A limit that is not exceeded changes nothing. -/
theorem EndsAfter.limited {limit : Nat}
    (h : (⟨tapeSize, none⟩ : Machine).EndsAfter program input n answer) (hn : n ≤ limit) :
    (⟨tapeSize, some limit⟩ : Machine).EndsAfter program input n answer := by
  cases h with
  | finished run done => exact .finished (run.limited_initial hn) done
  | starved run read =>
    have hcount := run.counters_steps_initial
    have hread := (step_of_lt (show _ < limit by omega)).trans read
    exact .starved (run.limited_initial (Nat.le_of_succ_le hn)) hread

/-- A run that advances up to the limit, and is not finished there, does not end by itself. -/
theorem not_endsAfter_of_steps {limit : Nat}
    (run : Steps program none limit (.initial tapeSize input) t)
    (hf : t.isFinished program = false) (hn : n ≤ limit) :
    ¬ (⟨tapeSize, none⟩ : Machine).EndsAfter program input n answer := by
  intro h
  cases h with
  | finished last done =>
    have hle := run.le_of_ending last (by rw [step_of_isFinished none done]; nofun)
    obtain rfl := Nat.le_antisymm hn hle
    rw [run.deterministic last, done] at hf
    cases hf
  | starved last read =>
    have hle := run.le_of_ending last (by rw [read]; nofun)
    omega

/-- A run has come to an answer of its own by the limit, or it has not and the limit ends it. -/
theorem endsAfter_or_exceeded (program : Program) (input : List UInt8) (tapeSize limit : Nat) :
    (∃ n ≤ limit, ∃ answer, (⟨tapeSize, none⟩ : Machine).EndsAfter program input n answer) ∨
    (∀ n ≤ limit, ∀ answer,
      ¬ (⟨tapeSize, none⟩ : Machine).EndsAfter program input n answer) ∧
    (⟨tapeSize, some limit⟩ : Machine).Ends program input (.error (.stepLimitExceeded limit)) := by
  rcases steps_or_ends program none (.initial tapeSize input) limit with
    ⟨t, run⟩ | ⟨n, u, result, t, hn, run, last⟩
  · cases hf : t.isFinished program with
    | true => exact .inl ⟨limit, Nat.le_refl _, _, .finished run hf⟩
    | false =>
      have hreached := Nat.le_of_eq run.counters_steps_initial.symm
      exact .inr ⟨fun n hn answer => not_endsAfter_of_steps run hf hn,
        ends_of_failed (run.limited_initial (Nat.le_refl limit)) (step_of_limit hf hreached)⟩
  · obtain ⟨k, answer, hk, h⟩ := endsAfter_of_ending run last
    exact .inl ⟨k, by omega, answer, h⟩

/-- An answer other than that of the limit is the one without a limit, in time. -/
theorem ends_iff_of_ne {limit : Nat} (hne : answer ≠ .error (.stepLimitExceeded limit)) :
    (⟨tapeSize, some limit⟩ : Machine).Ends program input answer ↔
      ∃ n ≤ limit, (⟨tapeSize, none⟩ : Machine).EndsAfter program input n answer := by
  refine ⟨fun h => ?_, fun ⟨n, hn, ha⟩ => (ha.limited hn).ends⟩
  rcases endsAfter_or_exceeded program input tapeSize limit with ⟨n, hn, other, ho⟩ | ⟨-, hl⟩
  · exact ⟨n, hn, h.unique (ho.limited hn).ends ▸ ho⟩
  · exact (hne (h.unique hl)).elim

/-- A report does not depend on the limit under which it came. -/
theorem Ends.unlimited {report : Report} (h : m.Ends program input (.ok report)) :
    (⟨m.tapeSize, none⟩ : Machine).Ends program input (.ok report) := by
  obtain ⟨tapeSize, limit⟩ := m
  cases limit with
  | none => exact h
  | some limit =>
    obtain ⟨n, -, ha⟩ := (ends_iff_of_ne (by simp)).mp h
    exact ha.ends

/-- How a limit on the steps bears on the answer. -/
structure LimitExact (program : Program) (input : List UInt8) (tapeSize limit : Nat) : Prop where
  comes : ∃ answer, (⟨tapeSize, some limit⟩ : Machine).Ends program input answer
  ok_iff : ∀ report, (⟨tapeSize, some limit⟩ : Machine).Ends program input (.ok report) ↔
    ∃ n ≤ limit, (⟨tapeSize, none⟩ : Machine).EndsAfter program input n (.ok report)
  exhausted_iff : ∀ i,
    (⟨tapeSize, some limit⟩ : Machine).Ends program input (.error (.inputExhausted i)) ↔
    ∃ n ≤ limit,
      (⟨tapeSize, none⟩ : Machine).EndsAfter program input n (.error (.inputExhausted i))
  exceeded_iff : ∀ k,
    (⟨tapeSize, some limit⟩ : Machine).Ends program input (.error (.stepLimitExceeded k)) ↔
    k = limit ∧ ∀ n ≤ limit, ∀ answer,
      ¬ (⟨tapeSize, none⟩ : Machine).EndsAfter program input n answer
  grows : ∀ report more, limit ≤ more →
    (⟨tapeSize, some limit⟩ : Machine).Ends program input (.ok report) →
    (⟨tapeSize, some more⟩ : Machine).Ends program input (.ok report)
  unlimited_iff : ∀ answer, (⟨tapeSize, none⟩ : Machine).Ends program input answer ↔
    ∃ n, (⟨tapeSize, none⟩ : Machine).EndsAfter program input n answer
  steps_report : ∀ n report,
    (⟨tapeSize, none⟩ : Machine).EndsAfter program input n (.ok report) →
    report.counters.steps = n

/-- A run under a limit always ends: as the run without a limit, if that takes no more steps, and
else at the limit. -/
theorem limitExact (program : Program) (input : List UInt8) (tapeSize limit : Nat) :
    LimitExact program input tapeSize limit where
  comes := by
    rcases endsAfter_or_exceeded program input tapeSize limit with ⟨n, hn, answer, h⟩ | ⟨-, hl⟩
    · exact ⟨answer, (h.limited hn).ends⟩
    · exact ⟨_, hl⟩
  ok_iff report := ends_iff_of_ne nofun
  exhausted_iff i := ends_iff_of_ne (by simp)
  exceeded_iff k := by
    constructor
    · intro h
      rcases endsAfter_or_exceeded program input tapeSize limit with ⟨n, hn, answer, ha⟩ | ⟨hno, hl⟩
      · exact (ha.ne_exceeded k ((ha.limited hn).ends.unique h)).elim
      · cases h.unique hl
        exact ⟨rfl, hno⟩
    · rintro ⟨rfl, hno⟩
      rcases endsAfter_or_exceeded program input tapeSize k with ⟨n, hn, answer, ha⟩ | ⟨-, hl⟩
      · exact (hno n hn answer ha).elim
      · exact hl
  grows report more hle h := by
    obtain ⟨n, hn, ha⟩ := (ends_iff_of_ne (by simp)).mp h
    exact (ha.limited (Nat.le_trans hn hle)).ends
  unlimited_iff answer := ends_iff_exists_endsAfter
  steps_report n report h := h.steps_report

end Machine

end TapeCalc
