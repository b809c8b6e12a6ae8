import TapeCalc.Proofs.Steps

/-!
# The input that is consumed

A run takes the bytes that it reads from the front of its input, whatever follows them. On an
input that starts with the same bytes it does the same, and on one that ends before them it fails
at the read that finds no byte.
-/
namespace TapeCalc

namespace State

/-- The same state with other input to come. -/
def fed (rest : List UInt8) (s : State) : State := { s with unread := rest }

/-- The places of the reads that a run carries out, in order. -/
def reads (program : Program) (limit : Option Nat) : Nat → State → List Nat
  | 0, _ => []
  | fuel + 1, s =>
    match s.step program limit with
    | (.advanced, t) =>
      if program.fetch? s.place = some .input then s.place :: reads program limit fuel t
      else reads program limit fuel t
    | _ => []

variable {program : Program} {limit : Option Nat} {s t : State} {fuel : Nat} {b : UInt8}

@[simp] theorem fed_unread : s.fed s.unread = s := rfl

theorem execute_fed {i : Instruction} (h : i ≠ .input) (rest : List UInt8) :
    (s.fed rest).execute program i = Prod.map id (fed rest) (s.execute program i) := by
  cases i with
  | input => exact (h rfl).elim
  | loopStart =>
    by_cases hz : s.tape.read = 0 <;> simp [execute, perform, fed, hz, jump, State.next]
  | loopEnd =>
    by_cases hz : s.tape.read = 0 <;> simp [execute, perform, fed, hz, jump, State.next]
  | _ => rfl

/-- A step that reads nothing does not depend on the input. -/
theorem step_fed (h : program.fetch? s.place ≠ some .input) (rest : List UInt8) :
    (s.fed rest).step program limit = Prod.map id (fed rest) (s.step program limit) :=
  step_map rfl rfl fun _ hi _ => execute_fed (fun e => h (e ▸ hi)) rest

/-- A step that reads takes the first byte, whatever it is followed by, and fails without one. -/
theorem step_read (h : s.step program limit = (.advanced, t))
    (hi : program.fetch? s.place = some .input) :
    ∃ b, s.unread = b :: t.unread ∧ t.counters.consumed = s.counters.consumed + 1 ∧
      (∀ rest, (s.fed (b :: rest)).step program limit = (.advanced, t.fed rest)) ∧
      ∃ v, (s.fed []).step program limit = (.failed (.inputExhausted s.place), v) := by
  rcases step_cases h with ⟨_, ho, _⟩ | ⟨_, _, _, _, _, ho, _⟩ | ⟨i, hf, hlt, he⟩
  · cases ho
  · cases ho
  · cases hi.symm.trans hf
    have hstep : ∀ rest, (s.fed rest).step program limit = (s.fed rest).execute program .input :=
      fun rest => step_eq_execute hi hlt
    cases hu : s.unread with
    | nil => simp [execute, perform, hu] at he
    | cons b rest =>
      simp only [execute, perform, hu, Prod.mk.injEq, true_and] at he
      subst he
      exact ⟨b, rfl, rfl, fun rest => hstep (b :: rest), _, hstep []⟩

/-- Every byte that a run to the end of the program takes is taken by one of its reads; it is the
same run on any input that starts with these bytes, and on fewer of them the next read fails. -/
structure Takes (program : Program) (limit : Option Nat) (fuel : Nat) (s : State)
    (taken : List UInt8) (t : State) : Prop where
  unread : s.unread = taken ++ t.unread
  consumed : t.counters.consumed = s.counters.consumed + taken.length
  length_reads : (s.reads program limit fuel).length = taken.length
  longer : ∀ rest, (s.fed (taken ++ rest)).runToEnd program limit fuel = some (.ok (), t.fed rest)
  shorter : ∀ k i, (s.reads program limit fuel)[k]? = some i →
    ∃ v, (s.fed (taken.take k)).runToEnd program limit fuel = some (.error (.inputExhausted i), v)

namespace Takes

variable {u : State} {taken : List UInt8}

theorem finished (h : s.step program limit = (.finished, t)) :
    Takes program limit (fuel + 1) s [] t := by
  rcases step_cases h with ⟨hf, _, rfl⟩ | ⟨_, _, _, _, _, ho, _⟩ | ⟨i, _, _, he⟩
  · have hreads : t.reads program limit (fuel + 1) = [] := by rw [reads, h]
    exact {
      unread := rfl
      consumed := rfl
      length_reads := by rw [hreads]; rfl
      longer := by
        intro rest
        have hstep : (t.fed rest).step program limit = (.ending (.ok ()), t.fed rest) :=
          step_of_fetch_none hf
        exact runToEnd_of_ending hstep fuel
      shorter := by
        intro k i hk
        rw [hreads] at hk
        cases hk }
  · cases ho
  · cases effect_of_execute he

/-- A step without a read comes before what is taken. -/
theorem pass (h : Takes program limit fuel t taken u)
    (hs : s.step program limit = (.advanced, t)) (hi : program.fetch? s.place ≠ some .input) :
    Takes program limit (fuel + 1) s taken u := by
  have hstep : ∀ rest, (s.fed rest).step program limit = (.advanced, t.fed rest) := by
    intro rest
    rw [step_fed hi, hs]
    rfl
  have hunread : t.unread = s.unread := by
    have := hstep s.unread
    rw [fed_unread, hs] at this
    exact congrArg (fun next : Outcome × State => next.2.unread) this
  have hconsumed := consumed_add_unread_step hs
  rw [hunread] at hconsumed
  have hreads : s.reads program limit (fuel + 1) = t.reads program limit fuel := by
    rw [reads, hs]
    exact if_neg hi
  exact {
    unread := hunread ▸ h.unread
    consumed := by rw [h.consumed, Nat.add_right_cancel hconsumed]
    length_reads := hreads ▸ h.length_reads
    longer := fun rest => by rw [runToEnd_of_advanced (hstep _), h.longer]
    shorter := by
      intro k i hk
      obtain ⟨v, hv⟩ := h.shorter k i (hreads ▸ hk)
      exact ⟨v, by rw [runToEnd_of_advanced (hstep _), hv]⟩ }

/-- A read takes the first byte. -/
theorem read (h : Takes program limit fuel t taken u)
    (hs : s.step program limit = (.advanced, t)) (hi : program.fetch? s.place = some .input) :
    ∃ b, Takes program limit (fuel + 1) s (b :: taken) u := by
  obtain ⟨b, hunread, hconsumed, hlonger, v, hshorter⟩ := step_read hs hi
  have hreads : s.reads program limit (fuel + 1) = s.place :: t.reads program limit fuel := by
    rw [reads, hs]
    exact if_pos hi
  refine ⟨b, {
    unread := by rw [hunread, h.unread, List.cons_append]
    consumed := by rw [h.consumed, hconsumed, List.length_cons]; omega
    length_reads := by rw [hreads, List.length_cons, List.length_cons, h.length_reads]
    longer := fun rest => by rw [List.cons_append, runToEnd_of_advanced (hlonger _), h.longer]
    shorter := ?_ }⟩
  intro k i hk
  rw [hreads] at hk
  cases k with
  | zero =>
    cases hk
    exact ⟨v, runToEnd_of_ending hshorter fuel⟩
  | succ k =>
    obtain ⟨w, hw⟩ := h.shorter k i hk
    exact ⟨w, by rw [List.take_succ_cons, runToEnd_of_advanced (hlonger _), hw]⟩

end Takes

theorem exists_takes (h : s.runToEnd program limit fuel = some (.ok (), t)) :
    ∃ taken, Takes program limit fuel s taken t := by
  induction fuel generalizing s with
  | zero => cases h
  | succ fuel ih =>
    rw [runToEnd] at h
    split at h
    next next hs =>
      obtain ⟨taken, ht⟩ := ih h
      by_cases hi : program.fetch? s.place = some .input
      · obtain ⟨b, hb⟩ := ht.read hs hi
        exact ⟨b :: taken, hb⟩
      · exact ⟨taken, ht.pass hs hi⟩
    next next hs =>
      cases h
      exact ⟨[], .finished hs⟩
    next => cases h

end State

namespace Machine

/-- The places of the reads that a run from the start carries out, in order. -/
def reads (m : Machine) (fuel : Nat) (program : Program) (input : List UInt8) : List Nat :=
  (m.start input).reads program m.stepLimit fuel

variable {m : Machine} {fuel : Nat} {program : Program} {xs : List UInt8} {report : Report}

/-- A run that reports has read the bytes that it counts as consumed. It reports the same on every
input that starts with them, and on fewer of them it fails at the read that comes next. -/
theorem execute_of_consumed (h : m.execute fuel program xs = some (.ok report)) :
    (∀ ys, ys.take report.counters.consumed = xs.take report.counters.consumed →
      m.execute fuel program ys = some (.ok report)) ∧
    (m.reads fuel program xs).length = report.counters.consumed ∧
    ∀ k < report.counters.consumed, ∃ i, (m.reads fuel program xs)[k]? = some i ∧
      m.execute fuel program (xs.take k) = some (.error (.inputExhausted i)) := by
  obtain ⟨⟨result, t⟩, hrun, hreport⟩ := Option.map_eq_some_iff.mp h
  cases result with
  | error fault => cases hreport
  | ok =>
    cases hreport
    obtain ⟨taken, ht⟩ := State.exists_takes hrun
    have hxs : xs = taken ++ t.unread := ht.unread
    have hconsumed : t.counters.consumed = taken.length := ht.consumed.trans (Nat.zero_add _)
    have htake : ∀ k ≤ taken.length, xs.take k = taken.take k := by
      intro k hk
      rw [hxs, List.take_append_of_le_length hk]
    rw [State.report, hconsumed]
    refine ⟨fun ys hys => ?_, ht.length_reads, fun k hk => ?_⟩
    · have hlonger := ht.longer (ys.drop taken.length)
      rw [htake _ (Nat.le_refl _), List.take_length] at hys
      have hsplit := List.take_append_drop taken.length ys
      rw [hys] at hsplit
      rw [hsplit] at hlonger
      have hexecute : m.execute fuel program ys = some (.ok (t.fed _).report) :=
        execute_of_runToEnd hlonger
      exact hexecute
    · have hlt : k < (m.reads fuel program xs).length := ht.length_reads.symm ▸ hk
      refine ⟨(m.reads fuel program xs)[k], List.getElem?_eq_getElem hlt, ?_⟩
      rw [htake k (Nat.le_of_lt hk)]
      exact execute_eq_error_iff.mpr (ht.shorter k _ (List.getElem?_eq_getElem hlt))

/-- Copying up to a zero byte reads once at the start and once in each pass of the loop. -/
theorem execute_of_consumed_copy :
    ∃ program report, Program.parse ",[.,]" = .ok program ∧
      (⟨4, some 20⟩ : Machine).execute 30 program [7, 8, 0, 9] = some (.ok report) ∧
      (∀ ys, ys.take 3 = [7, 8, 0] →
        (⟨4, some 20⟩ : Machine).execute 30 program ys = some (.ok report)) ∧
      (⟨4, some 20⟩ : Machine).reads 30 program [7, 8, 0, 9] = [0, 3, 3] ∧
      ∀ k < 3, ∃ i, [0, 3, 3][k]? = some i ∧
        (⟨4, some 20⟩ : Machine).execute 30 program ([7, 8, 0, 9].take k) =
          some (.error (.inputExhausted i)) := by
  have hrun : ((⟨4, some 20⟩ : Machine).execute 30
      ⟨#[.input, .loopStart, .output, .input, .loopEnd], #[0, 4, 2, 3, 1]⟩ [7, 8, 0, 9]).map
      (fun answer => answer.toOption.map fun report => report.counters.consumed) =
      some (some 3) := by decide +kernel
  have hreads : (⟨4, some 20⟩ : Machine).reads 30
      ⟨#[.input, .loopStart, .output, .input, .loopEnd], #[0, 4, 2, 3, 1]⟩ [7, 8, 0, 9] =
      [0, 3, 3] := by decide +kernel
  obtain ⟨answer, h, hconsumed⟩ := Option.map_eq_some_iff.mp hrun
  cases answer with
  | error fault => cases hconsumed
  | ok report =>
    obtain ⟨hlonger, -, hshorter⟩ := execute_of_consumed h
    rw [show report.counters.consumed = 3 from Option.some.inj hconsumed] at hlonger hshorter
    rw [hreads] at hshorter
    exact ⟨_, report, rfl, h, hlonger, hreads, hshorter⟩

end Machine

end TapeCalc
