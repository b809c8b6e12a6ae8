import TapeCalc.Proofs.ModeAgreement
import TapeCalc.Proofs.StepLimit

/-!
# The size of the tape

A configuration is accepted from one cell on, while the built-in programs use up to six. On fewer
cells the ring closes over cells in use, and 8-bit mode gives numbers that are not those of the
documentation. Six cells are enough for every operator, and no fewer are.
-/
namespace TapeCalc

namespace Operator

/-- The documented result on bytes, `none` for infinity. -/
def documented (op : Operator) (a b : Nat) : Option Nat :=
  if op = .div ∧ b = 0 then none else some (op.byteValue a b)

theorem toNat?_byteResult (op : Operator) (a b : UInt8) :
    (op.byteResult a b).toNat? = op.documented a.toNat b.toNat := by
  have hzero : b.toNat = 0 ↔ b = 0 := by rw [← UInt8.toNat_inj, UInt8.toNat_zero]
  unfold byteResult documented
  by_cases hz : op = .div ∧ b = 0
  · rw [if_pos hz, if_pos (by rwa [hzero])]
    rfl
  · rw [if_neg hz, if_neg (by rwa [hzero]), Value.toNat?, Number.toNat_ofByte, toNat_onBytes]

theorem output_of_ends {op : Operator} {m : Machine} {a b : UInt8} {report : Report}
    (ht : op.width ≤ max m.tapeSize 1) (h : m.Ends op.program [a, b] (.ok report)) :
    report.output = [op.onBytes a b] := by
  obtain ⟨fuel, s, hs, -, ho⟩ := op.runToEnd_program ht a b []
  have hends : (⟨m.tapeSize, none⟩ : Machine).Ends op.program [a, b] (.ok s.report) :=
    .of_execute (Machine.execute_of_runToEnd hs)
  cases h.unlimited.unique hends
  simp [State.report, ho]

/-- On so many cells the program can end, within so many steps, with a byte other than that of
the operator. -/
def Misleads (op : Operator) (tapeSize steps : Nat) : Prop :=
  ∃ (a b c : UInt8) (n : Nat) (report : Report), ¬ (op = .div ∧ b = 0) ∧ c ≠ op.onBytes a b ∧
    n ≤ steps ∧ (⟨tapeSize, none⟩ : Machine).EndsAfter op.program [a, b] n (.ok report) ∧
    report.output = [c]

theorem misleads_of_run {op : Operator} {tapeSize steps : Nat} {a b c : UInt8}
    (hz : ¬ (op = .div ∧ b = 0)) (hc : c ≠ op.onBytes a b)
    (h : ((State.initial tapeSize [a, b]).runToEnd op.tree.program none (steps + 1)).map
      (fun ending => (ending.1.toBool, ending.2.output)) = some (true, #[c])) :
    op.Misleads tapeSize steps := by
  obtain ⟨⟨_ | _, s⟩, hs, he⟩ := Option.map_eq_some_iff.mp h
  · cases he
  · have ho : s.output = #[c] := congrArg Prod.snd he
    rw [← program_eq] at hs
    obtain ⟨n, hn, hends⟩ := Machine.exists_endsAfter_of_runToEnd hs
    exact ⟨a, b, c, n, s.report, hz, hc, Nat.le_of_lt_succ hn, hends, by simp [State.report, ho]⟩

/-- From one cell to five, what goes wrong is 1 + 0, 1 ^ 0, 255 * 2, 255 / 1 and 2 / 1, the last
of them in 97 steps. -/
theorem exists_misleads {tapeSize : Nat} (h0 : 0 < tapeSize) (h : tapeSize < 6) :
    ∃ op : Operator, op.Misleads tapeSize 97 := by
  obtain rfl | rfl | rfl | rfl | rfl : tapeSize = 1 ∨ tapeSize = 2 ∨ tapeSize = 3 ∨
      tapeSize = 4 ∨ tapeSize = 5 := by omega
  · exact ⟨.add, @misleads_of_run .add 1 97 1 0 0 (by decide) (by decide) (by decide +kernel)⟩
  · exact ⟨.pow, @misleads_of_run .pow 2 97 1 0 2 (by decide) (by decide) (by decide +kernel)⟩
  · exact ⟨.mul, @misleads_of_run .mul 3 97 255 2 2 (by decide) (by decide) (by decide +kernel)⟩
  · exact ⟨.div, @misleads_of_run .div 4 97 255 1 0 (by decide) (by decide) (by decide +kernel)⟩
  · exact ⟨.div, @misleads_of_run .div 5 97 2 1 1 (by decide) (by decide) (by decide +kernel)⟩

end Operator

theorem Config.tapeSize_pos {config : Config} (hv : config.validate = .ok ()) :
    0 < config.tapeSize.toNat := by
  refine Nat.pos_of_ne_zero fun h => ?_
  have hzero : config.tapeSize = 0 := UInt64.toNat_inj.mp h
  rw [validate, if_pos hzero] at hv
  cases hv

namespace Calculator

variable {calculator : Calculator} {op : Operator} {a b : Number}

/-- Whatever 8-bit mode gives for the operator is the documented result on the low cells. -/
def RightOn (calculator : Calculator) (op : Operator) : Prop :=
  ∀ fuel a b e, calculator.evaluate fuel .eightBit op a b = some (.ok e) →
    e.value.toNat? = op.documented (a.toNat % 256) (b.toNat % 256)

theorem exists_report_of_evaluate {fuel : Nat} {e : Evaluation}
    (hz : ¬ (op = .div ∧ b.lowCell = 0))
    (h : calculator.evaluate fuel .eightBit op a b = some (.ok e)) :
    ∃ report c cs, calculator.machine.execute fuel (calculator.library.get op).program
        [a.lowCell, b.lowCell] = some (.ok report) ∧
      report.output = c :: cs ∧ e.value = .finite (.ofByte c) := by
  obtain ⟨answer, hexec⟩ := execute_of_evaluate hz h
  cases answer with
  | error fault =>
    rw [evaluate, evaluateEightBit, if_neg hz, hexec] at h
    cases h
  | ok report =>
    rw [evaluate_of_execute hz hexec, evaluationOf] at h
    split at h
    next => cases h
    next c cs ho =>
      cases h
      exact ⟨report, c, cs, hexec, ho, rfl⟩

theorem rightOn_of_width (hl : calculator.library = .builtin)
    (ht : op.width ≤ max calculator.machine.tapeSize 1) : calculator.RightOn op := by
  intro fuel a b e he
  rw [← Number.toNat_lowCell, ← Number.toNat_lowCell, ← Operator.toNat?_byteResult]
  by_cases hz : op = .div ∧ b.lowCell = 0
  · rw [evaluate, evaluateEightBit, if_pos hz] at he
    cases he
    rw [Operator.byteResult, if_pos hz]
  · obtain ⟨report, c, cs, hexec, ho, hv⟩ := exists_report_of_evaluate hz he
    rw [hl, library_get_builtin] at hexec
    rw [Operator.output_of_ends ht (.of_execute hexec)] at ho
    cases ho
    rw [hv, Operator.byteResult, if_neg hz]

theorem not_rightOn_of_misleads {steps : Nat} (hl : calculator.library = .builtin)
    (hs : ∀ n, calculator.machine.stepLimit = some n → steps ≤ n)
    (h : op.Misleads calculator.machine.tapeSize steps) : ¬ calculator.RightOn op := by
  intro hright
  obtain ⟨a, b, c, n, report, hz, hc, hn, hends, ho⟩ := h
  have hlimited : calculator.machine.Ends op.program [a, b] (.ok report) := by
    show Machine.Ends ⟨_, calculator.machine.stepLimit⟩ _ _ _
    cases hlimit : calculator.machine.stepLimit with
    | none => exact hends.ends
    | some limit => exact (hends.limited (Nat.le_trans hn (hs limit hlimit))).ends
  obtain ⟨fuel, hexec⟩ := hlimited.comes
  have heval : calculator.evaluate fuel .eightBit op (.ofByte a) (.ofByte b) =
      some (.ok ⟨.finite (.ofByte c), some report.counters⟩) := by
    rw [evaluate_of_execute (by rwa [Number.lowCell_ofByte]), evaluationOf, ho]
    rwa [Number.lowCell_ofByte, Number.lowCell_ofByte, hl, library_get_builtin]
  have hbyte := hright fuel _ _ _ heval
  rw [← Number.toNat_lowCell, ← Number.toNat_lowCell, ← Operator.toNat?_byteResult,
    Number.lowCell_ofByte, Number.lowCell_ofByte, Operator.byteResult, if_neg hz] at hbyte
  have hnat : c.toNat = (op.onBytes a b).toNat := by
    rw [← Number.toNat_ofByte, ← Number.toNat_ofByte]
    exact Option.some.inj hbyte
  exact hc (UInt8.toNat_inj.mp hnat)

theorem load_eq_ok (read : String → Except ReadError String) {config : Config}
    (hv : config.validate = .ok ()) (hm : config.modulesDir = none) :
    load read config = .ok (withLibrary config .builtin) := by
  rw [load, hv, loadLibrary, hm]

theorem library_withLibrary (config : Config) (library : Library) :
    (withLibrary config library).library = library := by
  rw [withLibrary]

/-- With any configuration that is accepted and names no folder, an operator is right on a tape
that has the cells of its program. All five are right on six cells or more and on no fewer; only a
limit that leaves too few steps for a wrong result can hide it. -/
theorem load_rightOn (read : String → Except ReadError String) {config : Config}
    (hv : config.validate = .ok ()) (hm : config.modulesDir = none) :
    ∃ calculator, load read config = .ok calculator ∧
      (∀ op, op.width ≤ config.tapeSize.toNat → calculator.RightOn op) ∧
      ((∀ n, config.stepLimit = some n → 97 ≤ n.toNat) →
        ((∀ op, calculator.RightOn op) ↔ 6 ≤ config.tapeSize.toNat)) := by
  have hl := library_withLibrary config .builtin
  refine ⟨_, load_eq_ok read hv hm, fun op hop => ?_, fun hlimit => ⟨fun hright => ?_, ?_⟩⟩
  · exact rightOn_of_width hl (Nat.le_trans hop (Nat.le_max_left ..))
  · by_contra hlt
    obtain ⟨op, hop⟩ := Operator.exists_misleads (config.tapeSize_pos hv) (Nat.not_le.mp hlt)
    refine not_rightOn_of_misleads hl (fun n hn => ?_) hop (hright op)
    obtain ⟨word, hword, rfl⟩ := Option.map_eq_some_iff.mp hn
    exact hlimit word hword
  · intro hsix op
    exact rightOn_of_width hl (op.width_le hsix)

/-- The smallest tape for all the operators, under a limit. -/
theorem load_rightOn_six_cells :
    Config.validate { tapeSize := 6, stepLimit := some 1000 } = .ok () ∧
    ∃ calculator, load (fun _ => .error .notFound) { tapeSize := 6, stepLimit := some 1000 } =
      .ok calculator ∧ ∀ op, calculator.RightOn op := by
  have hv : Config.validate { tapeSize := 6, stepLimit := some 1000 } = .ok () := rfl
  obtain ⟨calculator, hload, -, hiff⟩ := load_rightOn (fun _ => .error .notFound) hv rfl
  refine ⟨hv, calculator, hload, (hiff fun n hn => ?_).mpr (by decide)⟩
  cases hn
  decide

/-- On one cell, which is accepted, 5 + 0 is 0: the second operand is read over the first. -/
theorem load_one_cell_wrong :
    Config.validate { tapeSize := 1 } = .ok () ∧
    ∃ calculator e, load (fun _ => .error .notFound) { tapeSize := 1 } = .ok calculator ∧
      calculator.evaluate 7 .eightBit .add (.ofByte 5) (.ofByte 0) = some (.ok e) ∧
      e.value.toNat? = some 0 ∧ Operator.documented .add (5 % 256) (0 % 256) = some 5 := by
  have hv : Config.validate { tapeSize := 1 } = .ok () := rfl
  have hrun : ((⟨1, none⟩ : Machine).execute 7 Operator.add.tree.program [5, 0]).map
      (fun answer => answer.toOption.map Report.output) = some (some [0]) := by decide +kernel
  obtain ⟨answer, hexec, hout⟩ := Option.map_eq_some_iff.mp hrun
  cases answer with
  | error fault => cases hout
  | ok report =>
    have ho : report.output = [0] := Option.some.inj hout
    refine ⟨hv, _, ⟨.finite (.ofByte 0), some report.counters⟩, load_eq_ok _ hv rfl, ?_, ?_, rfl⟩
    · rw [evaluate_of_execute (by simp), evaluationOf, ho]
      rwa [Number.lowCell_ofByte, Number.lowCell_ofByte, library_withLibrary, library_get_builtin,
        Operator.program_eq]
    · rw [Value.toNat?, Number.toNat_ofByte]
      rfl

end Calculator

end TapeCalc
