import TapeCalc.Calculator
import TapeCalc.Proofs.Builtin
import TapeCalc.Proofs.ExactArithmetic

/-!
# The two modes

Where the tape machine with the built-in programs and exact arithmetic agree: the low cell of a
sum, a difference that stays above zero, a product or a power with a small exponent depends on
the low cells of the operands only.
-/
namespace TapeCalc

namespace Operator

/-- The value that 8-bit mode gives for two bytes. -/
def byteResult (op : Operator) (a b : UInt8) : Value :=
  if op = .div ∧ b = 0 then .infinity else .finite (.ofByte (op.onBytes a b))

theorem byteResult_eq_infinity_iff (op : Operator) (a b : UInt8) :
    op.byteResult a b = .infinity ↔ op = .div ∧ b = 0 := by
  unfold byteResult
  split
  next h => exact iff_of_true rfl h
  next h => exact iff_of_false nofun h

/-- The operands for which their low cells decide the low cell of the result. -/
def Congruent : Operator → Nat → Nat → Prop
  | add, _, _ => True
  | sub, a, b => b ≤ a
  | mul, _, _ => True
  | div, a, b => a < 256 ∧ b < 256
  | pow, _, b => b < 256

theorem onBytes_lowCell {op : Operator} {a b n : Number} (hc : op.Congruent a.toNat b.toNat)
    (h : op.exact a.toNat b.toNat = some n.toNat) :
    op.onBytes a.lowCell b.lowCell = n.lowCell := by
  apply UInt8.toNat_inj.mp
  rw [toNat_onBytes, Number.toNat_lowCell, Number.toNat_lowCell, Number.toNat_lowCell]
  cases op with
  | add => rw [← Option.some.inj h, byteValue, ← Nat.add_mod]
  | sub =>
    have hle : b.toNat ≤ a.toNat := hc
    rw [← Option.some.inj h, byteValue]
    omega
  | mul => rw [← Option.some.inj h, byteValue, ← Nat.mul_mod]
  | div =>
    obtain ⟨ha, hb⟩ := hc
    rw [exact] at h
    split at h
    next => cases h
    next hne =>
      have hlt := Nat.lt_of_le_of_lt (Nat.div_le_self a.toNat b.toNat) ha
      rw [← Option.some.inj h, byteValue, Nat.mod_eq_of_lt ha, Nat.mod_eq_of_lt hb, if_neg hne,
        Nat.mod_eq_of_lt hlt]
  | pow =>
    have hb : b.toNat < 256 := hc
    rw [← Option.some.inj h, byteValue, Nat.mod_eq_of_lt hb, ← Nat.pow_mod]

end Operator

namespace Number

theorem lowCell_eq_zero_iff (n : Number) : n.lowCell = 0 ↔ 256 ∣ n.toNat := by
  rw [← UInt8.toNat_inj, toNat_lowCell, Nat.dvd_iff_mod_eq_zero, UInt8.toNat_zero]

theorem toNat_ofByte (c : UInt8) : (ofByte c).toNat = c.toNat := by
  rw [ofByte, toNat_ofCells]
  simp [Cells.value]

theorem lowCell_ofByte (c : UInt8) : (ofByte c).lowCell = c := by
  rw [← UInt8.toNat_inj, toNat_lowCell, toNat_ofByte]
  exact Nat.mod_eq_of_lt c.toNat_lt

end Number

namespace Calculator

/-- An evaluation comes to an answer, and with any fuel to no other. -/
structure Returns (calculator : Calculator) (mode : Mode) (op : Operator) (a b : Number)
    (answer : Except Failure Value) : Prop where
  comes : ∃ fuel e, calculator.evaluate fuel mode op a b = some e ∧
    e.map Evaluation.value = answer
  only : ∀ fuel e, calculator.evaluate fuel mode op a b = some e →
    e.map Evaluation.value = answer

variable {calculator : Calculator} {mode : Mode} {op : Operator} {a b : Number}

theorem Returns.unique {answer other : Except Failure Value}
    (h : calculator.Returns mode op a b answer) (g : calculator.Returns mode op a b other) :
    answer = other := by
  obtain ⟨fuel, e, he, rfl⟩ := h.comes
  exact g.only fuel e he

theorem returns_bigNumber (calculator : Calculator) (op : Operator) (a b : Number) :
    calculator.Returns .bigNumber op a b (calculator.evaluateBig op a b) := by
  have hmap : ∀ answer : Except Failure Value,
      (answer.map fun value => (⟨value, none⟩ : Evaluation)).map Evaluation.value = answer := by
    rintro (_ | _) <;> rfl
  constructor
  · exact ⟨0, _, rfl, hmap _⟩
  · rintro fuel e he
    cases he
    exact hmap _

theorem library_get_builtin (op : Operator) : (Library.builtin.get op).program = op.program := by
  cases op <;> simp only [Library.get, Library.builtin, Entry.builtin]

theorem evaluate_of_execute {fuel : Nat} {report : Report} (hz : ¬ (op = .div ∧ b.lowCell = 0))
    (h : calculator.machine.execute fuel (calculator.library.get op).program
      [a.lowCell, b.lowCell] = some (.ok report)) :
    calculator.evaluate fuel .eightBit op a b = some (evaluationOf op report) := by
  rw [evaluate, evaluateEightBit, if_neg hz, h]
  rfl

theorem execute_of_evaluate {fuel : Nat} {e : Except Failure Evaluation}
    (hz : ¬ (op = .div ∧ b.lowCell = 0))
    (h : calculator.evaluate fuel .eightBit op a b = some e) :
    ∃ answer, calculator.machine.execute fuel (calculator.library.get op).program
      [a.lowCell, b.lowCell] = some answer := by
  rw [evaluate, evaluateEightBit, if_neg hz] at h
  obtain ⟨answer, hexec, _⟩ := Option.map_eq_some_iff.mp h
  exact ⟨answer, hexec⟩

theorem returns_eightBit (hl : calculator.library = .builtin)
    (ht : op.width ≤ max calculator.machine.tapeSize 1)
    (hs : calculator.machine.stepLimit = none) :
    calculator.Returns .eightBit op a b (.ok (op.byteResult a.lowCell b.lowCell)) := by
  by_cases hz : op = .div ∧ b.lowCell = 0
  · have heval : ∀ fuel, calculator.evaluate fuel .eightBit op a b =
        some (.ok ⟨.infinity, none⟩) := fun fuel => if_pos hz
    rw [Operator.byteResult, if_pos hz]
    refine ⟨⟨0, _, heval 0, rfl⟩, fun fuel e he => ?_⟩
    rw [heval] at he
    cases he
    rfl
  · obtain ⟨fuel, s, hrun, _, ho⟩ := op.runToEnd_program ht a.lowCell b.lowCell []
    have hends : calculator.machine.Ends (calculator.library.get op).program
        [a.lowCell, b.lowCell] (.ok s.report) := by
      rw [← hs] at hrun
      rw [hl, library_get_builtin]
      exact .of_execute (Machine.execute_of_runToEnd hrun)
    have hanswer : (evaluationOf op s.report).map Evaluation.value =
        .ok (op.byteResult a.lowCell b.lowCell) := by
      rw [Operator.byteResult, if_neg hz]
      simp [evaluationOf, State.report, ho, Except.map]
    constructor
    · obtain ⟨fuel, hexec⟩ := hends.comes
      exact ⟨fuel, _, evaluate_of_execute hz hexec, hanswer⟩
    · intro fuel e he
      obtain ⟨answer, hexec⟩ := execute_of_evaluate hz he
      rw [hends.only fuel answer hexec] at hexec
      rw [evaluate_of_execute hz hexec] at he
      cases he
      exact hanswer

/-- Where the two modes agree on two numbers, and where each of them gives infinity. -/
structure ModesAgree (calculator : Calculator) (a b : Number) : Prop where
  add_mul : ∀ op, op = .add ∨ op = .mul → ∃ n,
    calculator.Returns .bigNumber op a b (.ok (.finite n)) ∧
    calculator.Returns .eightBit op a b (.ok (.finite (.ofByte n.lowCell)))
  sub : b.toNat ≤ a.toNat → ∃ n,
    calculator.Returns .bigNumber .sub a b (.ok (.finite n)) ∧
    calculator.Returns .eightBit .sub a b (.ok (.finite (.ofByte n.lowCell)))
  pow : b.toNat < 256 → ∀ v, calculator.Returns .bigNumber .pow a b (.ok v) → ∃ n,
    v = .finite n ∧ calculator.Returns .eightBit .pow a b (.ok (.finite (.ofByte n.lowCell)))
  div : a.toNat < 256 → b.toNat < 256 → ∃ v,
    calculator.Returns .bigNumber .div a b (.ok v) ∧
    calculator.Returns .eightBit .div a b (.ok v)
  infinity_eightBit : ∀ op,
    calculator.Returns .eightBit op a b (.ok .infinity) ↔ op = .div ∧ 256 ∣ b.toNat
  infinity_bigNumber : ∀ op,
    calculator.Returns .bigNumber op a b (.ok .infinity) ↔ op = .div ∧ b.toNat = 0

theorem evaluateBig_eq_ok_iff {v : Value} :
    calculator.evaluateBig op a b = .ok v ↔ op.apply calculator.limits a b = .ok v := by
  unfold evaluateBig
  cases op.apply calculator.limits a b <;> simp

theorem returns_bigNumber_ok_iff {v : Value} :
    calculator.Returns .bigNumber op a b (.ok v) ↔ op.apply calculator.limits a b = .ok v := by
  rw [← evaluateBig_eq_ok_iff]
  refine ⟨fun h => (returns_bigNumber calculator op a b).unique h, fun h => ?_⟩
  rw [← h]
  exact returns_bigNumber calculator op a b

section

variable (hl : calculator.library = .builtin) (ht : 6 ≤ calculator.machine.tapeSize)
  (hs : calculator.machine.stepLimit = none)

include hl ht hs

theorem returns_lowCell {n : Number} (hc : op.Congruent a.toNat b.toNat)
    (h : calculator.Returns .bigNumber op a b (.ok (.finite n))) :
    calculator.Returns .eightBit op a b (.ok (.finite (.ofByte n.lowCell))) := by
  have hexact : op.exact a.toNat b.toNat = some n.toNat := by
    refine (Operator.toNat?_of_apply ?_ (returns_bigNumber_ok_iff.mp h)).symm
    rintro rfl
    have hlt : b.toNat < 256 := hc
    exact .inr (by omega)
  have hne : ¬ (op = .div ∧ b.lowCell = 0) := by
    rintro ⟨rfl, hz⟩
    have hlt : b.toNat < 256 := hc.2
    have hzero := Nat.eq_zero_of_dvd_of_lt (b.lowCell_eq_zero_iff.mp hz) hlt
    rw [Operator.exact, if_pos hzero] at hexact
    cases hexact
  have hret := returns_eightBit (a := a) (b := b) hl (op.width_le ht) hs
  rwa [Operator.byteResult, if_neg hne, Operator.onBytes_lowCell hc hexact] at hret

theorem returns_div (ha : a.toNat < 256) (hb : b.toNat < 256) :
    calculator.Returns .eightBit .div a b (.ok (a.div b)) := by
  have hvalue := Number.toNat?_div a b
  cases hv : a.div b with
  | finite n =>
    rw [hv] at hvalue
    split at hvalue
    next => cases hvalue
    next =>
      have hle := Nat.div_le_self a.toNat b.toNat
      have hn : n.toNat = a.toNat / b.toNat := Option.some.inj hvalue
      have hlow : .ofByte n.lowCell = n := by
        rw [← Number.toNat_inj, Number.toNat_ofByte, Number.toNat_lowCell]
        exact Nat.mod_eq_of_lt (by omega)
      have hcells : Operator.Congruent .div a.toNat b.toNat := ⟨ha, hb⟩
      have hbig : calculator.Returns .bigNumber .div a b (.ok (.finite n)) :=
        returns_bigNumber_ok_iff.mpr (congrArg Except.ok hv)
      have hret := returns_lowCell hl ht hs hcells hbig
      rwa [hlow] at hret
  | infinity =>
    rw [hv] at hvalue
    split at hvalue
    next hz =>
      have hlow : b.lowCell = 0 := b.lowCell_eq_zero_iff.mpr ⟨0, hz⟩
      have hret := returns_eightBit (a := a) (b := b) hl (Operator.width_le .div ht) hs
      rwa [Operator.byteResult, if_pos ⟨rfl, hlow⟩] at hret
    next => cases hvalue

theorem returns_eightBit_infinity_iff :
    calculator.Returns .eightBit op a b (.ok .infinity) ↔ op = .div ∧ 256 ∣ b.toNat := by
  have hret := returns_eightBit (a := a) (b := b) hl (op.width_le ht) hs
  rw [← b.lowCell_eq_zero_iff, ← op.byteResult_eq_infinity_iff a.lowCell]
  constructor
  · intro h
    exact Except.ok.inj (hret.unique h)
  · intro h
    rwa [h] at hret

end

/-- On the built-in library the modes agree, for numbers of any size. -/
theorem modesAgree (hl : calculator.library = .builtin) (ht : 6 ≤ calculator.machine.tapeSize)
    (hs : calculator.machine.stepLimit = none) (a b : Number) : calculator.ModesAgree a b where
  add_mul op hop := by
    rcases hop with rfl | rfl
    · have hbig : calculator.Returns .bigNumber .add a b (.ok (.finite (a + b))) :=
        returns_bigNumber_ok_iff.mpr rfl
      exact ⟨a + b, hbig, returns_lowCell hl ht hs trivial hbig⟩
    · have hbig : calculator.Returns .bigNumber .mul a b (.ok (.finite (a * b))) :=
        returns_bigNumber_ok_iff.mpr rfl
      exact ⟨a * b, hbig, returns_lowCell hl ht hs trivial hbig⟩
  sub hle := by
    have hbig : calculator.Returns .bigNumber .sub a b (.ok (.finite (a - b))) :=
      returns_bigNumber_ok_iff.mpr rfl
    exact ⟨a - b, hbig, returns_lowCell hl ht hs hle hbig⟩
  pow hlt v hbig := by
    cases v with
    | finite n => exact ⟨n, rfl, returns_lowCell hl ht hs hlt hbig⟩
    | infinity =>
      have hdiv := Operator.apply_eq_infinity_iff.mp (returns_bigNumber_ok_iff.mp hbig)
      cases hdiv.1
  div ha hb :=
    ⟨a.div b, returns_bigNumber_ok_iff.mpr rfl, returns_div hl ht hs ha hb⟩
  infinity_eightBit op := returns_eightBit_infinity_iff hl ht hs
  infinity_bigNumber op := by
    rw [returns_bigNumber_ok_iff, Operator.apply_eq_infinity_iff]

/-- Two numbers of two cells, on the default tape. -/
theorem modesAgree_default :
    (withLibrary {} .builtin).library = .builtin ∧
    6 ≤ (withLibrary {} .builtin).machine.tapeSize ∧
    (withLibrary {} .builtin).machine.stepLimit = none ∧
    (withLibrary {} .builtin).ModesAgree (.ofCells [44, 1]) (.ofCells [0, 2]) := by
  have hl : (withLibrary {} .builtin).library = .builtin := by rw [withLibrary]
  have ht : 6 ≤ (withLibrary {} .builtin).machine.tapeSize := by
    rw [withLibrary]
    decide
  have hs : (withLibrary {} .builtin).machine.stepLimit = none := by
    rw [withLibrary]
    rfl
  exact ⟨hl, ht, hs, modesAgree hl ht hs (.ofCells [44, 1]) (.ofCells [0, 2])⟩

end Calculator

end TapeCalc
