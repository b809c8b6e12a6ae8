import Mathlib.Logic.Function.Iterate
import TapeCalc.Program.Instruction
import TapeCalc.Proofs.TapeRing

/-!
# Round trips on the ring

Operations that come back to the cell where they start add the same amounts to the cells of the ring
every time, so any number of round trips adds those amounts that many times. Round trips that take
one off the cell where they start leave it at zero after as many as it holds.
-/
namespace TapeCalc

/-- What an instruction that touches nothing but the tape does to it. -/
def Instruction.operation? : Instruction → Option Tape.Operation
  | right => some .right
  | left => some .left
  | increment => some .increment
  | decrement => some .decrement
  | _ => none

def Instruction.operations (code : List Instruction) : List Tape.Operation :=
  code.filterMap operation?

theorem Instruction.written?_of_mem_operations {code : List Instruction} {op : Tape.Operation}
    (h : op ∈ operations code) : op.written? = none := by
  obtain ⟨i, -, hi⟩ := List.mem_filterMap.mp h
  cases i <;> cases hi <;> rfl

/-- To add 255 times is to take off. -/
@[simp] theorem add_mul_255 (x n : UInt8) : x + n * 255 = x - n := by grind

namespace Tape

open Operation

/-- Moves lead from one cell of a ring to another if their balance is the distance between them. -/
theorem Operation.emod_eq_iff {size home distance : Nat} (hd : distance < size) (moves : Int) :
    moves % size = distance ↔ (home + moves) % size = ((home + distance) % size : Nat) := by
  rw [Int.natCast_emod, Int.natCast_add, Int.emod_add_cancel_left, ← Int.natCast_emod,
    Nat.mod_eq_of_lt hd]

/-- The cell so many places to the right of the pointer. -/
def ahead (t : Tape) (distance : Nat) : UInt8 :=
  t.cells.getD ((t.pointer + distance) % t.size) 0

variable {t : Tape} {ops : List Operation}

theorem ahead_zero (t : Tape) : t.ahead 0 = t.read := by
  have hpointer : t.pointer % t.size = t.pointer := Nat.mod_eq_of_lt t.pointer_lt
  rw [ahead, Nat.add_zero, hpointer, Array.getD_eq_getD_getElem?, cells_pointer, Option.getD_some]

theorem getElem?_eq_ahead {i distance : Nat} (hi : i < t.size)
    (h : (t.pointer + distance) % t.size = i) : t.cells[i]? = some (t.ahead distance) := by
  rw [ahead, h, Array.getD_eq_getD_getElem?, Array.getElem?_eq_getElem hi, Option.getD_some]

/-- Every cell is some places to the right of the pointer. -/
theorem exists_distance (t : Tape) {i : Nat} (hi : i < t.size) :
    ∃ distance < t.size, (t.pointer + distance) % t.size = i := by
  have hlt : t.pointer < t.size := t.pointer_lt
  have hround : t.pointer + (i + (t.size - t.pointer)) = i + t.size := by omega
  refine ⟨(i + (t.size - t.pointer)) % t.size, Nat.mod_lt _ (Nat.zero_lt_of_lt hi), ?_⟩
  rw [Nat.add_mod_mod, hround, Nat.add_mod_right, Nat.mod_eq_of_lt hi]

theorem size_acts (t : Tape) (ops : List Operation) : (t.acts ops).size = t.size := by
  induction ops using List.reverseRecOn with
  | nil => rfl
  | append_singleton ops op ih => rw [acts_concat, size_act, ih]

theorem pointer_acts (t : Tape) (ops : List Operation) :
    ((t.acts ops).pointer : Int) = (t.pointer + displacement ops) % t.size := by
  induction ops using List.reverseRecOn with
  | nil =>
    change (t.pointer : Int) = (t.pointer + 0) % t.size
    rw [Int.add_zero, pointer_emod_size]
  | append_singleton ops op ih =>
    rw [acts_concat, pointer_act, size_acts, ih, Int.emod_add_emod, displacement_append,
      Int.add_assoc]

theorem toNat_getD_act (t : Tape) {op : Operation} (h : op.written? = none) (i : Nat) :
    (((t.act op).cells.getD i 0).toNat : Int) =
      ((t.cells.getD i 0).toNat + if i = t.pointer then balance [op] else 0) % 256 := by
  simp only [Array.getD_eq_getD_getElem?]
  by_cases hi : i = t.pointer
  · subst hi
    rw [cells_act_pointer, cells_pointer, Option.getD_some, Option.getD_some, if_pos rfl,
      toNat_result_of_written? h]
  · have hlt := (t.cells[i]?.getD 0).toNat_lt
    rw [cells_act_of_ne t op hi, if_neg hi]
    omega

/-- Operations that write nothing add to a cell what those among them do that find it. -/
theorem toNat_getD_acts (t : Tape) (h : ∀ op ∈ ops, op.written? = none) {distance : Nat}
    (hd : distance < t.size) :
    (((t.acts ops).cells.getD ((t.pointer + distance) % t.size) 0).toNat : Int) =
      ((t.ahead distance).toNat + balance (performedAt t.size distance ops)) % 256 := by
  induction ops using List.reverseRecOn with
  | nil =>
    have hlt := (t.ahead distance).toNat_lt
    change ((t.ahead distance).toNat : Int) = (_ + 0) % 256
    omega
  | append_singleton ops op ih =>
    have hbefore := ih fun x hx => h x (List.mem_append_left _ hx)
    have hop := h op (List.mem_append_right _ (List.mem_singleton_self op))
    have hfinds : (t.pointer + distance) % t.size = (t.acts ops).pointer ↔
        displacement ops % t.size = distance := by
      rw [emod_eq_iff hd, ← pointer_acts, Int.natCast_inj, eq_comm]
    rw [acts_concat, toNat_getD_act _ hop, hbefore, performedAt_concat, Int.emod_add_emod,
      Int.add_assoc]
    by_cases hat : displacement ops % t.size = distance
    · rw [if_pos (hfinds.mpr hat), if_pos hat, balance_append]
    · rw [if_neg (fun he => hat (hfinds.mp he)), if_neg hat, List.append_nil, Int.add_zero]

/-- Operations that write nothing and come back to where they started. -/
structure RoundTrip (size : Nat) (ops : List Operation) : Prop where
  written?_eq : ∀ op ∈ ops, op.written? = none
  displacement_eq : displacement ops % size = 0

theorem RoundTrip.pointer_acts (h : RoundTrip t.size ops) : (t.acts ops).pointer = t.pointer := by
  have hp := t.pointer_acts ops
  rw [Int.add_emod, h.displacement_eq, Int.add_zero, Int.emod_emod, pointer_emod_size] at hp
  exact Int.natCast_inj.mp hp

theorem RoundTrip.toNat_ahead_acts (h : RoundTrip t.size ops) {distance : Nat}
    (hd : distance < t.size) : (((t.acts ops).ahead distance).toNat : Int) =
      ((t.ahead distance).toNat + balance (performedAt t.size distance ops)) % 256 := by
  rw [ahead, h.pointer_acts, size_acts]
  exact t.toNat_getD_acts h.written?_eq hd

/-- What any number of round trips has made of a tape. -/
structure Trips (ops : List Operation) (n : Nat) (t u : Tape) : Prop where
  size_eq : u.size = t.size
  pointer_eq : u.pointer = t.pointer
  toNat_ahead : ∀ distance < t.size, ((u.ahead distance).toNat : Int) =
    ((t.ahead distance).toNat + n * balance (performedAt t.size distance ops)) % 256

theorem RoundTrip.trips (h : RoundTrip t.size ops) (n : Nat) :
    Trips ops n t ((fun u => u.acts ops)^[n] t) := by
  induction n with
  | zero =>
    refine ⟨rfl, rfl, fun distance _ => ?_⟩
    have hlt := (t.ahead distance).toNat_lt
    simp only [Function.iterate_zero_apply]
    omega
  | succ n ih =>
    rw [Function.iterate_succ_apply']
    have hnext : RoundTrip ((fun u => u.acts ops)^[n] t).size ops := ih.size_eq ▸ h
    refine ⟨(size_acts _ ops).trans ih.size_eq, hnext.pointer_acts.trans ih.pointer_eq,
      fun distance hd => ?_⟩
    rw [hnext.toNat_ahead_acts (ih.size_eq ▸ hd), ih.toNat_ahead distance hd, ih.size_eq,
      Int.emod_add_emod, Int.natCast_succ, Int.add_mul, Int.one_mul, Int.add_assoc]

/-- The trips add to a cell, as a byte, what one of them counts there that many times. -/
theorem Trips.ahead_eq {n c : UInt8} {u : Tape} (h : Trips ops n.toNat t u) {distance : Nat}
    (hd : distance < t.size)
    (hc : (c.toNat : Int) = balance (performedAt t.size distance ops) % 256) :
    u.ahead distance = t.ahead distance + n * c := by
  refine UInt8.toNat_inj.mp (Int.natCast_inj.mp ?_)
  calc ((u.ahead distance).toNat : Int)
    _ = ((t.ahead distance).toNat +
          n.toNat * balance (performedAt t.size distance ops) % 256) % 256 := by
      rw [h.toNat_ahead distance hd, Int.add_emod_emod]
    _ = ((t.ahead distance).toNat + n.toNat * c.toNat % 256) % 256 := by
      rw [hc, Int.mul_emod n.toNat (_ % 256), Int.emod_emod, ← Int.mul_emod]
    _ = ((t.ahead distance + n * c).toNat : Int) := by
      rw [UInt8.toNat_add, UInt8.toNat_mul, Nat.add_mod_mod, Int.natCast_emod, Int.natCast_add,
        Int.natCast_mul, Int.add_emod_emod]
      rfl

/-- Round trips that take one off the cell where they start. -/
structure CountsDown (size : Nat) (ops : List Operation) : Prop extends RoundTrip size ops where
  balance_eq : balance (performedAt size 0 ops) % 256 = 255

theorem CountsDown.toNat_read_acts (h : CountsDown t.size ops) (hpos : 0 < t.read.toNat) :
    (t.acts ops).read.toNat = t.read.toNat - 1 := by
  have hlt := t.read.toNat_lt
  have hone := h.balance_eq
  have htrip := h.toRoundTrip.toNat_ahead_acts (Nat.zero_lt_of_lt t.pointer_lt)
  rw [ahead_zero, ahead_zero] at htrip
  omega

/-- After as many trips as the cell holds it is empty. -/
theorem CountsDown.read_eq_zero (h : CountsDown t.size ops) {u : Tape}
    (hu : Trips ops t.read.toNat t u) : u.read = 0 := by
  have hread := hu.ahead_eq (c := 255) (Nat.zero_lt_of_lt t.pointer_lt) h.balance_eq.symm
  rwa [ahead_zero, ahead_zero, add_mul_255, UInt8.sub_self] at hread

end Tape

end TapeCalc
