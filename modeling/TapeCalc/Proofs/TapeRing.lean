import Mathlib.Data.List.DropRight
import TapeCalc.Tape

/-!
# The ring of cells

Where the pointer is after any operations, and what every cell holds, read off the operations
alone. The pointer is at the balance of the moves modulo the number of cells, and a cell holds the
byte last written at it with what was counted there since. A tape that carries no proof about its
pointer goes through the same operations, and each finds its cell.
-/
namespace TapeCalc.Tape

inductive Operation where
  | right
  | left
  | increment
  | decrement
  | write (c : UInt8)
  deriving DecidableEq, Repr

namespace Operation

/-- The right moves less the left moves. -/
def displacement (ops : List Operation) : Int := ops.count .right - ops.count .left

/-- The increments less the decrements. -/
def balance (ops : List Operation) : Int := ops.count .increment - ops.count .decrement

/-- The operations that find the pointer at a cell of a ring. -/
def performedAt (size i : Nat) (ops : List Operation) : List Operation :=
  (List.range ops.length).filterMap fun n =>
    if displacement (ops.take n) % size = i then ops[n]? else none

def written? : Operation → Option UInt8
  | write c => some c
  | _ => none

/-- The byte written last, and 0 if none is written. -/
def lastWritten (ops : List Operation) : UInt8 := (ops.filterMap written?).getLastD 0

/-- The operations after the last that writes. -/
def sinceWritten (ops : List Operation) : List Operation :=
  ops.rtakeWhile fun op => op.written?.isNone

/-- What the operations at one cell leave in it. -/
def content (ops : List Operation) : Int :=
  ((lastWritten ops).toNat + balance (sinceWritten ops)) % 256

theorem displacement_append (ops more : List Operation) :
    displacement (ops ++ more) = displacement ops + displacement more := by
  simp only [displacement, List.count_append]
  omega

theorem balance_append (ops more : List Operation) :
    balance (ops ++ more) = balance ops + balance more := by
  simp only [balance, List.count_append]
  omega

theorem performedAt_concat (size i : Nat) (ops : List Operation) (op : Operation) :
    performedAt size i (ops ++ [op]) =
      performedAt size i ops ++ if displacement ops % size = i then [op] else [] := by
  have hbefore : ∀ n ∈ List.range ops.length,
      (if displacement ((ops ++ [op]).take n) % size = i then (ops ++ [op])[n]? else none) =
        if displacement (ops.take n) % size = i then ops[n]? else none := by
    intro n hn
    have hlt := List.mem_range.mp hn
    rw [List.take_append_of_le_length (Nat.le_of_lt hlt), List.getElem?_append_left hlt]
  unfold performedAt
  rw [List.length_append, List.length_singleton, List.range_succ, List.filterMap_append,
    List.filterMap_congr hbefore]
  congr 1
  by_cases h : displacement ops % size = i
  · simp [h]
  · simp [h]

/-- An operation that moves nowhere is performed at the start, and the rest where they were. -/
theorem performedAt_cons {op : Operation} (h : displacement [op] = 0) (size i : Nat)
    (ops : List Operation) :
    performedAt size i (op :: ops) = (if i = 0 then [op] else []) ++ performedAt size i ops := by
  induction ops using List.reverseRecOn with
  | nil =>
    rw [← List.nil_append [op], performedAt_concat]
    simp [performedAt, displacement, eq_comm]
  | append_singleton ops last ih =>
    have hmoves : displacement (op :: ops) = displacement ops := by
      rw [← List.singleton_append, displacement_append, h, Int.zero_add]
    rw [← List.cons_append, performedAt_concat, ih, performedAt_concat, hmoves, List.append_assoc]

theorem lastWritten_concat (ops : List Operation) (op : Operation) :
    lastWritten (ops ++ [op]) = op.written?.getD (lastWritten ops) := by
  unfold lastWritten
  rw [List.filterMap_append]
  cases h : op.written? with
  | none => simp [h]
  | some c => simp [h]

theorem sinceWritten_concat (ops : List Operation) (op : Operation) :
    sinceWritten (ops ++ [op]) = if op.written?.isNone then sinceWritten ops ++ [op] else [] := by
  unfold sinceWritten
  by_cases h : op.written?.isNone = true
  · rw [if_pos h]
    exact List.rtakeWhile_concat_pos (fun op => op.written?.isNone) ops op h
  · rw [if_neg h]
    exact List.rtakeWhile_concat_neg (fun op => op.written?.isNone) ops op h

theorem content_concat (ops : List Operation) {op : Operation} (h : op.written? = none) :
    content (ops ++ [op]) = (content ops + balance [op]) % 256 := by
  rw [content, lastWritten_concat, sinceWritten_concat, h, Option.isNone_none, if_pos rfl,
    Option.getD_none, balance_append, ← Int.add_assoc, content, Int.emod_add_emod]

theorem content_concat_write (ops : List Operation) (c : UInt8) :
    content (ops ++ [.write c]) = c.toNat := by
  have hlt := c.toNat_lt
  rw [content, lastWritten_concat, sinceWritten_concat]
  simp only [written?, Option.getD_some, Option.isNone_some, balance]
  simp
  omega

/-- The byte that an operation leaves in the cell that it finds. -/
def result (c : UInt8) : Operation → UInt8
  | right => c
  | left => c
  | increment => c + 1
  | decrement => c - 1
  | write d => d

/-- An operation that writes nothing adds to the byte that it finds. -/
theorem toNat_result_of_written? {op : Operation} (h : op.written? = none) (c : UInt8) :
    ((op.result c).toNat : Int) = (c.toNat + balance [op]) % 256 := by
  have hlt := c.toNat_lt
  cases op with
  | right =>
    rw [result, balance]
    simp
    omega
  | left =>
    rw [result, balance]
    simp
    omega
  | increment =>
    rw [result, UInt8.toNat_add, balance]
    simp
  | decrement =>
    rw [result, UInt8.toNat_sub, balance]
    simp
    omega
  | write d => cases h

/-- What the operations at a cell leave in it is carried on by the next. -/
theorem toNat_result {ops : List Operation} {c : UInt8} (h : (c.toNat : Int) = content ops)
    (op : Operation) : ((op.result c).toNat : Int) = content (ops ++ [op]) := by
  cases hw : op.written? with
  | none => rw [content_concat ops hw, ← h, toNat_result_of_written? hw]
  | some d =>
    cases op with
    | write d => exact (content_concat_write ops d).symm
    | _ => cases hw

end Operation

open Operation

def act (t : Tape) : Operation → Tape
  | .right => t.moveRight
  | .left => t.moveLeft
  | .increment => t.increment
  | .decrement => t.decrement
  | .write c => t.write c

def acts (t : Tape) (ops : List Operation) : Tape := ops.foldl act t

theorem acts_concat (t : Tape) (ops : List Operation) (op : Operation) :
    t.acts (ops ++ [op]) = (t.acts ops).act op := List.foldl_concat ..

theorem size_act (t : Tape) (op : Operation) : (t.act op).size = t.size := by
  cases op with
  | right => rw [act, size, cells_moveRight, size]
  | left => rw [act, size, cells_moveLeft, size]
  | increment => exact size_write _ t
  | decrement => exact size_write _ t
  | write c => exact size_write c t

theorem cells_act_pointer (t : Tape) (op : Operation) :
    (t.act op).cells[t.pointer]? = some (op.result t.read) := by
  cases op with
  | right => rw [act, cells_moveRight, cells_pointer, result]
  | left => rw [act, cells_moveLeft, cells_pointer, result]
  | increment => exact cells_pointer (t.write _) |>.trans (by rw [read_write, result])
  | decrement => exact cells_pointer (t.write _) |>.trans (by rw [read_write, result])
  | write c => exact cells_pointer (t.write c) |>.trans (by rw [read_write, result])

/-- An operation changes no cell but the one that it finds. -/
theorem cells_act_of_ne (t : Tape) (op : Operation) {i : Nat} (h : i ≠ t.pointer) :
    (t.act op).cells[i]? = t.cells[i]? := by
  cases op with
  | right => rw [act, cells_moveRight]
  | left => rw [act, cells_moveLeft]
  | increment => rw [act, increment, cells_write_getElem?, if_neg h]
  | decrement => rw [act, decrement, cells_write_getElem?, if_neg h]
  | write c => rw [act, cells_write_getElem?, if_neg h]

theorem pointer_emod_size (t : Tape) : (t.pointer : Int) % t.size = t.pointer := by
  have hlt : t.pointer < t.size := t.pointer_lt
  exact Int.emod_eq_of_lt (by omega) (by omega)

theorem pointer_act (t : Tape) (op : Operation) :
    ((t.act op).pointer : Int) = (t.pointer + displacement [op]) % t.size := by
  have hlt : t.pointer < t.size := t.pointer_lt
  have hstay : (t.pointer : Int) = (t.pointer + 0) % t.size := by
    rw [Int.add_zero, pointer_emod_size]
  cases op with
  | right => rw [act, pointer_moveRight, Int.natCast_emod, Int.natCast_add]; rfl
  | left =>
    have hback : ((t.pointer + (t.size - 1) : Nat) : Int) = t.pointer + -1 + t.size := by omega
    rw [act, pointer_moveLeft, Int.natCast_emod, hback, Int.add_emod_right]
    rfl
  | increment => exact hstay
  | decrement => exact hstay
  | write c => exact hstay

/-- What the operations on a blank tape have made of it. -/
structure Ring (size : Nat) (ops : List Operation) (t : Tape) : Prop where
  size_eq : t.size = size
  pointer_eq : (t.pointer : Int) = displacement ops % size
  cell_eq : ∀ i c, t.cells[i]? = some c → (c.toNat : Int) = content (performedAt size i ops)

theorem Ring.blank (size : Nat) : Ring (max size 1) [] (blank size) where
  size_eq := size_blank size
  pointer_eq := by simp [Tape.blank, displacement]
  cell_eq i c h := by
    obtain ⟨hi, rfl⟩ := Array.getElem?_eq_some_iff.mp h
    simp [Tape.blank, performedAt, content, lastWritten, sinceWritten, balance]

theorem Ring.act {size : Nat} {ops : List Operation} {t : Tape} (h : Ring size ops t)
    (op : Operation) : Ring size (ops ++ [op]) (t.act op) where
  size_eq := (t.size_act op).trans h.size_eq
  pointer_eq := by
    rw [pointer_act, h.size_eq, h.pointer_eq, Int.emod_add_emod, displacement_append]
  cell_eq i c hc := by
    rw [performedAt_concat, ← h.pointer_eq]
    by_cases hi : i = t.pointer
    · subst hi
      rw [cells_act_pointer, Option.some.injEq] at hc
      rw [if_pos rfl, ← hc]
      exact toNat_result (h.cell_eq _ _ t.cells_pointer) op
    · rw [cells_act_of_ne t op hi] at hc
      rw [if_neg (by omega), List.append_nil]
      exact h.cell_eq i c hc

theorem ring_acts (size : Nat) (ops : List Operation) :
    Ring (max size 1) ops ((blank size).acts ops) := by
  induction ops using List.reverseRecOn with
  | nil => exact .blank size
  | append_singleton ops op ih =>
    rw [acts_concat]
    exact ih.act op

/-- A tape that says nothing about where its pointer is. -/
structure Bare where
  cells : Array UInt8
  pointer : Nat
  deriving DecidableEq, Repr

def bare (t : Tape) : Bare := ⟨t.cells, t.pointer⟩

namespace Bare

def blank (size : Nat) : Bare := ⟨Array.replicate (max size 1) 0, 0⟩

/-- Changes the cell under the pointer, if there is one. -/
def change? (f : UInt8 → UInt8) (b : Bare) : Option Bare :=
  b.cells[b.pointer]?.map fun c => { b with cells := b.cells.setIfInBounds b.pointer (f c) }

/-- Carries out an operation, unless it looks for a cell that is not there. -/
def act? (b : Bare) : Operation → Option Bare
  | .right =>
    some { b with pointer := if b.pointer + 1 = b.cells.size then 0 else b.pointer + 1 }
  | .left =>
    if b.cells.size = 0 then none
    else some { b with pointer := if b.pointer = 0 then b.cells.size - 1 else b.pointer - 1 }
  | .increment => b.change? (· + 1)
  | .decrement => b.change? (· - 1)
  | .write c => b.change? fun _ => c

def acts? (b : Bare) (ops : List Operation) : Option Bare := ops.foldlM act? b

theorem change?_bare (t : Tape) (f : UInt8 → UInt8) :
    t.bare.change? f = some (t.write (f t.read)).bare := by
  have hread : t.bare.cells[t.bare.pointer]? = some t.read := t.cells_pointer
  rw [change?, hread, Option.map_some, bare, bare, write, Array.setIfInBounds,
    dif_pos t.pointer_lt]

theorem act?_bare (t : Tape) (op : Operation) : t.bare.act? op = some (t.act op).bare := by
  have hlt := t.pointer_lt
  cases op with
  | right =>
    have hnext : t.moveRight.pointer =
        if t.pointer + 1 = t.cells.size then 0 else t.pointer + 1 := by
      unfold moveRight
      split
      next h => rw [if_neg (Nat.ne_of_lt h)]
      next h => rw [if_pos (Nat.le_antisymm hlt (Nat.le_of_not_lt h))]
    rw [act?, act, bare, bare, cells_moveRight, hnext]
  | left =>
    have hnext : t.moveLeft.pointer =
        if t.pointer = 0 then t.cells.size - 1 else t.pointer - 1 := by
      unfold moveLeft
      split <;> rfl
    have hne : ¬ t.bare.cells.size = 0 := Nat.ne_of_gt (Nat.zero_lt_of_lt hlt)
    rw [act?, if_neg hne, act, bare, bare, cells_moveLeft, hnext]
  | increment => exact change?_bare t (· + 1)
  | decrement => exact change?_bare t (· - 1)
  | write c => exact change?_bare t fun _ => c

theorem acts?_bare (t : Tape) (ops : List Operation) :
    t.bare.acts? ops = some (t.acts ops).bare := by
  induction ops generalizing t with
  | nil => rfl
  | cons op ops ih =>
    rw [acts?, List.foldlM_cons, act?_bare]
    exact ih (t.act op)

end Bare

/-- After any operations on a blank tape the pointer and every cell are what the operations tell.
Without the proof that the pointer is on the tape they come to the same, so that none looks for a
cell that is not there, and none changes a cell other than the one under the pointer. -/
theorem blank_acts_ring (size : Nat) (ops : List Operation) :
    Ring (max size 1) ops ((blank size).acts ops) ∧
    (Bare.blank size).acts? ops = some ((blank size).acts ops).bare ∧
    ∀ op i, i ≠ ((blank size).acts ops).pointer →
      (((blank size).acts ops).act op).cells[i]? = ((blank size).acts ops).cells[i]? :=
  ⟨ring_acts size ops, Bare.acts?_bare (blank size) ops,
    fun op _ hi => cells_act_of_ne ((blank size).acts ops) op hi⟩

/-- On a tape of one cell both neighbours are the cell itself. -/
example : ((blank 0).acts [.decrement, .left, .write 7, .right, .increment]).bare =
    ⟨#[8], 0⟩ := by decide

end TapeCalc.Tape
