/-!
# Tape

A ring of byte cells under a pointer. Cells wrap modulo 256 and the pointer wraps at both ends,
so every operation is defined everywhere.
-/
namespace TapeCalc

structure Tape where
  cells : Array UInt8
  pointer : Nat
  pointer_lt : pointer < cells.size
  deriving DecidableEq

namespace Tape

/-- A tape of zeros; a tape has at least one cell. -/
def blank (size : Nat) : Tape :=
  ⟨Array.replicate (max size 1) 0, 0, by rw [Array.size_replicate]; omega⟩

def size (t : Tape) : Nat := t.cells.size

/-- The cell under the pointer. -/
def read : Tape → UInt8
  | ⟨cells, pointer, _⟩ => cells[pointer]

def write (c : UInt8) (t : Tape) : Tape :=
  ⟨t.cells.set t.pointer c t.pointer_lt, t.pointer, by rw [Array.size_set]; exact t.pointer_lt⟩

def increment (t : Tape) : Tape := t.write (t.read + 1)

def decrement (t : Tape) : Tape := t.write (t.read - 1)

def moveRight (t : Tape) : Tape :=
  if h : t.pointer + 1 < t.cells.size then ⟨t.cells, t.pointer + 1, h⟩
  else ⟨t.cells, 0, Nat.zero_lt_of_lt t.pointer_lt⟩

def moveLeft (t : Tape) : Tape :=
  if t.pointer = 0 then ⟨t.cells, t.cells.size - 1, Nat.sub_one_lt_of_lt t.pointer_lt⟩
  else ⟨t.cells, t.pointer - 1, Nat.lt_of_le_of_lt (Nat.sub_le ..) t.pointer_lt⟩

/-- The cells from one place up to another, as far as the tape has them. -/
def window (t : Tape) (start stop : Nat) : List UInt8 := (t.cells.extract start stop).toList

@[simp] theorem size_blank (size : Nat) : (blank size).size = max size 1 := by
  simp [blank, Tape.size]

@[simp] theorem size_write (c : UInt8) (t : Tape) : (t.write c).size = t.size := by
  simp [write, size]

@[simp] theorem read_write (c : UInt8) (t : Tape) : (t.write c).read = c := by
  simp [write, read]

/-- A write leaves every cell but the one under the pointer. -/
theorem cells_write_getElem? (c : UInt8) (t : Tape) (i : Nat) :
    (t.write c).cells[i]? = if i = t.pointer then some c else t.cells[i]? := by
  rw [write, Array.getElem?_set]
  by_cases h : t.pointer = i
  · rw [if_pos h, if_pos h.symm]
  · rw [if_neg h, if_neg fun e => h e.symm]

theorem cells_pointer (t : Tape) : t.cells[t.pointer]? = some t.read := by
  cases t
  simp [read, *]

@[simp] theorem cells_moveRight (t : Tape) : t.moveRight.cells = t.cells := by
  unfold moveRight
  split <;> rfl

@[simp] theorem cells_moveLeft (t : Tape) : t.moveLeft.cells = t.cells := by
  unfold moveLeft
  split <;> rfl

theorem pointer_moveRight (t : Tape) : t.moveRight.pointer = (t.pointer + 1) % t.size := by
  have := t.pointer_lt
  unfold moveRight size
  split
  next h => exact (Nat.mod_eq_of_lt h).symm
  next h =>
    have : t.pointer + 1 = t.cells.size := by omega
    simp [this]

theorem pointer_moveLeft (t : Tape) :
    t.moveLeft.pointer = (t.pointer + (t.size - 1)) % t.size := by
  have := t.pointer_lt
  unfold moveLeft size
  split
  next h =>
    rw [h, Nat.zero_add]
    exact (Nat.mod_eq_of_lt (Nat.sub_one_lt_of_lt this)).symm
  next h =>
    have : t.pointer + (t.cells.size - 1) = t.pointer - 1 + t.cells.size := by omega
    rw [this, Nat.add_mod_right, Nat.mod_eq_of_lt (by omega)]

end Tape

end TapeCalc
