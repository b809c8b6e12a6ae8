/-!
# Instructions

The eight instructions of the tape machine and the bytes that write them. Every other byte of a
program text is a comment.
-/
namespace TapeCalc

inductive Instruction where
  | right
  | left
  | increment
  | decrement
  | output
  | input
  | loopStart
  | loopEnd
  deriving DecidableEq, Repr

namespace Instruction

def all : List Instruction :=
  [right, left, increment, decrement, output, input, loopStart, loopEnd]

def symbol : Instruction → Char
  | right => '>'
  | left => '<'
  | increment => '+'
  | decrement => '-'
  | output => '.'
  | input => ','
  | loopStart => '['
  | loopEnd => ']'

def byte (i : Instruction) : UInt8 := i.symbol.toUInt8

/-- The instruction that a byte writes, if it writes one. -/
def ofByte? (b : UInt8) : Option Instruction :=
  if b = 62 then some right
  else if b = 60 then some left
  else if b = 43 then some increment
  else if b = 45 then some decrement
  else if b = 46 then some output
  else if b = 44 then some input
  else if b = 91 then some loopStart
  else if b = 93 then some loopEnd
  else none

/-- The place in `all`, and in the counts of a run. -/
def index : Instruction → Fin 8
  | right => 0
  | left => 1
  | increment => 2
  | decrement => 3
  | output => 4
  | input => 5
  | loopStart => 6
  | loopEnd => 7

theorem ofByte?_byte (i : Instruction) : ofByte? i.byte = some i := by cases i <;> decide

theorem index_inj {i j : Instruction} : i.index = j.index ↔ i = j := by
  cases i <;> cases j <;> decide

end Instruction

end TapeCalc
