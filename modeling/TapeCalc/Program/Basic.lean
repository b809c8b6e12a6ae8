import TapeCalc.Program.Instruction

/-!
# Programs

A program is the sequence of its instructions and, for every bracket, the place of its partner.
Both come from one scan of the text that keeps the brackets still open on a stack.
-/
namespace TapeCalc

/-- A bracket without a partner, at a byte offset of the text. -/
inductive ProgramError where
  | unmatchedStart (offset : Nat)
  | unmatchedEnd (offset : Nat)
  deriving DecidableEq, Repr

/-- For a bracket `partners` holds the place of its partner, for any other instruction the
place itself. -/
structure Program where
  instructions : Array Instruction
  partners : Array Nat
  deriving DecidableEq, Repr

/-- What a scan has met so far. An open bracket is held with its place and its offset, the
innermost first. -/
structure Scan where
  instructions : Array Instruction := #[]
  partners : Array Nat := #[]
  opened : List (Nat × Nat) := []
  deriving DecidableEq, Repr

namespace Scan

/-- Appends an instruction met at a byte offset. -/
def push (offset : Nat) (i : Instruction) : Scan → Except ProgramError Scan
  | ⟨instructions, partners, opened⟩ =>
    let place := instructions.size
    match i, opened with
    | .loopStart, _ =>
      .ok ⟨instructions.push i, partners.push place, (place, offset) :: opened⟩
    | .loopEnd, [] => .error (.unmatchedEnd offset)
    | .loopEnd, (start, _) :: outer =>
      .ok ⟨instructions.push i, (partners.setIfInBounds start place).push start, outer⟩
    | _, _ => .ok ⟨instructions.push i, partners.push place, opened⟩

/-- Reads bytes from an offset on. -/
def read : List UInt8 → Nat → Scan → Except ProgramError Scan
  | [], _, scan => .ok scan
  | b :: bytes, offset, scan =>
    match Instruction.ofByte? b with
    | none => read bytes (offset + 1) scan
    | some i =>
      match push offset i scan with
      | .ok scan => read bytes (offset + 1) scan
      | .error e => .error e

/-- The program, unless a bracket is still open. -/
def finish : Scan → Except ProgramError Program
  | ⟨instructions, partners, []⟩ => .ok ⟨instructions, partners⟩
  | ⟨_, _, (_, offset) :: _⟩ => .error (.unmatchedStart offset)

end Scan

namespace Program

def ofBytes (bytes : List UInt8) : Except ProgramError Program :=
  match Scan.read bytes 0 {} with
  | .ok scan => scan.finish
  | .error e => .error e

/-- Reads the UTF-8 bytes of a text. -/
def parse (source : String) : Except ProgramError Program := ofBytes source.toUTF8.data.toList

def size (p : Program) : Nat := p.instructions.size

def fetch? (p : Program) (place : Nat) : Option Instruction := p.instructions[place]?

def partner? (p : Program) (place : Nat) : Option Nat := p.partners[place]?

/-- The instructions alone, without comments. -/
def text (p : Program) : String := String.ofList (p.instructions.toList.map Instruction.symbol)

/-- The greatest depth met from a depth on. -/
def deepest : List Instruction → Nat → Nat → Nat
  | [], _, most => most
  | .loopStart :: rest, depth, most => deepest rest (depth + 1) (max most (depth + 1))
  | .loopEnd :: rest, depth, most => deepest rest (depth - 1) most
  | _ :: rest, depth, most => deepest rest depth most

/-- How deep the loops are nested. -/
def maxDepth (p : Program) : Nat := deepest p.instructions.toList 0 0

end Program

end TapeCalc
