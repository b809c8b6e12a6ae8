import TapeCalc.FileTree
import TapeCalc.Library.Builtin

/-!
# Program libraries

One program for each operator, with a note of where it came from. A library read from a folder
takes the built-in program for each file that is not there.
-/
namespace TapeCalc

inductive Origin where
  | builtin
  | file (path : String)
  | custom
  deriving DecidableEq, Repr

structure Entry where
  program : Program
  origin : Origin
  deriving DecidableEq, Repr

inductive LibraryError where
  | unreadable (path : String) (cause : ReadError)
  | malformed (path : String) (cause : ProgramError)
  deriving DecidableEq, Repr

structure Library where
  add : Entry
  sub : Entry
  mul : Entry
  div : Entry
  pow : Entry
  deriving DecidableEq, Repr

def Entry.builtin (op : Operator) : Entry := ⟨op.program, .builtin⟩

/-- The path of an operator's program in a folder. -/
def Operator.path (op : Operator) (folder : String) : String := joinPath folder op.fileName

/-- Reads an operator's program. Only a missing file is replaced by the built-in program. -/
def Entry.load (read : String → Except ReadError String) (folder : String) (op : Operator) :
    Except LibraryError Entry :=
  match read (op.path folder) with
  | .error .notFound => .ok (.builtin op)
  | .error cause => .error (.unreadable (op.path folder) cause)
  | .ok source =>
    match Program.parse source with
    | .error cause => .error (.malformed (op.path folder) cause)
    | .ok program => .ok ⟨program, .file (op.path folder)⟩

namespace Library

def get (library : Library) : Operator → Entry
  | .add => library.add
  | .sub => library.sub
  | .mul => library.mul
  | .div => library.div
  | .pow => library.pow

def set (library : Library) (op : Operator) (entry : Entry) : Library :=
  match op with
  | .add => { library with add := entry }
  | .sub => { library with sub := entry }
  | .mul => { library with mul := entry }
  | .div => { library with div := entry }
  | .pow => { library with pow := entry }

def builtin : Library :=
  ⟨.builtin .add, .builtin .sub, .builtin .mul, .builtin .div, .builtin .pow⟩

/-- Reads the five programs in the order of the operators; the first failure decides. -/
def load (read : String → Except ReadError String) (folder : String) :
    Except LibraryError Library := do
  let add ← Entry.load read folder .add
  let sub ← Entry.load read folder .sub
  let mul ← Entry.load read folder .mul
  let div ← Entry.load read folder .div
  let pow ← Entry.load read folder .pow
  return ⟨add, sub, mul, div, pow⟩

/-- Puts a program in the place of an operator's own. -/
def replace (library : Library) (op : Operator) (program : Program) : Library :=
  library.set op ⟨program, .custom⟩

theorem get_set (library : Library) (op other : Operator) (entry : Entry) :
    (library.set op entry).get other = if other = op then entry else library.get other := by
  cases op <;> cases other <;> rfl

end Library

end TapeCalc
