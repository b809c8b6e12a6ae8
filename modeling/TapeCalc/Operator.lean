/-!
# Operators

The five binary operators. An operator is known by its symbol in text, by its name in
messages, and by the file that may hold its tape program.
-/
namespace TapeCalc

inductive Operator where
  | add
  | sub
  | mul
  | div
  | pow
  deriving DecidableEq, Repr

namespace Operator

def all : List Operator := [add, sub, mul, div, pow]

/-- A text is searched for operators in this order; the first that splits it wins. -/
def searchOrder : List Operator := [pow, mul, div, add, sub]

def symbol : Operator → Char
  | add => '+'
  | sub => '-'
  | mul => '*'
  | div => '/'
  | pow => '^'

def ofSymbol? : Char → Option Operator
  | '+' => some add
  | '-' => some sub
  | '*' => some mul
  | '/' => some div
  | '^' => some pow
  | _ => none

def name : Operator → String
  | add => "addition"
  | sub => "subtraction"
  | mul => "multiplication"
  | div => "division"
  | pow => "power"

/-- The file of the operator's program inside a program directory. -/
def fileName (op : Operator) : String := op.name ++ ".bf"

/-- The place in `all`. -/
def index : Operator → Nat
  | add => 0
  | sub => 1
  | mul => 2
  | div => 3
  | pow => 4

def text (op : Operator) : String := op.symbol.toString

theorem mem_all (op : Operator) : op ∈ all := by cases op <;> decide

theorem ofSymbol?_symbol (op : Operator) : ofSymbol? op.symbol = some op := by cases op <;> rfl

end Operator

end TapeCalc
