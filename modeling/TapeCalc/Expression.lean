import TapeCalc.Operator
import TapeCalc.Number.Decimal
import TapeCalc.Text.Blank

/-!
# Expressions

A number, an operator and a number. Blanks are ignored, inside numbers too.
-/
namespace TapeCalc

structure Expression where
  op : Operator
  lhs : Number
  rhs : Number
  deriving DecidableEq

namespace Expression

/-- The texts before and after the first occurrence of a character. -/
def splitAt? (symbol : Char) : List Char → Option (List Char × List Char)
  | [] => none
  | c :: cs =>
    if c = symbol then some ([], cs)
    else (splitAt? symbol cs).map fun (before, after) => (c :: before, after)

/-- Reads a text without blanks as a use of one operator. -/
def ofSplit? (text : List Char) (op : Operator) : Option Expression :=
  match splitAt? op.symbol text with
  | none => none
  | some (before, after) =>
    match Number.ofDigits before, Number.ofDigits after with
    | .ok lhs, .ok rhs => some ⟨op, lhs, rhs⟩
    | _, _ => none

/-- Tries the operators in their order of search. -/
def ofCompact? (text : List Char) : Option Expression :=
  Operator.searchOrder.findSome? (ofSplit? text)

def parse? (text : String) : Option Expression := ofCompact? (Text.compact text.toList)

def text (e : Expression) : String := e.lhs.text ++ e.op.text ++ e.rhs.text

end Expression

end TapeCalc
