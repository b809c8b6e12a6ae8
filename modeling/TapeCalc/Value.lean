import TapeCalc.Number.Decimal
import TapeCalc.Text.Padding

/-!
# Values

The result of a calculation: a number, or the infinity that a division by zero gives.
-/
namespace TapeCalc

inductive Value where
  | finite (n : Number)
  | infinity
  deriving DecidableEq

/-- The decimal digits in a field. -/
def Number.layout (layout : Text.Layout) (n : Number) : String :=
  String.ofList (layout.numeral n.digits)

namespace Value

def isInfinite : Value → Bool
  | finite _ => false
  | infinity => true

def text : Value → String
  | finite n => n.text
  | infinity => "inf"

/-- Only numbers are padded. -/
def layout (layout : Text.Layout) : Value → String
  | finite n => n.layout layout
  | infinity => "inf"

end Value

end TapeCalc
