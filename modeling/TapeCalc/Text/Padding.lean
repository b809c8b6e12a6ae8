/-!
# Padded numerals

How a numeral is laid out in a field of a given width.
-/
namespace TapeCalc.Text

inductive Alignment where
  | left
  | center
  | right
  deriving DecidableEq, Repr

/-- A request for layout. The alternate form and the precision do not change a numeral. -/
structure Layout where
  fill : Char := ' '
  alignment : Option Alignment := none
  plus : Bool := false
  alternate : Bool := false
  zeros : Bool := false
  width : Nat := 0
  precision : Option Nat := none
  deriving DecidableEq, Repr

/-- How much of the padding stands on the left; the middle leaves the smaller half there. -/
def Alignment.before (padding : Nat) : Alignment → Nat
  | left => 0
  | center => padding / 2
  | right => padding

/-- Lays out digits. With the zero flag the sign comes first and zeros fill the field, whatever
the fill and the alignment; otherwise the fill pads sign and digits together. -/
def Layout.numeral (layout : Layout) (digits : List Char) : List Char :=
  let sign := if layout.plus then ['+'] else []
  let padding := layout.width - (sign.length + digits.length)
  if layout.zeros then sign ++ List.replicate padding '0' ++ digits
  else
    let before := (layout.alignment.getD .right).before padding
    List.replicate before layout.fill ++ sign ++ digits ++
      List.replicate (padding - before) layout.fill

/-- Without a sign, zeros are filled in on the left and nothing else is. -/
theorem Layout.numeral_of_zeros {layout : Layout} (hzeros : layout.zeros = true)
    (hplus : layout.plus = false) (digits : List Char) :
    layout.numeral digits = digits.leftpad layout.width '0' := by
  simp [numeral, hzeros, hplus, List.leftpad]

end TapeCalc.Text
