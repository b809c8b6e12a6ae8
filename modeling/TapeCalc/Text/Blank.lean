/-!
# Blank characters

The characters with the White_Space property of Unicode, and the texts left when they are
dropped everywhere or at both ends.
-/
namespace TapeCalc.Text

def isBlank (c : Char) : Bool :=
  (9 ≤ c.toNat && c.toNat ≤ 13) || c.toNat == 0x20 || c.toNat == 0x85 || c.toNat == 0xA0 ||
    c.toNat == 0x1680 || (0x2000 ≤ c.toNat && c.toNat ≤ 0x200A) || c.toNat == 0x2028 ||
    c.toNat == 0x2029 || c.toNat == 0x202F || c.toNat == 0x205F || c.toNat == 0x3000

/-- Every blank removed. -/
def compact (text : List Char) : List Char := text.filter fun c => !isBlank c

/-- The blanks at both ends removed. -/
def strip (text : List Char) : List Char :=
  ((text.dropWhile isBlank).reverse.dropWhile isBlank).reverse

end TapeCalc.Text
