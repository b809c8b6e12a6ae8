import TapeCalc.Number.Power

/-!
# Fixed decimals

A double written with a fixed number of decimal places. The exact value is rounded, and a tie
goes to the even neighbour.
-/
namespace TapeCalc.Text

/-- The quotient to the nearest whole number, a tie to the even one. -/
def roundDiv (num den : Nat) : Nat :=
  let quotient := num / den
  let rest := 2 * (num % den)
  if den < rest || (rest == den && quotient % 2 == 1) then quotient + 1 else quotient

/-- Numerator and denominator of a finite double that is not negative. -/
def fraction (x : Float) : Nat × Nat :=
  let bits := x.toBits.toNat % 2 ^ 63
  let exponent := bits / 2 ^ 52
  let significand := if exponent = 0 then bits % 2 ^ 52 else bits % 2 ^ 52 + 2 ^ 52
  (significand * 2 ^ (max exponent 1 - 1075), 2 ^ (1075 - max exponent 1))

/-- Whole part, point and decimals. -/
def fixed (places : Nat) (x : Float) : String :=
  let scaled := roundDiv ((fraction x).1 * 10 ^ places) (fraction x).2
  let decimals := (Nat.toDigits 10 (scaled % 10 ^ places)).leftpad places '0'
  String.ofList (Nat.toDigits 10 (scaled / 10 ^ places) ++ '.' :: decimals)

end TapeCalc.Text
