import TapeCalc.Operator
import TapeCalc.Value
import TapeCalc.Number.Product
import TapeCalc.Number.Quotient
import TapeCalc.Number.Word

/-!
# Exact arithmetic

The five operators on numbers. A power is checked against two limits before it is computed: one
on its exponent, one on an estimate of the bits of its result.
-/
namespace TapeCalc

structure Limits where
  maxExponent : UInt64 := 1000
  maxResultBits : UInt64 := 1000000
  deriving DecidableEq, Repr

/-- A power that a limit rules out, with the amount asked for and the limit. -/
inductive PowerError where
  | exponentTooLarge (exponent limit : UInt64)
  | resultTooLarge (bits limit : UInt64)
  deriving DecidableEq, Repr

/-- The 64-bit word of a number, or the greatest word for a number beyond it. -/
def saturated (n : Nat) : UInt64 := if n < 2 ^ 64 then UInt64.ofNat n else UInt64.ofNat (2 ^ 64 - 1)

namespace Number

/-- The exponent as a word, the greatest word if it does not fit. -/
def exponentWord (n : Number) : UInt64 := n.toUInt64?.getD (UInt64.ofNat (2 ^ 64 - 1))

/-- The exponent times the bits of the base. -/
def powerBits (base : Number) (exponent : UInt64) : UInt64 :=
  saturated (exponent.toNat * base.bitLength)

/-- The power within limits. Exponent 0 and the bases 0 and 1 never grow and are not checked. -/
def power (limits : Limits) (base exponent : Number) : Except PowerError Number :=
  if exponent.isZero then .ok one
  else if base.isZero || base.isOne then .ok base
  else
    let requested := exponent.exponentWord
    if limits.maxExponent < requested then
      .error (.exponentTooLarge requested limits.maxExponent)
    else if limits.maxResultBits < base.powerBits requested then
      .error (.resultTooLarge (base.powerBits requested) limits.maxResultBits)
    else .ok (base.pow requested.toNat)

/-- The quotient rounded down; infinity for a divisor of zero. -/
def div (a b : Number) : Value :=
  match divMod? a b with
  | none => .infinity
  | some (quotient, _) => .finite quotient

theorem div_eq_infinity_iff (a b : Number) : a.div b = .infinity ↔ b.toNat = 0 := by
  rw [← divMod?_eq_none_iff a b, div]
  cases divMod? a b with
  | none => simp
  | some result => simp

end Number

/-- Applies an operator to two numbers. Only a power can be refused. -/
def Operator.apply (op : Operator) (limits : Limits) (a b : Number) : Except PowerError Value :=
  match op with
  | .add => .ok (.finite (a + b))
  | .sub => .ok (.finite (a - b))
  | .mul => .ok (.finite (a * b))
  | .div => .ok (a.div b)
  | .pow => (Number.power limits a b).map .finite

end TapeCalc
