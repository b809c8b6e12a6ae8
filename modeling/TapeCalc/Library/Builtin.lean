import TapeCalc.Operator
import TapeCalc.Program.Basic

/-!
# Built-in programs

One tape program for each operator. Each reads two bytes and writes one.
-/
namespace TapeCalc.Operator

/-- The sum modulo 256. -/
def additionSource : String := "addition: outputs a plus b modulo 256

cell layout: c0 = a   c1 = b

,>,             read a into c0 and b into c1
[-<+>]          drain c1 into c0
<.              write c0
"

/-- The difference modulo 256. -/
def subtractionSource : String := "subtraction: outputs a minus b modulo 256
a result below zero wraps around (100 minus 200 gives 156)

cell layout: c0 = a   c1 = b

,>,             read a into c0 and b into c1
[-<->]          drain c1 out of c0 one unit at a time
<.              write c0
"

/-- The product modulo 256. -/
def multiplicationSource : String := "multiplication: outputs a times b modulo 256

cell layout: c0 = a (loop counter)   c1 = b   c2 = product   c3 = scratch

,>,<            read a into c0 and b into c1 then return to c0
[               for each unit of a
  -
  >[->+>+<<]      move b into product and scratch
  >>[-<<+>>]      move scratch back into b
  <<<
]
>>.             write the product
"

/-- The quotient rounded down, and 0 for a divisor of 0. -/
def divisionSource : String := "division: outputs a divided by b rounded down
a zero divisor yields 0 and the program still terminates

cell layout: c0 = a (counts down)   c1 = b   c2 = r (counts down from b)
             c3 = quotient          c4 = scratch   c5 = flag

every unit taken from a also comes off r; whenever r reaches zero one
whole divisor has been consumed so the quotient grows and r reloads from b
with b equal to zero r first wraps to 255 and can never return to zero
within 255 units of a

,>,             read a into c0 and b into c1
[->+>>+<<<]     move b into r and scratch
>>>[-<<<+>>>]   restore b from scratch
<<<<
[               for each unit of a
  -
  >>-             take one from r
  [->>+>+<<<]     copy r into scratch and flag
  >>>[-<<<+>>>]   restore r from the flag cell
  +               flag = 1
  <[[-]>-<]       scratch nonzero means r is nonzero: clear flag
  >[              r reached zero
    -
    <<+             quotient up by one
    <<[->+>>+<<<]   reload r from b using scratch
    >>>[-<<<+>>>]   restore b
    >
  ]
  <<<<<
]
>>>.            write the quotient
"

/-- The power modulo 256; 0 to the power 0 is 1. -/
def powerSource : String := "power: outputs a raised to b modulo 256
zero to the zero yields 1

cell layout: c0 = a   c1 = b (loop counter)   c2 = result
             c3 = next result                  c4 = scratch

,>,>+           read a and b then result = 1
<
[               for each unit of b
  -
  >[              multiply: for each unit of result
    -
    <<[->>>+>+<<<<]   add a into next result and scratch
    >>>>[-<<<<+>>>>]  restore a from scratch
    <<
  ]
  >[-<+>]         move next result into result
  <<
]
>.              write the result
"

def source : Operator → String
  | add => additionSource
  | sub => subtractionSource
  | mul => multiplicationSource
  | div => divisionSource
  | pow => powerSource

/-- The built-in program; its text has no unmatched bracket. -/
def program (op : Operator) : Program :=
  match Program.parse op.source with
  | .ok p => p
  | .error _ => ⟨#[], #[]⟩

end TapeCalc.Operator
