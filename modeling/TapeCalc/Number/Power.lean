/-!
# Powers

The power of natural numbers is the one of the core library in every module, also in those that
know the powers of monoids.
-/
namespace TapeCalc

@[default_instance 10000]
instance (priority := high) natPow : Pow Nat Nat := instPowNat

end TapeCalc
