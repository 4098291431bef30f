/-!
# Powers of numbers

Natural numbers and integers have powers in their own right and, where the theory of
monoids is in scope, also as monoids. A power in this library is always of the first
kind, so that a formula says the same thing in the program and in a proof about it.
-/

namespace CircuitBench

@[default_instance 20000]
instance (priority := 2000) natPow : Pow Nat Nat :=
  @instPowNat Nat instNatPowNat

@[default_instance 20000]
instance (priority := 2000) intPow : Pow Int Nat :=
  @instPowNat Int Int.instNatPow

end CircuitBench
