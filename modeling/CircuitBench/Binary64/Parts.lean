import CircuitBench.Power

/-!
# The number behind a binary64

A finite binary64 is `±significand · 2 ^ exponent` with integer parts, which are read
off its bits. Texts of numbers are computed from these parts in exact arithmetic.
-/

namespace CircuitBench.Binary64

/-- The exact value `±significand · 2 ^ exponent` of a finite binary64. -/
structure Parts where
  negative : Bool
  significand : Nat
  exponent : Int
  /-- The next smaller magnitude is half as far away as the next larger one. -/
  closerBelow : Bool
deriving DecidableEq, Repr

/-- The parts of the number whose bits are given. The subnormal numbers share the exponent
of the smallest normal ones, and only at a power of two is the lower neighbour closer. -/
def Parts.ofBits (bits : UInt64) : Parts :=
  let field : Nat := bits.toNat / 2 ^ 52 % 2 ^ 11
  let fraction : Nat := bits.toNat % 2 ^ 52
  { negative := 2 ^ 63 ≤ bits.toNat
    significand := if field = 0 then fraction else fraction + 2 ^ 52
    exponent := if field = 0 then -1074 else (field : Int) - 1075
    closerBelow := fraction = 0 && 1 < field }

def parts (x : Float) : Parts :=
  Parts.ofBits x.toBits

/-- The magnitude as a fraction `numerator / denominator` of natural numbers. -/
def Parts.fraction (p : Parts) : Nat × Nat :=
  (p.significand * 2 ^ p.exponent.toNat, 2 ^ (-p.exponent).toNat)

end CircuitBench.Binary64
