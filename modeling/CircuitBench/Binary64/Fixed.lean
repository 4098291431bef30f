import CircuitBench.Binary64.Parts

/-!
# Text of a binary64 with a fixed number of places

The exact value is rounded once to the places that are printed, and a tie goes to
the even neighbour.
-/

namespace CircuitBench.Binary64

/-- The integer nearest to `numerator / denominator`, the even one of two that are
equally near. -/
def roundDiv (numerator denominator : Nat) : Nat :=
  let quotient := numerator / denominator
  let remainder := numerator % denominator
  if 2 * remainder < denominator then quotient
  else if denominator < 2 * remainder then quotient + 1
  else if quotient % 2 = 0 then quotient
  else quotient + 1

/-- The text of a finite number with exactly `places` digits behind the point, and no
point if there are none. -/
def fixed (places : Nat) (x : Float) : String :=
  let p := parts x
  let (numerator, denominator) := p.fraction
  let scaled := roundDiv (numerator * 10 ^ places) denominator
  let whole := toString (scaled / 10 ^ places)
  let digits := Nat.toDigits 10 (scaled % 10 ^ places)
  let behind := List.replicate (places - digits.length) '0' ++ digits
  (if p.negative then "-" else "") ++ whole ++
    (if places = 0 then "" else "." ++ String.ofList behind)

end CircuitBench.Binary64
