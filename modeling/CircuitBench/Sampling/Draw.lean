import CircuitBench.State.Amplitude

/-!
# Drawing outcomes

An outcome is drawn by its running sum: the unit interval is stretched to the sum of all
probabilities, and the outcome is the first whose running sum lies above the draw. The
running sums never fall, so the place can be found by halving.
-/

namespace CircuitBench

/-- Numbers in which chances are added up, compared and turned into counts. -/
class Chance (R : Type) extends Scalar R where
  /-- Whether one number is at most another. -/
  atMost : R → R → Bool
  /-- A count of shots as a number. -/
  ofCount : Nat → R
  /-- The quotient. -/
  ratio : R → R → R
  /-- The largest count that is not above a number. -/
  wholePart : R → Nat
  /-- The point of the unit interval, without its upper end, that a random word stands for. -/
  draw : UInt64 → R

/-- In binary64 a random word gives the upper 53 of its bits as a fraction. -/
instance : Chance Float where
  atMost a b := a ≤ b
  ofCount n := (UInt64.ofNat n).toFloat
  ratio := (· / ·)
  wholePart x := x.toUInt64.toNat
  draw word := (word >>> 11).toFloat * Float.ofBits 0x3ca0000000000000

namespace Sampling

variable {R : Type}

/-- The running sums of numbers, beginning with the first number itself. -/
@[specialize] def runningSums [Zero R] [Add R] (numbers : Array R) : Array R :=
  (numbers.foldl (fun (sums, total) x => (sums.push (total + x), total + x)) (#[], (0 : R))).1

/-- The place from `low` up to `high` where a property that holds at first stops to hold, found
by halving. -/
@[specialize] def turningPoint (holds : Nat → Bool) (low high : Nat) : Nat :=
  if low < high then
    let middle := (low + high) / 2
    if holds middle then turningPoint holds (middle + 1) high else turningPoint holds low middle
  else low
termination_by high - low

/-- The first place whose running sum lies above a number, but at most the last place. -/
@[specialize] def select [Chance R] (sums : Array R) (r : R) : Nat :=
  min (turningPoint (fun i => sums[i]?.any fun sum => Chance.atMost sum r) 0 sums.size)
    (sums.size - 1)

/-- The outcomes that random words draw from probabilities, one for each word. -/
@[specialize] def outcomes [Chance R] (probabilities : Array R) (words : List UInt64) : List Nat :=
  let sums := runningSums probabilities
  let total := sums.back?.getD 0
  words.map fun word => select sums (Chance.draw word * total)

@[simp] theorem length_outcomes [Chance R] (probabilities : Array R) (words : List UInt64) :
    (outcomes probabilities words).length = words.length := by
  simp [outcomes]

end Sampling

end CircuitBench
