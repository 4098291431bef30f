import CircuitBench.Histogram
import CircuitBench.Sampling.Draw

/-!
# Counting outcomes

Outcomes are counted by index and named by bitstring: the binary digits of the index,
with qubit 0 on the right. There are two ways to report counts. The exact counts are
what was observed. The frequencies divide what was observed by the number of shots, and
counts made of them again take the whole part of the product, so a shot can get lost on
the way there and back.
-/

namespace CircuitBench.Sampling

variable {R : Type}

/-- The binary digits of an outcome, with zeros in front up to the width. -/
def bitstring (outcome width : Nat) : String :=
  let digits := Nat.toDigits 2 outcome
  String.ofList (List.replicate (width - digits.length) '0' ++ digits)

/-- How often each of the outcomes below `size` occurs. -/
def tally (size : Nat) (outcomes : List Nat) : Array Nat :=
  outcomes.foldl (fun counts outcome => counts.modify outcome (· + 1)) (Array.replicate size 0)

/-- The outcomes that occur, in ascending order, with their counts. -/
def observed (size : Nat) (outcomes : List Nat) : List (Nat × Nat) :=
  (tally size outcomes).toList.zipIdx.filterMap fun (count, outcome) =>
    if count = 0 then none else some (outcome, count)

/-- The share that each observed outcome has in the shots. -/
def frequencies [Chance R] (shots : Nat) (observed : List (Nat × Nat)) : List (Nat × R) :=
  observed.map fun (outcome, count) =>
    (outcome, Chance.ratio (Chance.ofCount count) (Chance.ofCount shots))

def exactCounts (width : Nat) (observed : List (Nat × Nat)) : Histogram :=
  .collect (observed.map fun (outcome, count) => (bitstring outcome width, UInt64.ofNat count))

/-- The histogram made of frequencies: the whole part of each share of the shots. An outcome
whose share falls below one shot is left out. -/
def quantizedCounts [Chance R] (width shots : Nat) (shares : List (Nat × R)) : Histogram :=
  .collect (shares.filterMap fun (outcome, share) =>
    let count := Chance.wholePart (share * Chance.ofCount shots)
    if count = 0 then none else some (bitstring outcome width, UInt64.ofNat count))

end CircuitBench.Sampling
