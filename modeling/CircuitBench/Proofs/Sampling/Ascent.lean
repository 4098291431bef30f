import CircuitBench.Proofs.Sampling.Possible

/-!
# Running sums ascend

Probabilities are not negative, so no running sum lies below the one before it. All that needs to
be known of the arithmetic is how an addition compares with what it is made of. A number then is
passed by the running sums at one place at most: at every place in front the sums have not reached
beyond it, and at every place behind they stay above.
-/

namespace CircuitBench

/-- What is known of sums: a number that is added does not make a sum smaller, and a zero does not
make it larger. The numbers that are added are not negative, and neither are the sums. -/
structure SumLaws (R : Type) [Chance R] : Prop where
  trans : ∀ {a b c : R}, Chance.atMost a b = true → Chance.atMost b c = true →
    Chance.atMost a c = true
  zero_atMost_zero : Chance.atMost (0 : R) 0 = true
  atMost_add : ∀ {sum p : R}, Chance.atMost 0 sum = true → Chance.atMost 0 p = true →
    Chance.atMost sum (sum + p) = true
  add_atMost : ∀ {sum p : R}, Chance.atMost 0 sum = true → Chance.atMost 0 p = true →
    Chance.atMost p 0 = true → Chance.atMost (sum + p) sum = true

namespace Sampling

variable {R : Type} [Chance R]

def Nonnegative (numbers : Array R) : Prop :=
  ∀ i (h : i < numbers.size), Chance.atMost 0 numbers[i] = true

/-- A number is passed at a place: the sum of the numbers in front of the place does not lie above
it, and the sum that includes the place does. -/
structure PassedAt (numbers : Array R) (r : R) (place : Nat) : Prop where
  inside : place < numbers.size
  reached : Chance.atMost (runningSum numbers place) r = true
  passed : Chance.atMost (runningSum numbers (place + 1)) r = false

variable (laws : SumLaws R) {numbers : Array R} (nonneg : Nonnegative numbers)

include laws nonneg

theorem runningSum_nonneg {count : Nat} (upto : count ≤ numbers.size) :
    Chance.atMost 0 (runningSum numbers count) = true := by
  induction count with
  | zero => exact laws.zero_atMost_zero
  | succ count ih =>
    have before := ih (by omega)
    rw [runningSum_succ numbers upto]
    exact laws.trans before (laws.atMost_add before (nonneg count upto))

theorem runningSum_atMost_succ {i : Nat} (h : i < numbers.size) :
    Chance.atMost (runningSum numbers i) (runningSum numbers (i + 1)) = true := by
  rw [runningSum_succ numbers h]
  exact laws.atMost_add (runningSum_nonneg laws nonneg h.le) (nonneg i h)

/-- Where a running sum does not lie above a number, no earlier one does. -/
theorem atMost_of_le {low high : Nat} {r : R} (order : low ≤ high) (inside : high ≤ numbers.size)
    (most : Chance.atMost (runningSum numbers high) r = true) :
    Chance.atMost (runningSum numbers low) r = true := by
  induction high, order using Nat.le_induction with
  | base => exact most
  | succ high order ih =>
    exact ih (by omega) (laws.trans (runningSum_atMost_succ laws nonneg inside) most)

/-- The running sums pass a number at one place only. -/
theorem PassedAt.unique {r : R} {i j : Nat} (here : PassedAt numbers r i)
    (there : PassedAt numbers r j) : i = j := by
  have not_before : ∀ {i j}, PassedAt numbers r i → PassedAt numbers r j → ¬i < j := by
    intro i j here there less
    have below := atMost_of_le laws nonneg less there.inside.le there.reached
    rw [here.passed] at below
    cases below
  have := not_before here there
  have := not_before there here
  omega

/-- A number is not passed where the probability is zero. -/
theorem PassedAt.above_zero {r : R} {place : Nat} (here : PassedAt numbers r place) :
    ∃ h : place < numbers.size, Chance.atMost numbers[place] 0 = false := by
  refine ⟨here.inside, Bool.eq_false_iff.mpr fun nothing => ?_⟩
  have sum := runningSum_nonneg laws nonneg here.inside.le
  have kept := laws.add_atMost sum (nonneg place here.inside) nothing
  rw [← runningSum_succ numbers here.inside] at kept
  have below := laws.trans kept here.reached
  rw [here.passed] at below
  cases below

end Sampling

end CircuitBench
