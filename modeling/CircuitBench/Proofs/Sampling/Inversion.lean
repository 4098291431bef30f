import CircuitBench.Proofs.Sampling.Ascent
import CircuitBench.Proofs.Binary64.Draws

/-!
# Selection inverts the running sums

The search by halving needs running sums that ascend, which they do if no probability is negative.
Then a number from zero up to the total is passed at exactly one place, and this place is selected.
A number that the total does not exceed is passed nowhere, and the last place stands in for it. Only
such a number could select an outcome that has no probability.
-/

namespace CircuitBench.Sampling

section Ascending

variable {R : Type} [Chance R] (laws : SumLaws R) {probabilities : Array R}
  (nonneg : Nonnegative probabilities)

/-- The outcome that is selected is where the running sums pass the number. -/
theorem passedAt_select {r : R} (from_zero : Chance.atMost 0 r = true)
    (below : Chance.atMost (runningSum probabilities probabilities.size) r = false) :
    PassedAt probabilities r (select (runningSums probabilities) r) := by
  have pos : 0 < probabilities.size := by
    refine Nat.pos_of_ne_zero fun empty => ?_
    rw [empty, runningSum_zero, from_zero] at below
    cases below
  obtain ⟨reached, passed⟩ := select_edge pos from_zero below
  have inside := select_lt (by rwa [size_runningSums]) r
  rw [size_runningSums] at inside
  exact ⟨inside, reached, passed⟩

include laws nonneg

/-- No running sum lies above a number that the total does not exceed. -/
theorem select_eq_last {r : R}
    (beyond : Chance.atMost (runningSum probabilities probabilities.size) r = true) :
    select (runningSums probabilities) r = probabilities.size - 1 := by
  have reached : ∀ i < probabilities.size,
      ((runningSums probabilities)[i]?.any fun sum => Chance.atMost sum r) = true := by
    intro i inside
    rw [getElem?_runningSums probabilities inside]
    exact atMost_of_le laws nonneg inside le_rfl beyond
  have searched : turningPoint
      (fun i => (runningSums probabilities)[i]?.any fun sum => Chance.atMost sum r) 0
        (runningSums probabilities).size = probabilities.size := by
    rw [size_runningSums]
    exact turningPoint_eq (Nat.zero_le _) le_rfl (fun i _ inside => reached i inside)
      fun i behind inside => absurd inside (by omega)
  rw [select, searched, size_runningSums]
  omega

/-- What is drawn from zero up to the total has a probability above zero. -/
theorem exists_chance_of_mem_outcomes {words : List UInt64}
    (within : ∀ word ∈ words, DrawnWithin probabilities word) {outcome : Nat}
    (drawn : outcome ∈ outcomes probabilities words) :
    ∃ h : outcome < probabilities.size, Chance.atMost probabilities[outcome] 0 = false := by
  obtain ⟨word, member, rfl⟩ := List.mem_map.mp drawn
  obtain ⟨from_zero, below⟩ := within word member
  rw [back?_runningSums]
  exact (passedAt_select from_zero below).above_zero laws nonneg

/-- Of probabilities that are not negative, a number from zero up to the total selects the only
place with no more than the number in front of it and more than the number up to and including it.
Any larger number selects the last place. So what is drawn from zero up to the total has a
probability above zero, whatever and however many the random words. -/
theorem selection_inverts_running_sums :
    (∀ r, Chance.atMost 0 r = true →
      Chance.atMost (runningSum probabilities probabilities.size) r = false →
        PassedAt probabilities r (select (runningSums probabilities) r) ∧
          ∀ i, PassedAt probabilities r i → i = select (runningSums probabilities) r) ∧
    (∀ r, Chance.atMost (runningSum probabilities probabilities.size) r = true →
      select (runningSums probabilities) r = probabilities.size - 1) ∧
    ∀ words : List UInt64, (∀ word ∈ words, DrawnWithin probabilities word) →
      ∀ outcome ∈ outcomes probabilities words,
        ∃ h : outcome < probabilities.size, Chance.atMost probabilities[outcome] 0 = false := by
  refine ⟨?_, fun r => select_eq_last laws nonneg, ?_⟩
  · intro r from_zero below
    have selected := passedAt_select from_zero below
    exact ⟨selected, fun i here => here.unique laws nonneg selected⟩
  · intro words within outcome drawn
    exact exists_chance_of_mem_outcomes laws nonneg within drawn

end Ascending

/-- In binary64 every outcome that any random words draw has a probability above zero, provided the
total is finite and at least twice the smallest normal number. -/
theorem binary64_outcomes_have_chances {probabilities : Array Float}
    (nonneg : Nonnegative probabilities)
    (finite : Binary64.IsFinite (runningSum probabilities probabilities.size))
    (normal : Chance.atMost (Float.ofBits 0x0020000000000000)
      (runningSum probabilities probabilities.size) = true)
    (words : List UInt64) {outcome : Nat} (drawn : outcome ∈ outcomes probabilities words) :
    ∃ h : outcome < probabilities.size, Chance.atMost probabilities[outcome] 0 = false := by
  have within : ∀ word ∈ words, DrawnWithin probabilities word := fun word _ =>
    Binary64.drawnWithin finite normal word
  exact exists_chance_of_mem_outcomes Binary64.sumLaws nonneg within drawn

def quarters : Array Float := #[0.25, 0, 0.75]

/-- At the edge of the first quarter the empty place is passed over, and it is drawn by no random
words at all. -/
theorem selection_inverts_running_sums_quarters :
    Nonnegative quarters ∧
    Chance.atMost (0 : Float) 0.25 = true ∧
    Chance.atMost (runningSum quarters 3) 0.25 = false ∧
    PassedAt quarters 0.25 2 ∧ (∀ i, PassedAt quarters 0.25 i → i = 2) ∧
    select (runningSums quarters) 1 = 2 ∧
    ∀ words : List UInt64, 1 ∉ outcomes quarters words := by
  have each : ∀ i : Fin quarters.size, Chance.atMost 0 quarters[i] = true := by decide +kernel
  have nonneg : Nonnegative quarters := fun i h => each ⟨i, h⟩
  obtain ⟨inverts, last, possible⟩ := selection_inverts_running_sums Binary64.sumLaws nonneg
  have from_zero : Chance.atMost (0 : Float) 0.25 = true := by decide +kernel
  have below : Chance.atMost (runningSum quarters 3) 0.25 = false := by decide +kernel
  have selected : select (runningSums quarters) 0.25 = 2 := by decide +kernel
  obtain ⟨passed, unique⟩ := inverts 0.25 from_zero below
  rw [selected] at passed unique
  refine ⟨nonneg, from_zero, below, passed, unique, last 1 (by decide +kernel), ?_⟩
  intro words drawn
  have within : ∀ word ∈ words, DrawnWithin quarters word := by
    intro word _
    exact Binary64.drawnWithin (by decide +kernel) (by decide +kernel) word
  obtain ⟨inside, above⟩ := possible words within 1 drawn
  have nothing : ∀ h : 1 < quarters.size, Chance.atMost quarters[1] 0 = true := by
    decide +kernel
  cases (nothing inside).symm.trans above

end CircuitBench.Sampling
