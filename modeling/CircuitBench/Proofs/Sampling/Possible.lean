import CircuitBench.Proofs.Sampling.Draw

/-!
# Only possible outcomes are drawn

The search by halving ends at a place where the property fails, just behind one where it holds.
That needs no order among the numbers: each half that is dropped leaves such an edge behind it. So
the running sum of the outcome that is selected lies above the draw, and the one before it does
not. A probability that adds nothing would leave the two sums the same, and is never selected.
-/

namespace CircuitBench.Sampling

/-- The search ends in its range, where the property fails, behind a place where it holds. -/
theorem turningPoint_edge {holds : Nat → Bool} {low high : Nat} (order : low ≤ high) :
    low ≤ turningPoint holds low high ∧ turningPoint holds low high ≤ high ∧
      (turningPoint holds low high < high → holds (turningPoint holds low high) = false) ∧
      (low < turningPoint holds low high → holds (turningPoint holds low high - 1) = true) := by
  fun_induction turningPoint holds low high with
  | case1 low high searching middle held ih =>
    obtain ⟨above, below, fails, holds_before⟩ := ih (by omega)
    refine ⟨by omega, below, fails, fun _ => ?_⟩
    rcases Nat.eq_or_lt_of_le above with here | behind
    · rw [← here, Nat.add_sub_cancel]
      exact held
    · exact holds_before behind
  | case2 low high searching middle failed ih =>
    obtain ⟨above, below, fails, holds_before⟩ := ih (by omega)
    refine ⟨above, by omega, fun _ => ?_, holds_before⟩
    rcases Nat.eq_or_lt_of_le below with here | before
    · rw [here]
      exact Bool.eq_false_iff.mpr failed
    · exact fails before
  | case3 low high done =>
    exact ⟨Nat.le_refl _, order, fun less => absurd less done, fun less => absurd less (by omega)⟩

variable {R : Type} [Chance R]

/-- The first place whose running sum lies above a number; behind all places if there is none. -/
def search (sums : Array R) (r : R) : Nat :=
  turningPoint (fun i => sums[i]?.any fun sum => Chance.atMost sum r) 0 sums.size

theorem select_eq_min (sums : Array R) (r : R) :
    select sums r = min (search sums r) (sums.size - 1) := rfl

/-- A number below the total is found below some running sum, and not below the one before it. -/
theorem search_edge {probabilities : Array R} (pos : 0 < probabilities.size) {r : R}
    (below : Chance.atMost (runningSum probabilities probabilities.size) r = false) :
    search (runningSums probabilities) r < probabilities.size ∧
      Chance.atMost (runningSum probabilities (search (runningSums probabilities) r + 1)) r =
        false ∧
      (0 < search (runningSums probabilities) r → Chance.atMost
        (runningSum probabilities (search (runningSums probabilities) r)) r = true) := by
  have passes : ∀ i < probabilities.size,
      ((runningSums probabilities)[i]?.any fun sum => Chance.atMost sum r) =
        Chance.atMost (runningSum probabilities (i + 1)) r := by
    intro i inside
    rw [getElem?_runningSums probabilities inside]
    rfl
  rw [search, size_runningSums]
  obtain ⟨-, upto, fails, holds_before⟩ := @turningPoint_edge
    (fun i => (runningSums probabilities)[i]?.any fun sum => Chance.atMost sum r) 0 _
    (Nat.zero_le probabilities.size)
  generalize turningPoint _ 0 probabilities.size = place at upto fails holds_before ⊢
  have inside : place < probabilities.size := by
    by_contra reached
    have held := holds_before (by omega)
    have last : place = probabilities.size := by omega
    rw [passes _ (by omega), Nat.sub_add_cancel (by omega), last, below] at held
    cases held
  refine ⟨inside, passes place inside ▸ fails inside, fun behind => ?_⟩
  have held := holds_before behind
  rwa [passes _ (by omega), Nat.sub_add_cancel behind] at held

/-- Of a number below the total, the place that is found is selected. -/
theorem select_eq_search {probabilities : Array R} (pos : 0 < probabilities.size) {r : R}
    (below : Chance.atMost (runningSum probabilities probabilities.size) r = false) :
    select (runningSums probabilities) r = search (runningSums probabilities) r := by
  have inside := (search_edge pos below).1
  rw [select_eq_min, size_runningSums, Nat.min_eq_left (by omega)]

/-- The outcome that is selected is the first whose running sum lies above a number from zero up to
the total. -/
theorem select_edge {probabilities : Array R} (pos : 0 < probabilities.size) {r : R}
    (nonneg : Chance.atMost 0 r = true)
    (below : Chance.atMost (runningSum probabilities probabilities.size) r = false) :
    Chance.atMost (runningSum probabilities (select (runningSums probabilities) r)) r = true ∧
      Chance.atMost (runningSum probabilities (select (runningSums probabilities) r + 1)) r =
        false := by
  obtain ⟨-, passed, reached⟩ := search_edge pos below
  rw [select_eq_search pos below]
  refine ⟨?_, passed⟩
  rcases Nat.eq_zero_or_pos (search (runningSums probabilities) r) with first | behind
  · rw [first]
    exact nonneg
  · exact reached behind

/-- A probability that is not above zero adds nothing to the sum of those before it. -/
def Steady (probabilities : Array R) : Prop :=
  ∀ i (h : i < probabilities.size), Chance.atMost probabilities[i] 0 = true →
    runningSum probabilities i + probabilities[i] = runningSum probabilities i

/-- Every outcome that is drawn has a probability above zero. -/
theorem possible_of_mem_outcomes {probabilities : Array R} (steady : Steady probabilities)
    {words : List UInt64} (within : ∀ word ∈ words, DrawnWithin probabilities word) {outcome : Nat}
    (drawn : outcome ∈ outcomes probabilities words) (h : outcome < probabilities.size) :
    Chance.atMost probabilities[outcome] 0 = false := by
  obtain ⟨word, member, rfl⟩ := List.mem_map.mp drawn
  obtain ⟨nonneg, below⟩ := within word member
  rw [← back?_runningSums] at nonneg below
  obtain ⟨reached, passed⟩ := select_edge (Nat.zero_lt_of_lt h) nonneg
    (back?_runningSums probabilities ▸ below)
  refine Bool.eq_false_iff.mpr fun nothing => ?_
  rw [runningSum_succ probabilities h, steady _ h nothing, reached] at passed
  cases passed

end CircuitBench.Sampling
