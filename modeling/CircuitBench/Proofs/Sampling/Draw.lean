import CircuitBench.Proofs.State.Vanishing
import CircuitBench.Sampling.Draw
import Mathlib

/-!
# What a draw selects

The search by halving finds the place where the running sums pass a number, provided they
pass it only once, and what it selects is always one of the outcomes. Where all probabilities
but one are zero, the running sums are zero up to that outcome and do not change behind it,
so every number from zero up to their total selects that outcome.
-/

namespace CircuitBench.Sampling

section Sums

variable {R : Type} [Zero R] [Add R]

def runningSum (numbers : Array R) (count : Nat) : R :=
  (numbers.toList.take count).foldl (· + ·) 0

@[simp] theorem runningSum_zero (numbers : Array R) : runningSum numbers 0 = 0 := rfl

theorem runningSum_succ (numbers : Array R) {i : Nat} (h : i < numbers.size) :
    runningSum numbers (i + 1) = runningSum numbers i + numbers[i] := by
  have inside : i < numbers.toList.length := by simpa using h
  rw [runningSum, List.take_succ_eq_append_getElem inside, List.foldl_append]
  rfl

/-- The sums that have been pushed after some numbers, and their total. -/
theorem foldl_runningSums (numbers : List R) :
    numbers.foldl (fun (sums, total) x => (sums.push (total + x), total + x)) (#[], (0 : R)) =
      (((List.range numbers.length).map fun i => (numbers.take (i + 1)).foldl (· + ·) 0).toArray,
        numbers.foldl (· + ·) 0) := by
  induction numbers using List.reverseRecOn with
  | nil => rfl
  | append_singleton before x ih =>
    have earlier : ∀ i ∈ List.range before.length,
        ((before ++ [x]).take (i + 1)).foldl (· + ·) 0 =
          (before.take (i + 1)).foldl (· + ·) (0 : R) := by
      intro i member
      rw [List.take_append_of_le_length (List.mem_range.mp member)]
    have all : (before ++ [x]).take (before.length + 1) = before ++ [x] :=
      List.take_of_length_le (by simp)
    rw [List.foldl_append, ih, List.length_append, List.length_singleton, List.range_succ,
      List.map_append, List.map_congr_left earlier, List.map_singleton, all, List.foldl_append]
    simp

theorem runningSums_eq (numbers : Array R) :
    runningSums numbers =
      ((List.range numbers.size).map fun i => runningSum numbers (i + 1)).toArray := by
  rw [runningSums, ← Array.foldl_toList, foldl_runningSums, Array.length_toList]
  rfl

@[simp] theorem size_runningSums (numbers : Array R) :
    (runningSums numbers).size = numbers.size := by
  simp [runningSums_eq]

theorem getElem?_runningSums (numbers : Array R) {i : Nat} (h : i < numbers.size) :
    (runningSums numbers)[i]? = some (runningSum numbers (i + 1)) := by
  simp [runningSums_eq, h]

/-- The last of the running sums is the sum of all numbers. -/
theorem back?_runningSums (numbers : Array R) :
    (runningSums numbers).back?.getD 0 = runningSum numbers numbers.size := by
  rw [Array.back?_eq_getElem?, size_runningSums]
  rcases Nat.eq_zero_or_pos numbers.size with empty | pos
  · rw [empty, Array.getElem?_eq_none (by simp [empty])]
    rfl
  · rw [getElem?_runningSums numbers (by omega), Nat.sub_add_cancel pos]
    rfl

end Sums

/-- The search by halving finds the place where a property stops to hold. -/
theorem turningPoint_eq {holds : Nat → Bool} {low high place : Nat} (above : low ≤ place)
    (below : place ≤ high) (before : ∀ i, low ≤ i → i < place → holds i = true)
    (behind : ∀ i, place ≤ i → i < high → holds i = false) :
    turningPoint holds low high = place := by
  fun_induction turningPoint holds low high with
  | case1 low high searching middle held ih =>
    have passed : middle < place := by
      by_contra reached
      rw [behind middle (by omega) (by omega)] at held
      cases held
    exact ih passed below (fun i from_middle => before i (by omega)) behind
  | case2 low high searching middle failed ih =>
    have reached : place ≤ middle := by
      by_contra passed
      exact failed (before middle (by omega) (by omega))
    exact ih above reached before fun i from_place to_middle => behind i from_place (by omega)
  | case3 low high done => omega

variable {R : Type} [Chance R]

/-- The outcome selected is the place where the running sums pass a number. -/
theorem select_eq {sums : Array R} {r : R} {place : Nat} (inside : place < sums.size)
    (before : ∀ i < place, ∃ sum, sums[i]? = some sum ∧ Chance.atMost sum r = true)
    (behind : ∀ i, place ≤ i → i < sums.size →
      ∃ sum, sums[i]? = some sum ∧ Chance.atMost sum r = false) :
    select sums r = place := by
  have found : turningPoint (fun i => sums[i]?.any fun sum => Chance.atMost sum r) 0 sums.size =
      place := by
    refine turningPoint_eq (Nat.zero_le _) (Nat.le_of_lt inside) ?_ ?_
    · intro i _ less
      obtain ⟨sum, at_i, most⟩ := before i less
      simp [at_i, most]
    · intro i from_place less
      obtain ⟨sum, at_i, most⟩ := behind i from_place less
      simp [at_i, most]
  rw [select, found]
  omega

theorem select_lt {sums : Array R} (pos : 0 < sums.size) (r : R) : select sums r < sums.size := by
  rw [select]
  omega

/-- Every outcome has a probability, whatever the arithmetic. -/
theorem lt_of_mem_outcomes {probabilities : Array R} (pos : 0 < probabilities.size)
    {words : List UInt64} {outcome : Nat} (h : outcome ∈ outcomes probabilities words) :
    outcome < probabilities.size := by
  obtain ⟨word, -, rfl⟩ := List.mem_map.mp h
  have sums : 0 < (runningSums probabilities).size := by simpa using pos
  have less := select_lt sums (Chance.draw word * (runningSums probabilities).back?.getD 0)
  simpa using less

/-- The number that a word draws lies from zero up to the sum of the probabilities. -/
def DrawnWithin (probabilities : Array R) (word : UInt64) : Prop :=
  Chance.atMost 0 (Chance.draw word * runningSum probabilities probabilities.size) = true ∧
    Chance.atMost (runningSum probabilities probabilities.size)
      (Chance.draw word * runningSum probabilities probabilities.size) = false

instance (probabilities : Array R) (word : UInt64) : Decidable (DrawnWithin probabilities word) :=
  inferInstanceAs (Decidable (_ ∧ _))

end CircuitBench.Sampling

namespace CircuitBench

/-- What is exact in sums and shares. A zero added to another number leaves it as it is, on
either side, and all of the shots are the whole of them. -/
structure ChanceLaws (R : Type) [Chance R] extends ZeroLaws R where
  add_isZero : ∀ {x z : R}, x = 0 ∨ ¬IsZero x → IsZero z → x + z = x
  zero_add : ∀ {x : R}, ¬IsZero x → 0 + x = x
  wholePart_share : ∀ shots, 0 < shots → shots < 2 ^ 32 →
    Chance.wholePart (Chance.ratio (Chance.ofCount shots) (Chance.ofCount shots) *
      (Chance.ofCount shots : R)) = shots

namespace Sampling

variable {R : Type} [Chance R] (laws : ChanceLaws R) {probabilities : Array R} {certain : Nat}

/-- A sum does not change over zeros. -/
theorem runningSum_constant {low high : Nat}
    (start : runningSum probabilities low = 0 ∨ ¬laws.IsZero (runningSum probabilities low))
    (zeros : ∀ i (h : i < probabilities.size), low ≤ i → i < high → laws.IsZero probabilities[i])
    (order : low ≤ high) (inside : high ≤ probabilities.size) :
    runningSum probabilities high = runningSum probabilities low := by
  induction high, order using Nat.le_induction with
  | base => rfl
  | succ high order ih =>
    have before := ih (fun i h from_low less => zeros i h from_low (by omega)) (by omega)
    rw [runningSum_succ probabilities (by omega), before]
    exact laws.add_isZero start (zeros high (by omega) order (by omega))

/-- If one probability is the only one that is not a zero, every draw selects its outcome. -/
theorem select_certain (inside : certain < probabilities.size)
    (possible : ¬laws.IsZero probabilities[certain])
    (zeros : ∀ i (h : i < probabilities.size), i ≠ certain → laws.IsZero probabilities[i])
    {word : UInt64} (within : DrawnWithin probabilities word) :
    select (runningSums probabilities)
      (Chance.draw word * (runningSums probabilities).back?.getD 0) = certain := by
  obtain ⟨nonneg, below⟩ := within
  rw [back?_runningSums]
  generalize Chance.draw word * runningSum probabilities probabilities.size = r at nonneg below
  have early : ∀ i ≤ certain, runningSum probabilities i = 0 := by
    intro i upto
    exact runningSum_constant laws (.inl rfl) (fun j h _ before => zeros j h (by omega))
      (Nat.zero_le i) (by omega)
  have passed : runningSum probabilities (certain + 1) = probabilities[certain] := by
    rw [runningSum_succ probabilities inside, early certain (Nat.le_refl _),
      laws.zero_add possible]
  have late : ∀ i, certain + 1 ≤ i → i ≤ probabilities.size →
      runningSum probabilities i = runningSum probabilities (certain + 1) := by
    intro i behind upto
    exact runningSum_constant laws (.inr (passed ▸ possible))
      (fun j h from_certain _ => zeros j h (by omega)) behind upto
  refine select_eq (by simpa using inside) ?_ ?_
  · intro i less
    refine ⟨_, getElem?_runningSums probabilities (by omega), ?_⟩
    rw [early (i + 1) less]
    exact nonneg
  · intro i from_certain less
    rw [size_runningSums] at less
    refine ⟨_, getElem?_runningSums probabilities less, ?_⟩
    rw [late (i + 1) (by omega) less, ← late probabilities.size inside (Nat.le_refl _)]
    exact below

theorem outcomes_certain (inside : certain < probabilities.size)
    (possible : ¬laws.IsZero probabilities[certain])
    (zeros : ∀ i (h : i < probabilities.size), i ≠ certain → laws.IsZero probabilities[i])
    {words : List UInt64} (within : ∀ word ∈ words, DrawnWithin probabilities word) :
    outcomes probabilities words = List.replicate words.length certain := by
  refine List.eq_replicate_iff.mpr ⟨length_outcomes probabilities words, ?_⟩
  intro outcome member
  obtain ⟨word, drawn, rfl⟩ := List.mem_map.mp member
  exact select_certain laws inside possible zeros (within word drawn)

end Sampling

end CircuitBench
