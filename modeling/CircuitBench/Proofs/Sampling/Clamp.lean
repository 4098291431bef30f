import CircuitBench.Proofs.Binary64.Draws
import CircuitBench.Proofs.Sampling.Possible

/-!
# The last place never stands in

A search for the first running sum above a number may find none, and then the last place stands in,
even if it has no probability. A draw in binary64 stays below the total, however the product with
the total is rounded, so the total itself is a running sum above it and the search finds one. That
takes a total in the normal range. The smallest number there is the one exception: its products have
too few bits to tell them from it.
-/

namespace CircuitBench.Sampling

section Search

variable {R : Type} [Chance R]

/-- The number that a word draws from zero up to the total of the probabilities. -/
def drawn (probabilities : Array R) (word : UInt64) : R :=
  Chance.draw word * (runningSums probabilities).back?.getD 0

/-- The search for a running sum above the number that a word draws finds one, and the place where
it is found is selected as it is. -/
structure Unclamped (probabilities : Array R) (word : UInt64) : Prop where
  inside : search (runningSums probabilities) (drawn probabilities word) < probabilities.size
  above : ∃ sum, (runningSums probabilities)[search (runningSums probabilities)
      (drawn probabilities word)]? = some sum ∧
    Chance.atMost sum (drawn probabilities word) = false
  selected : select (runningSums probabilities) (drawn probabilities word) =
    search (runningSums probabilities) (drawn probabilities word)

theorem drawn_eq (probabilities : Array R) (word : UInt64) :
    drawn probabilities word = Chance.draw word * runningSum probabilities probabilities.size := by
  rw [drawn, back?_runningSums]

/-- A number below the total has a running sum above it. -/
theorem DrawnWithin.unclamped {probabilities : Array R} {word : UInt64}
    (within : DrawnWithin probabilities word) (pos : 0 < probabilities.size) :
    Unclamped probabilities word := by
  have below := within.2
  rw [← drawn_eq] at below
  obtain ⟨inside, passed, -⟩ := search_edge pos below
  exact ⟨inside, ⟨_, getElem?_runningSums probabilities inside, passed⟩, select_eq_search pos below⟩

end Search

end CircuitBench.Sampling

namespace CircuitBench.Binary64

open Sampling

/-- Probabilities with a positive total are at least one. -/
theorem HasValue.pos_size {probabilities : Array Float} {total : ℚ}
    (value : HasValue (runningSum probabilities probabilities.size) total) :
    0 < probabilities.size := by
  refine Nat.pos_of_ne_zero fun empty => ?_
  obtain ⟨m, e, normal, unpacked, -⟩ := value
  rw [empty, runningSum_zero] at unpacked
  cases unpacked

/-- What lies from zero up to a positive total is less than the total. -/
theorem drawn_lt_of_drawnWithin {probabilities : Array Float} {total : ℚ} {word : UInt64}
    (within : DrawnWithin probabilities word)
    (value : HasValue (runningSum probabilities probabilities.size) total) :
    drawn probabilities word < runningSum probabilities probabilities.size := by
  obtain ⟨nonneg, below⟩ := within
  obtain ⟨m, e, normal, unpacked, -⟩ := value
  rw [drawn_eq]
  refine lt_of_atMost_eq_false (atMost_iff.mpr (unpackedLe_self (atMost_iff.mp nonneg))) ?_ below
  rw [atMost_iff, unpacked]
  exact isLE_then_compare.mpr (.inr ⟨rfl, le_rfl⟩)

variable {probabilities : Array Float} {m : ℕ} {e : ℤ}

/-- The fraction of the total that a word stands for, in parts of `2 ^ 53`. -/
def fraction (word : UInt64) : ℚ :=
  (word >>> 11).toNat / 2 ^ 53

theorem fraction_eq_zero_iff {word : UInt64} : fraction word = 0 ↔ (word >>> 11).toNat = 0 := by
  rw [fraction, div_eq_zero_iff, Nat.cast_eq_zero, or_iff_left (by positivity)]

/-- A word draws its fraction exactly. -/
theorem valueOf_draw (word : UInt64) : valueOf (Chance.draw word) = fraction word := by
  by_cases none : (word >>> 11).toNat = 0
  · rw [fraction_eq_zero_iff.mpr none, valueOf, unpack_draw_zero none]
  · exact (hasValue_draw none).valueOf_eq

/-- A fraction of the total that 53 bits can tell from one is rounded to less than the total. -/
theorem roundedToBits_fraction_lt {total : ℚ} (pos : 0 < total) {k : ℕ} (small : k < 2 ^ 53) :
    roundedToBits 53 (k / 2 ^ 53 * total) < total := by
  rcases Nat.eq_zero_or_pos k with rfl | some
  · rwa [Nat.cast_zero, zero_div, zero_mul, roundedToBits_zero]
  · have most : (k : ℚ) + 1 ≤ 2 ^ 53 := by exact_mod_cast small
    have part : (k : ℚ) / 2 ^ 53 ≤ 1 - 1 / 2 ^ 53 := by
      rw [div_le_iff₀ (by positivity)]
      linarith
    have some : (0 : ℚ) < k := by exact_mod_cast some
    exact roundedToBits_lt (by positivity) pos (mul_le_mul_of_nonneg_right part pos.le)

/-- In the normal range, the number that a word draws is the exact fraction of the total, rounded
to 53 bits. -/
theorem hasValue_drawn {total : ℚ}
    (value : HasValue (runningSum probabilities probabilities.size) total) {word : UInt64}
    (normal : 2 ^ (-1022 : ℤ) ≤ fraction word * total) :
    HasValue (drawn probabilities word) (roundedToBits 53 (fraction word * total)) := by
  have some_bits : (word >>> 11).toNat ≠ 0 := by
    intro none
    rw [fraction_eq_zero_iff.mpr none, zero_mul] at normal
    exact absurd normal (not_le_of_gt (zpow_pos two_pos _))
  rw [drawn_eq]
  refine hasValue_mul (hasValue_draw some_bits) value normal ?_
  exact (roundedToBits_fraction_lt value.pos (toNat_shiftRight_lt word)).trans value.lt

/-- A draw of 53 bits multiplied with a total of 53 bits and rounded to as many is less than the
total. So where the probabilities have a total in the normal range, what a word draws is that
product, as long as the product is in the normal range itself, and less than the total. That is so
even for smaller products, unless the total is the smallest normal number. Then the search finds a
running sum above the number, whatever the random words, and no outcome is drawn because it is the
last. -/
theorem draws_stay_below_total (low : 2 ^ 52 ≤ m) (high : m < 2 ^ 53) :
    (∀ k < 2 ^ 53, roundedToBits 53 ((k : ℕ) / 2 ^ 53 * (m * 2 ^ e)) < m * 2 ^ e) ∧
    ∀ probabilities : Array Float,
      HasValue (runningSum probabilities probabilities.size) (m * 2 ^ e) →
      (∀ word : UInt64, valueOf (Chance.draw word) = fraction word ∧
        (∃ k < 2 ^ 53, fraction word = (k : ℕ) / 2 ^ 53) ∧
        (2 ^ (-1022 : ℤ) ≤ fraction word * (m * 2 ^ e) →
          HasValue (drawn probabilities word) (roundedToBits 53 (fraction word * (m * 2 ^ e)))) ∧
        (fraction word = 0 ∨ 2 ^ (-1022 : ℤ) ≤ fraction word * (m * 2 ^ e) ∨
            2 ^ (-1022 : ℤ) < (m : ℚ) * 2 ^ e →
          drawn probabilities word < runningSum probabilities probabilities.size ∧
          Unclamped probabilities word)) ∧
      (2 ^ (-1022 : ℤ) < (m : ℚ) * 2 ^ e → ∀ words : List UInt64,
        outcomes probabilities words = words.map fun word =>
          search (runningSums probabilities) (drawn probabilities word)) := by
  have some_total : (0 : ℚ) < m * 2 ^ e :=
    mul_pos (Nat.cast_pos.mpr (by omega)) (zpow_pos two_pos e)
  refine ⟨fun k small => roundedToBits_fraction_lt some_total small, fun probabilities value => ?_⟩
  have stays : ∀ word : UInt64, (word >>> 11).toNat = 0 ∨ 2 ^ (-1022 : ℤ) < (m : ℚ) * 2 ^ e →
      drawn probabilities word < runningSum probabilities probabilities.size ∧
        Unclamped probabilities word := by
    intro word above
    have within := drawnWithin_of_hasValue value above
    exact ⟨drawn_lt_of_drawnWithin within value, within.unclamped value.pos_size⟩
  refine ⟨fun word => ?_, fun above words => ?_⟩
  · have small := toNat_shiftRight_lt word
    refine ⟨valueOf_draw word, ⟨_, small, rfl⟩, hasValue_drawn value, ?_⟩
    rintro (none | normal | above)
    · exact stays word (.inl (fraction_eq_zero_iff.mp none))
    · have short : ((word >>> 11).toNat : ℚ) < 2 ^ 53 := by exact_mod_cast small
      have part : fraction word < 1 := (div_lt_one (by positivity)).mpr short
      exact stays word (.inr (lt_of_le_of_lt normal (mul_lt_of_lt_one_left some_total part)))
    · exact stays word (.inr above)
  · exact List.map_congr_left fun word _ => (stays word (.inr above)).2.selected

def certainFirst : Array Float := #[1, 0]

/-- The largest draw of all is still below one, and does not select the last place, which has no
chance. -/
theorem draws_stay_below_total_certainFirst :
    roundedToBits 53 ((2 ^ 53 - 1 : ℕ) / 2 ^ 53 * ((2 ^ 52 : ℕ) * 2 ^ (-52 : ℤ))) <
      (2 ^ 52 : ℕ) * 2 ^ (-52 : ℤ) ∧
    HasValue (runningSum certainFirst certainFirst.size) ((2 ^ 52 : ℕ) * 2 ^ (-52 : ℤ)) ∧
    drawn certainFirst 0xffffffffffffffff < runningSum certainFirst certainFirst.size ∧
    Unclamped certainFirst 0xffffffffffffffff ∧
    outcomes certainFirst [0xffffffffffffffff, 0] = [0, 0] := by
  obtain ⟨rounded, stays⟩ := draws_stay_below_total (m := 2 ^ 52) (e := -52) le_rfl (by decide)
  have value : HasValue (runningSum certainFirst certainFirst.size)
      ((2 ^ 52 : ℕ) * 2 ^ (-52 : ℤ)) :=
    ⟨2 ^ 52, -52, ⟨le_rfl, by decide, by decide, by decide⟩, rfl, rfl⟩
  have above : (2 : ℚ) ^ (-1022 : ℤ) < (2 ^ 52 : ℕ) * 2 ^ (-52 : ℤ) := by
    have one : ((2 ^ 52 : ℕ) : ℚ) * 2 ^ (-52 : ℤ) = 2 ^ (0 : ℤ) := by norm_num
    rw [one]
    exact zpow_lt_zpow_right₀ one_lt_two (by decide)
  obtain ⟨words, all⟩ := stays certainFirst value
  obtain ⟨less, unclamped⟩ := (words 0xffffffffffffffff).2.2.2 (.inr (.inr above))
  refine ⟨rounded (2 ^ 53 - 1) (by decide), value, less, unclamped, ?_⟩
  rw [all above]
  decide +kernel

end CircuitBench.Binary64
