import CircuitBench.Proofs.Sampling.Report
import Mathlib

/-!
# Counts that become shares and counts again

The share of a count in the shots is rounded, and so is its product with the shots. As long as
both are close to the exact values, the product differs from the count by less than one, so
its whole part is the count or one less. It is never one more.
-/

namespace CircuitBench

/-- A number is another one up to half a unit in the last place of a binary64 number. -/
def CloseTo (x exact : ℚ) : Prop :=
  |x - exact| ≤ |exact| / 2 ^ 53

/-- How shares of counts are rounded. Counts of 32 bits are exact, and the shares and their
products with the shots are close to the exact quotients and products. -/
structure ShareRounding (R : Type) [Chance R] where
  /-- The rational number that a number stands for. -/
  value : R → ℚ
  value_ofCount : ∀ n < 2 ^ 32, value (Chance.ofCount n) = n
  closeTo_ratio : ∀ {n shots}, n ≤ shots → 0 < shots → shots < 2 ^ 32 →
    CloseTo (value (Sampling.share R shots n))
      (value (Chance.ofCount n) / value (Chance.ofCount shots))
  closeTo_mul : ∀ {n shots}, n ≤ shots → 0 < shots → shots < 2 ^ 32 →
    CloseTo (value (Sampling.share R shots n * Chance.ofCount shots))
      (value (Sampling.share R shots n) * value (Chance.ofCount shots))
  wholePart_eq : ∀ {n shots}, n ≤ shots → 0 < shots → shots < 2 ^ 32 →
    Chance.wholePart (Sampling.share R shots n * Chance.ofCount shots) =
      ⌊value (Sampling.share R shots n * Chance.ofCount shots)⌋₊

namespace Sampling

variable {R : Type} [Chance R] (rounding : ShareRounding R) {n shots : Nat}

/-- The rounded product of the rounded share and the shots is off by less than one. -/
theorem abs_product_sub_lt_one (le : n ≤ shots) (pos : 0 < shots) (small : shots < 2 ^ 32) :
    |rounding.value (share R shots n * Chance.ofCount shots) - n| < 1 := by
  have ratio := rounding.closeTo_ratio le pos small
  have product := rounding.closeTo_mul le pos small
  rw [rounding.value_ofCount shots small] at ratio product
  rw [rounding.value_ofCount n (by omega)] at ratio
  simp only [CloseTo] at ratio product
  generalize rounding.value (share R shots n) = q at ratio product
  generalize rounding.value (share R shots n * Chance.ofCount shots) = y at product ⊢
  have shots_pos : (0 : ℚ) < shots := by exact_mod_cast pos
  have count : (n : ℚ) < 2 ^ 32 := by exact_mod_cast lt_of_le_of_lt le small
  -- The error of the share, counted in shots.
  have scaled : |q * shots - n| ≤ n / 2 ^ 53 := by
    have exact : (n : ℚ) / shots * shots = n := div_mul_cancel₀ _ shots_pos.ne'
    calc |q * shots - n| = |(q - n / shots) * shots| := by rw [sub_mul, exact]
      _ = |q - n / shots| * shots := by rw [abs_mul, abs_of_pos shots_pos]
      _ ≤ |(n : ℚ) / shots| / 2 ^ 53 * shots := by gcongr
      _ = |(n : ℚ) / shots * shots| / 2 ^ 53 := by
        rw [abs_mul, abs_of_pos shots_pos, div_mul_eq_mul_div]
      _ = n / 2 ^ 53 := by rw [exact, Nat.abs_cast]
  have bounded : |q * shots| ≤ n + n / 2 ^ 53 := by
    have parts := abs_add_le (q * shots - n) n
    rw [sub_add_cancel, Nat.abs_cast] at parts
    linarith
  calc |y - n| ≤ |y - q * shots| + |q * shots - n| := abs_sub_le _ _ _
    _ ≤ (n + n / 2 ^ 53) / 2 ^ 53 + n / 2 ^ 53 := by gcongr; exact product.trans (by gcongr)
    _ < 1 := by linarith

include rounding in
/-- A count is requantized to itself or to one less. -/
theorem requantized_eq_or (le : n ≤ shots) (pos : 0 < shots) (small : shots < 2 ^ 32) :
    requantized R shots n = n ∨ requantized R shots n + 1 = n := by
  have close := abs_lt.mp (abs_product_sub_lt_one rounding le pos small)
  rw [requantized, rounding.wholePart_eq le pos small]
  generalize rounding.value (share R shots n * Chance.ofCount shots) = y at close ⊢
  rcases le_or_gt (n : ℚ) y with reached | missed
  · left
    exact (Nat.floor_eq_iff ((Nat.cast_nonneg n).trans reached)).mpr ⟨reached, by linarith⟩
  · cases n with
    | zero => exact .inl (Nat.floor_of_nonpos (by simpa using missed.le))
    | succ m =>
      right
      push_cast at close missed
      have least : (m : ℚ) ≤ y := by linarith
      rw [(Nat.floor_eq_iff ((Nat.cast_nonneg m).trans least)).mpr ⟨least, missed⟩]

include rounding in
theorem requantized_le (le : n ≤ shots) (pos : 0 < shots) (small : shots < 2 ^ 32) :
    requantized R shots n ≤ n := by
  have cases := requantized_eq_or rounding le pos small
  omega

end Sampling

end CircuitBench
