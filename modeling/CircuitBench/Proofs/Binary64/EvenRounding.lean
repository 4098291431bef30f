import CircuitBench.Proofs.Binary64.Nearest
import Mathlib

/-!
# Rounding to significant bits

A positive number is rounded to a multiple of the unit in its last place, to the even one where two
are equally near. Products of normal numbers are rounded so, as long as they are in the normal range
themselves. A unit in the last place of 53 bits is at most a part in `2 ^ 52` of the number, which
is why a number that falls short of another one by a part in `2 ^ 53` is not rounded up to it.
-/

namespace CircuitBench.Binary64

open Float.Model UnpackedFloat

theorem nearestEven_natCast (n : ℕ) : nearestEven n = n := by
  simp [nearestEven]

theorem abs_nearestEven_sub_le {y : ℚ} (nonneg : 0 ≤ y) : |(nearestEven y : ℚ) - y| ≤ 1 / 2 := by
  have low := Nat.floor_le nonneg
  have high := Nat.lt_floor_add_one y
  have even : ((⌊y⌋₊ % 2 : ℕ) : ℚ) = 0 ∨ ((⌊y⌋₊ % 2 : ℕ) : ℚ) = 1 := by
    exact_mod_cast Nat.mod_two_eq_zero_or_one _
  rw [nearestEven, abs_le]
  split_ifs
  · constructor <;> linarith
  · push_cast
    constructor <;> linarith
  · rw [Nat.cast_add]
    rcases even with even | odd <;> constructor <;> linarith

/-- A number rounded to so many significant bits, to the nearest and to the even one of two. -/
def roundedToBits (bits : ℕ) (x : ℚ) : ℚ :=
  nearestEven (x / 2 ^ (Int.log 2 x + 1 - bits)) * 2 ^ (Int.log 2 x + 1 - bits)

@[simp] theorem roundedToBits_zero (bits : ℕ) : roundedToBits bits 0 = 0 := by
  rw [roundedToBits, zero_div, ← Nat.cast_zero, nearestEven_natCast, Nat.cast_zero, zero_mul]

section Bits

variable {bits : ℕ} {x : ℚ} (pos : 0 < x)

include pos

/-- Rounding is off by at most half a unit, which is a small part of the number. -/
theorem abs_roundedToBits_sub_le : |roundedToBits bits x - x| ≤ x / 2 ^ bits := by
  have unit : (0 : ℚ) < 2 ^ (Int.log 2 x + 1 - bits) := zpow_pos two_pos _
  have small : (2 : ℚ) ^ (Int.log 2 x + 1 - bits) ≤ 2 * (x / 2 ^ bits) := by
    have log : ((2 : ℕ) : ℚ) ^ Int.log 2 x ≤ x := Int.zpow_log_le_self (by decide) pos
    rw [Nat.cast_ofNat] at log
    have parts := div_le_div_of_nonneg_right log (pow_pos two_pos bits).le
    rw [zpow_sub₀ two_ne_zero, zpow_natCast, zpow_add_one₀ two_ne_zero]
    linear_combination 2 * parts
  have near := mul_le_mul_of_nonneg_right (abs_nearestEven_sub_le (div_pos pos unit).le) unit.le
  rw [← abs_of_pos unit, ← abs_mul, abs_of_pos unit, sub_mul, div_mul_cancel₀ _ unit.ne'] at near
  exact near.trans (by linarith)

/-- What falls short of a total by a part in so many bits is not rounded up to the total. -/
theorem roundedToBits_lt {total : ℚ} (some_total : 0 < total)
    (part : x ≤ (1 - 1 / 2 ^ bits) * total) : roundedToBits bits x < total := by
  have above := (abs_le.mp (@abs_roundedToBits_sub_le bits x pos)).2
  have power : (0 : ℚ) < 1 / 2 ^ bits := by positivity
  calc roundedToBits bits x ≤ x * (1 + 1 / 2 ^ bits) := by linear_combination above
    _ ≤ (1 - 1 / 2 ^ bits) * total * (1 + 1 / 2 ^ bits) := by gcongr
    _ = total - (1 / 2 ^ bits) ^ 2 * total := by ring
    _ < total := by linarith [mul_pos (pow_pos power 2) some_total]

end Bits

theorem log_natCast_mul_zpow {M : ℕ} (some_bits : M ≠ 0) (E : ℤ) :
    Int.log 2 ((M : ℚ) * 2 ^ E) = M.log2 + E := by
  obtain ⟨low, high⟩ := pow_log2_bounds some_bits E
  have pos : (0 : ℚ) < M * 2 ^ E := lt_of_lt_of_le (zpow_pos two_pos _) low
  refine le_antisymm ?_ ?_
  · have := (Int.lt_zpow_iff_log_lt (b := 2) (by decide) pos).mp (by exact_mod_cast high)
    omega
  · exact (Int.zpow_le_iff_le_log (b := 2) (by decide) pos).mp (by exact_mod_cast low)

/-- In the normal range, what is rounded to is the exact result rounded to 53 bits. -/
theorem exists_round_normal {M : ℕ} {E : ℤ} (some_bits : M ≠ 0)
    (normal : (2 : ℚ) ^ (-1022 : ℤ) ≤ M * 2 ^ E)
    (fits : roundedToBits 53 (M * 2 ^ E) < 2 ^ (1024 : ℤ)) :
    ∃ (k : ℕ) (c : ℤ) (normal : IsNormal k c),
      UnpackedFloat.round .binary64 .positive M E = .finite .positive k c normal.pos ∧
      (k : ℚ) * 2 ^ c = roundedToBits 53 (M * 2 ^ E) := by
  have log := log_natCast_mul_zpow some_bits E
  have least : -1022 ≤ (M.log2 : ℤ) + E := by
    have bits := lt_of_le_of_lt normal (pow_log2_bounds some_bits E).2
    have := (zpow_lt_zpow_iff_right₀ one_lt_two).mp bits
    omega
  obtain ⟨T, unit⟩ : ∃ T, T = (M.log2 : ℤ) + E - 52 := ⟨_, rfl⟩
  have place : T = max ((M.log2 : ℤ) + E - 52) (-1074) := by omega
  have rounds := roundsTo_nearestEven some_bits place
  have value : roundedToBits 53 ((M : ℚ) * 2 ^ E) = nearestEven (M * 2 ^ E / 2 ^ T) * 2 ^ T := by
    have last : Int.log 2 ((M : ℚ) * 2 ^ E) + 1 - (53 : ℕ) = T := by
      rw [log, unit]
      push_cast
      ring
    rw [roundedToBits, last]
  generalize nearestEven (M * 2 ^ E / 2 ^ T) = k at rounds value
  have long : 2 ^ 52 ≤ k := by
    refine rounds.le_units (le_trans ?_ (pow_log2_bounds some_bits E).1)
    rw [natCast_two_pow_mul]
    exact zpow_le_zpow_right₀ one_le_two (by omega)
  have some_units : 0 < k := by omega
  have high := rounds.units_le_pow some_bits
  obtain ⟨some, canonical, kept⟩ :=
    shiftToTargetExponent_canonical some_units high (by omega : -1074 ≤ T) (.inl long)
  have same := value_shiftToTargetExponent some_units high (by omega : -1074 ≤ T) (.inl long)
  have low : 2 ^ 52 ≤ (shiftToTargetExponent .binary64 k T .exact).1.mantissa := by omega
  have most : (shiftToTargetExponent .binary64 k T .exact).2 ≤ 971 := by
    rw [value, ← same] at fits
    have wide : (2 : ℚ) ^ 52 ≤ (shiftToTargetExponent .binary64 k T .exact).1.mantissa := by
      exact_mod_cast low
    have bits := lt_of_le_of_lt (mul_le_mul_of_nonneg_right wide (zpow_pos two_pos _).le) fits
    rw [← zpow_natCast, ← zpow_add₀ two_ne_zero] at bits
    have := (zpow_lt_zpow_iff_right₀ one_lt_two).mp bits
    omega
  refine ⟨_, _, ⟨low, canonical.high, canonical.least, most⟩, ?_, same.trans value.symm⟩
  rw [rounds.round, dif_neg some.ne']

/-- The product of two numbers with 53 bits each is their exact product, rounded. -/
theorem mul_positive {d m : Nat} {f e : Int} (normal : IsNormal d f) (normal' : IsNormal m e) :
    UnpackedFloat.mul .binary64 (.finite .positive d f normal.pos)
        (.finite .positive m e normal'.pos) =
      UnpackedFloat.round .binary64 .positive (d * m) (f + e) := by
  have wide : 2 ^ 104 ≤ d * m := by
    calc 2 ^ 104 = 2 ^ 52 * 2 ^ 52 := rfl
      _ ≤ d * m := Nat.mul_le_mul normal.low normal'.low
  have log : 104 ≤ (d * m).log2 := (Nat.le_log2 (by omega)).mpr wide
  have target : (f + e - Format.binary64.targetExponent (totalExponent (d * m) (f + e))).toNat =
      0 := by
    change (f + e - max (((d * m).log2 : Int) + 1 + (f + e) - 53) (-1074)).toNat = 0
    omega
  simp only [UnpackedFloat.round, decreaseExponent, target, Nat.shiftLeft_zero]
  simp only [UnpackedFloat.mul, Int.natCast_zero, Int.sub_zero]
  rfl

theorem HasValue.pos {x : Float} {v : ℚ} (h : HasValue x v) : 0 < v := by
  obtain ⟨m, e, normal, -, rfl⟩ := h
  exact mul_pos (Nat.cast_pos.mpr normal.pos) (zpow_pos two_pos e)

theorem HasValue.lt {x : Float} {v : ℚ} (h : HasValue x v) : v < 2 ^ (1024 : ℤ) := by
  obtain ⟨m, e, normal, -, rfl⟩ := h
  have bits : (m : ℚ) < 2 ^ 53 := by exact_mod_cast normal.high
  calc (m : ℚ) * 2 ^ e < 2 ^ 53 * 2 ^ e := mul_lt_mul_of_pos_right bits (zpow_pos two_pos e)
    _ = 2 ^ (53 + e) := by
      rw [zpow_add₀ two_ne_zero]
      rfl
    _ ≤ 2 ^ (1024 : ℤ) := zpow_le_zpow_right₀ one_le_two (by have := normal.most; omega)

/-- In the normal range, a product is the exact product rounded to 53 bits. -/
theorem hasValue_mul {x y : Float} {a b : ℚ} (first : HasValue x a) (second : HasValue y b)
    (normal : 2 ^ (-1022 : ℤ) ≤ a * b) (fits : roundedToBits 53 (a * b) < 2 ^ (1024 : ℤ)) :
    HasValue (x * y) (roundedToBits 53 (a * b)) := by
  obtain ⟨d, f, normal_d, at_x, rfl⟩ := first
  obtain ⟨m, e, normal_m, at_y, rfl⟩ := second
  have exact : (d : ℚ) * 2 ^ f * (m * 2 ^ e) = (d * m : ℕ) * 2 ^ (f + e) := by
    rw [zpow_add₀ two_ne_zero]
    push_cast
    ring
  rw [exact] at normal fits ⊢
  have some_bits : d * m ≠ 0 := (Nat.mul_pos normal_d.pos normal_m.pos).ne'
  obtain ⟨k, c, normal_k, rounded, value⟩ := exists_round_normal some_bits normal fits
  refine ⟨k, c, normal_k, ?_, value⟩
  change (Float.Model.pack
    (UnpackedFloat.mul .binary64 x.toModel.unpack y.toModel.unpack)).unpack = _
  rw [at_x, at_y, mul_positive normal_d normal_m, rounded]
  exact unpack_pack_normal .positive normal_k

/-- A number with few enough bits is rounded to itself. -/
theorem roundedToBits_of_short {bits n : ℕ} {E : ℤ} (pos : 0 < n) (short : n < 2 ^ bits) :
    roundedToBits bits (n * 2 ^ E) = n * 2 ^ E := by
  have log := log_natCast_mul_zpow pos.ne' E
  have few : n.log2 < bits := (Nat.log2_lt pos.ne').mpr short
  have unit : (2 : ℚ) ^ (Int.log 2 ((n : ℚ) * 2 ^ E) + 1 - bits) ≠ 0 := (zpow_pos two_pos _).ne'
  have whole : (n : ℚ) * 2 ^ E / 2 ^ (Int.log 2 ((n : ℚ) * 2 ^ E) + 1 - bits) =
      (n * 2 ^ (bits - 1 - n.log2) : ℕ) := by
    rw [div_eq_iff unit, log]
    push_cast
    rw [mul_assoc, ← zpow_natCast, ← zpow_add₀ two_ne_zero]
    congr 2
    omega
  rw [roundedToBits, whole, nearestEven_natCast, ← whole, div_mul_cancel₀ _ unit]

end CircuitBench.Binary64
