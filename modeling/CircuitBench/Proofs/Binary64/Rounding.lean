import CircuitBench.Proofs.Binary64.Packing
import Mathlib

/-!
# Rounding to 53 bits

A result with too many bits is shifted to the right, and of the bits that drop out only so much
is kept as tells on which side of the middle between two numbers the exact result lies. So
what is rounded in the end is the exact result, to the nearest number, and the error is at most
half a unit in the last place.
-/

namespace CircuitBench.Binary64

open Float.Model UnpackedFloat

/-- The mantissa and its two residual bits tell where a number lies: at a multiple of a half, or
between two of them. -/
def Locates (em : ExtendedMantissa) (y : ℚ) : Prop :=
  let low := (em.mantissa : ℚ) + if em.roundBit then 1 / 2 else 0
  if em.stickyBit then low < y ∧ y < low + 1 / 2 else y = low

/-- The whole number nearest to a number from zero on, and the even one where two are equally
near. -/
def nearestEven (y : ℚ) : ℕ :=
  if y - ⌊y⌋₊ < 1 / 2 then ⌊y⌋₊
  else if 1 / 2 < y - ⌊y⌋₊ then ⌊y⌋₊ + 1
  else ⌊y⌋₊ + ⌊y⌋₊ % 2

namespace Locates

variable {em : ExtendedMantissa} {y : ℚ}

theorem bounds (h : Locates em y) : (em.mantissa : ℚ) ≤ y ∧ y < em.mantissa + 1 := by
  obtain ⟨m, r, s⟩ := em
  cases r <;> cases s <;> simp [Locates] at h ⊢ <;> constructor <;> linarith

/-- Rounding to the nearest is off by at most a half. -/
theorem abs_rounded_sub_le (h : Locates em y) : |(em.roundedMantissa : ℚ) - y| ≤ 1 / 2 := by
  obtain ⟨m, r, s⟩ := em
  have parity : (m % 2 : ℕ) = 0 ∨ (m % 2 : ℕ) = 1 := Nat.mod_two_eq_zero_or_one m
  rw [abs_le]
  cases r <;> cases s <;> simp [Locates] at h
  case false.false =>
    change _ ≤ (m : ℚ) - y ∧ (m : ℚ) - y ≤ _
    constructor <;> linarith
  case false.true =>
    change _ ≤ (m : ℚ) - y ∧ (m : ℚ) - y ≤ _
    constructor <;> linarith
  case true.false =>
    change _ ≤ ((m + m % 2 : ℕ) : ℚ) - y ∧ ((m + m % 2 : ℕ) : ℚ) - y ≤ _
    rcases parity with even | odd
    · rw [even]
      push_cast
      constructor <;> linarith
    · rw [odd]
      push_cast
      constructor <;> linarith
  case true.true =>
    change _ ≤ ((m + 1 : ℕ) : ℚ) - y ∧ ((m + 1 : ℕ) : ℚ) - y ≤ _
    push_cast
    constructor <;> linarith

/-- The mantissa is rounded to the nearest whole number. -/
theorem roundedMantissa_eq (h : Locates em y) : em.roundedMantissa = nearestEven y := by
  obtain ⟨low, high⟩ := h.bounds
  have floor : ⌊y⌋₊ = em.mantissa :=
    (Nat.floor_eq_iff ((Nat.cast_nonneg _).trans low)).mpr ⟨low, high⟩
  obtain ⟨m, r, s⟩ := em
  rw [nearestEven, floor]
  cases r <;> cases s <;> simp [Locates] at h
  case false.false =>
    rw [if_pos (by linarith)]
    rfl
  case false.true =>
    rw [if_pos (by linarith)]
    rfl
  case true.false =>
    rw [if_neg (by linarith), if_neg (by linarith)]
    rfl
  case true.true =>
    rw [if_neg (by linarith), if_pos (by linarith)]
    rfl

theorem shiftRightOne (h : Locates em y) : Locates em.shiftRightOne (y / 2) := by
  obtain ⟨m, r, s⟩ := em
  have halves : (m : ℚ) = 2 * (m / 2 : ℕ) + (m % 2 : ℕ) := by
    exact_mod_cast (Nat.div_add_mod m 2).symm
  rcases Nat.mod_two_eq_zero_or_one m with even | odd
  · rw [even] at halves
    cases r <;> cases s <;> simp [Locates, ExtendedMantissa.shiftRightOne, even] at h ⊢ <;>
      first | linarith | constructor <;> linarith
  · rw [odd] at halves
    cases r <;> cases s <;> simp [Locates, ExtendedMantissa.shiftRightOne, odd] at h ⊢ <;>
      first | linarith | constructor <;> linarith

theorem shiftRight (h : Locates em y) (n : Nat) : Locates (em >>> n) (y / 2 ^ n) := by
  change Locates (n.repeat ExtendedMantissa.shiftRightOne em) _
  induction n with
  | zero => simpa [Nat.repeat] using h
  | succ n ih =>
    rw [Nat.repeat, pow_succ, ← div_div]
    exact ih.shiftRightOne

end Locates

/-- Above the subnormal numbers, a mantissa is shifted to 53 bits. -/
theorem shiftToTargetExponent_eq {m t : Nat} {e : Int} (accuracy : Accuracy)
    (log : m.log2 = 52 + t) (least : -1074 ≤ e + t) :
    shiftToTargetExponent .binary64 m e accuracy =
      (ExtendedMantissa.ofMantissaAndAccuracy m accuracy >>> t, e + t) := by
  have target : Format.binary64.targetExponent (totalExponent m e) = e + t := by
    change max ((m.log2 : Int) + 1 + e - 53) (-1074) = e + t
    omega
  have amount : (Format.binary64.targetExponent (totalExponent m e) - e).toNat = t := by omega
  rw [shiftToTargetExponent, shiftToExponent, amount]

/-- A rounded mantissa can have one bit too many, which makes no difference to its value. -/
theorem shiftToTargetExponent_rounded {k : Nat} {e : Int} (low : 2 ^ 52 ≤ k) (high : k ≤ 2 ^ 53)
    (least : -1074 ≤ e) (most : e ≤ 970) :
    let shifted := shiftToTargetExponent .binary64 k e .exact
    IsNormal shifted.1.mantissa shifted.2 ∧
      (shifted.1.mantissa : ℚ) * 2 ^ shifted.2 = k * 2 ^ e := by
  intro shifted
  rcases Nat.lt_or_eq_of_le high with fits | rfl
  · have log : k.log2 = 52 + 0 := (Nat.log2_eq_iff (by omega)).mpr ⟨low, fits⟩
    have same : shifted = (⟨k, false, false⟩, e + 0) :=
      shiftToTargetExponent_eq .exact log (by omega)
    rw [same, Int.add_zero]
    exact ⟨⟨low, fits, least, by omega⟩, rfl⟩
  · have log : (2 ^ 53 : ℕ).log2 = 52 + 1 := Nat.log2_two_pow
    have halved : shifted = (⟨2 ^ 52, false, false⟩, e + 1) :=
      shiftToTargetExponent_eq .exact log (by omega)
    rw [halved]
    refine ⟨⟨Nat.le_refl _, Nat.pow_lt_pow_right (by decide) (by decide), by omega, by omega⟩, ?_⟩
    rw [zpow_add_one₀ two_ne_zero]
    push_cast
    ring

@[simp] theorem mantissa_ofMantissaAndAccuracy (m : Nat) (accuracy : Accuracy) :
    (ExtendedMantissa.ofMantissaAndAccuracy m accuracy).mantissa = m := by
  rcases accuracy with _ | (_ | _ | _) <;> rfl

/-- In units of the last place, the exact result has 53 bits. -/
theorem Locates.scaled {m t : Nat} {accuracy : Accuracy} {y : ℚ}
    (h : Locates (.ofMantissaAndAccuracy m accuracy) y) (log : m.log2 = 52 + t) :
    2 ^ 52 ≤ y / 2 ^ t ∧ y / 2 ^ t < 2 ^ 53 := by
  obtain ⟨lower, upper⟩ := h.bounds
  rw [mantissa_ofMantissaAndAccuracy] at lower upper
  have some_bits : m ≠ 0 := by
    rintro rfl
    rw [Nat.log2_zero] at log
    omega
  have at_least : (2 : ℚ) ^ (52 + t) ≤ m := by
    exact_mod_cast log ▸ Nat.log2_self_le some_bits
  have at_most : (m : ℚ) + 1 ≤ 2 ^ (53 + t) := by
    have less : m < 2 ^ (m.log2 + 1) := Nat.lt_log2_self
    rw [log, Nat.add_right_comm] at less
    exact_mod_cast less
  rw [le_div_iff₀ (by positivity), div_lt_iff₀ (by positivity), ← pow_add, ← pow_add]
  exact ⟨at_least.trans lower, upper.trans_le at_most⟩

/-- The exact result `y` is rounded to the nearest multiple of the unit in the last place. -/
theorem exists_roundWithAccuracy {m t : Nat} {e : Int} {accuracy : Accuracy} {y : ℚ}
    (located : Locates (.ofMantissaAndAccuracy m accuracy) y) (log : m.log2 = 52 + t)
    (least : -1074 ≤ e + t) (most : e + t ≤ 970) (s : Sign) :
    ∃ (k significand : Nat) (exponent : Int) (normal : IsNormal significand exponent),
      roundWithAccuracy .binary64 s m e accuracy = .finite s significand exponent normal.pos ∧
      (significand : ℚ) * 2 ^ exponent = k * 2 ^ (e + t) ∧ |(k : ℚ) - y / 2 ^ t| ≤ 1 / 2 := by
  have rounded := (located.shiftRight t).abs_rounded_sub_le
  generalize shift : ExtendedMantissa.ofMantissaAndAccuracy m accuracy >>> t = em at rounded
  obtain ⟨at_least, at_most⟩ := located.scaled log
  obtain ⟨below, above⟩ := abs_le.mp rounded
  have low : 2 ^ 52 ≤ em.roundedMantissa := by
    by_contra less
    have short : (em.roundedMantissa : ℚ) + 1 ≤ 2 ^ 52 := by exact_mod_cast Nat.lt_of_not_le less
    linarith
  have high : em.roundedMantissa ≤ 2 ^ 53 := by
    by_contra more
    have long : (2 : ℚ) ^ 53 + 1 ≤ em.roundedMantissa := by exact_mod_cast Nat.lt_of_not_le more
    linarith
  obtain ⟨normal, value⟩ := shiftToTargetExponent_rounded low high least most
  refine ⟨_, _, _, normal, ?_, value, rounded⟩
  simp only [roundWithAccuracy, shiftToTargetExponent_eq accuracy log least, shift]
  exact dif_neg normal.pos.ne'

section Value

variable {z : ℚ} {c : Int}

/-- A moderate number has a moderate exponent. -/
theorem exponent_moderate (at_least : 2 ^ 52 ≤ z) (at_most : z < 2 ^ 53)
    (small : 1 / 2 ^ 64 ≤ z * 2 ^ c) (large : z * 2 ^ c < 2 ^ 64) : -117 ≤ c ∧ c < 12 := by
  have pos : (0 : ℚ) < 2 ^ c := zpow_pos two_pos c
  constructor
  · have above : (2 : ℚ) ^ (-117 : ℤ) ≤ 2 ^ c := by
      have scaled : 1 / 2 ^ 64 ≤ 2 ^ 53 * (2 : ℚ) ^ c :=
        small.trans (mul_le_mul_of_nonneg_right at_most.le pos.le)
      norm_num at scaled ⊢
      linarith
    exact (zpow_le_zpow_iff_right₀ one_lt_two).mp above
  · have below : (2 : ℚ) ^ c < 2 ^ (12 : ℤ) := by
      have scaled : 2 ^ 52 * (2 : ℚ) ^ c < 2 ^ 64 :=
        (mul_le_mul_of_nonneg_right at_least pos.le).trans_lt large
      norm_num at scaled ⊢
      linarith
    exact (zpow_lt_zpow_iff_right₀ one_lt_two).mp below

/-- Half a unit in the last place of a number with 53 bits is a small part of it. -/
theorem abs_sub_le_of_nearest {k : ℚ} (at_least : 2 ^ 52 ≤ z) (nearest : |k - z| ≤ 1 / 2) :
    |k * 2 ^ c - z * 2 ^ c| ≤ |z * 2 ^ c| / 2 ^ 53 := by
  have pos : (0 : ℚ) < 2 ^ c := zpow_pos two_pos c
  have part : (1 : ℚ) / 2 ≤ |z| / 2 ^ 53 := by
    rw [abs_of_nonneg (by linarith)]
    linarith
  calc |k * 2 ^ c - z * 2 ^ c| = |k - z| * 2 ^ c := by rw [← sub_mul, abs_mul, abs_of_pos pos]
    _ ≤ |z| / 2 ^ 53 * 2 ^ c := by gcongr; exact nearest.trans part
    _ = |z * 2 ^ c| / 2 ^ 53 := by rw [abs_mul, abs_of_pos pos, div_mul_eq_mul_div]

/-- A natural number with at most 53 bits is the nearest number to itself. -/
theorem eq_of_nearest {k j : Nat} (at_least : 2 ^ 52 ≤ z) (nearest : |(k : ℚ) - z| ≤ 1 / 2)
    (short : j < 2 ^ 53) (whole : z * 2 ^ c = j) : (k : ℚ) * 2 ^ c = j := by
  have unit : c ≤ 0 := by
    by_contra positive
    have two : (2 : ℚ) ^ (1 : ℤ) ≤ 2 ^ c := zpow_le_zpow_right₀ one_le_two (by omega)
    have long : (j : ℚ) < 2 ^ 53 := by exact_mod_cast short
    rw [zpow_one] at two
    nlinarith
  obtain ⟨d, rfl⟩ := Int.exists_eq_neg_ofNat unit
  have multiple : z = (j * 2 ^ d : ℕ) := by
    push_cast
    rw [← whole, zpow_neg, zpow_natCast, inv_mul_cancel_right₀ (by positivity)]
  have same : k = j * 2 ^ d := by
    rw [multiple] at nearest
    have close : |((k : ℤ) - (j * 2 ^ d : ℕ) : ℤ)| < 1 := by
      exact_mod_cast nearest.trans_lt one_half_lt_one
    have equal := Int.abs_lt_one_iff.mp close
    omega
  rw [same, ← multiple, whole]

end Value

/-- The result of an operation is close to its exact result `y * 2 ^ e`, and it is exact if that
is a natural number with at most 53 bits. -/
theorem exists_rounded {m : Nat} {e : Int} {accuracy : Accuracy} {y : ℚ}
    (located : Locates (.ofMantissaAndAccuracy m accuracy) y) (wide : 52 ≤ m.log2)
    (small : 1 / 2 ^ 64 ≤ y * 2 ^ e) (large : y * 2 ^ e < 2 ^ 64) (s : Sign) :
    ∃ (significand : Nat) (exponent : Int) (normal : IsNormal significand exponent),
      roundWithAccuracy .binary64 s m e accuracy = .finite s significand exponent normal.pos ∧
      |(significand : ℚ) * 2 ^ exponent - y * 2 ^ e| ≤ |y * 2 ^ e| / 2 ^ 53 ∧
      ∀ j : Nat, j < 2 ^ 53 → y * 2 ^ e = j → (significand : ℚ) * 2 ^ exponent = j := by
  obtain ⟨t, log⟩ := Nat.exists_eq_add_of_le wide
  have exact : y * 2 ^ e = y / 2 ^ t * 2 ^ (e + t) := by
    rw [zpow_add₀ two_ne_zero, zpow_natCast]
    field_simp
  obtain ⟨at_least, at_most⟩ := located.scaled log
  rw [exact] at small large ⊢
  obtain ⟨least, most⟩ := exponent_moderate at_least at_most small large
  have above_subnormal : -1074 ≤ e + t := by omega
  have below_infinity : e + t ≤ 970 := by omega
  obtain ⟨k, significand, exponent, normal, round, value, nearest⟩ :=
    exists_roundWithAccuracy located log above_subnormal below_infinity s
  refine ⟨significand, exponent, normal, round, ?_, ?_⟩
  · rw [value]
    exact abs_sub_le_of_nearest at_least nearest
  · intro j short whole
    rw [value]
    exact eq_of_nearest at_least nearest short whole

end CircuitBench.Binary64
