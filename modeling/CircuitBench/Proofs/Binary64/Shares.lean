import CircuitBench.Proofs.Binary64.Rounding
import CircuitBench.Proofs.Sampling.Rounding
import Mathlib

/-!
# Shares in binary64

Counts of 32 bits are binary64 numbers. Their quotients and the products of these with the
shots are far from the ends of the range, so they are normal numbers with the error of one
rounding, and the conversion to an integer takes the whole part of what is there.
-/

namespace CircuitBench.Binary64

open Float.Model UnpackedFloat

/-- The rational number that a finite number is, and zero for the others. -/
def valueOf (x : Float) : ℚ :=
  match x.toModel.unpack with
  | .finite s significand exponent _ => s.apply significand * 2 ^ exponent
  | _ => 0

/-- A positive normal number of that value. -/
def HasValue (x : Float) (v : ℚ) : Prop :=
  ∃ (significand : Nat) (exponent : Int) (normal : IsNormal significand exponent),
    x.toModel.unpack = .finite .positive significand exponent normal.pos ∧
      (significand : ℚ) * 2 ^ exponent = v

/-- A positive number that is far from the ends of the range. -/
def Moderate (v : ℚ) : Prop :=
  1 / 2 ^ 64 ≤ v ∧ v < 2 ^ 64

theorem HasValue.valueOf_eq {x : Float} {v : ℚ} (h : HasValue x v) : valueOf x = v := by
  obtain ⟨significand, exponent, normal, unpacked, rfl⟩ := h
  rw [valueOf, unpacked]
  simp [Sign.apply]

theorem IsNormal.log2 {significand : Nat} {exponent : Int} (h : IsNormal significand exponent) :
    significand.log2 = 52 :=
  (Nat.log2_eq_iff h.pos.ne').mpr ⟨h.low, h.high⟩

theorem locates_exact (m : Nat) : Locates (.ofMantissaAndAccuracy m .exact) m := by
  simp [Locates, ExtendedMantissa.ofMantissaAndAccuracy]

/-- A rounded result in the moderate range has the error of one rounding. -/
theorem exists_hasValue_round {m : Nat} {e : Int} {accuracy : Accuracy} {y v : ℚ}
    (located : Locates (.ofMantissaAndAccuracy m accuracy) y) (wide : 2 ^ 52 ≤ m)
    (exact : y * 2 ^ e = v) (moderate : Moderate v) :
    ∃ w, HasValue (.ofModel (.pack (roundWithAccuracy .binary64 .positive m e accuracy))) w ∧
      CloseTo w v ∧ ∀ j : Nat, j < 2 ^ 53 → v = j → w = j := by
  subst exact
  have log : 52 ≤ m.log2 := (Nat.le_log2 (by omega)).mpr wide
  obtain ⟨significand, exponent, normal, round, close, whole⟩ :=
    exists_rounded located log moderate.1 moderate.2 .positive
  refine ⟨_, ⟨significand, exponent, normal, ?_, rfl⟩, close, whole⟩
  rw [round]
  exact unpack_pack_normal .positive normal

theorem moderate_natCast {n : Nat} (pos : 0 < n) (small : n < 2 ^ 53) : Moderate n := by
  have one : (1 : ℚ) ≤ n := by exact_mod_cast pos
  have most : (n : ℚ) < 2 ^ 53 := by exact_mod_cast small
  constructor <;> linarith

/-- Counts are exact. -/
theorem hasValue_toFloat {n : Nat} (pos : 0 < n) (small : n < 2 ^ 53) :
    HasValue (UInt64.ofNat n).toFloat n := by
  have short : n.log2 ≤ 52 := Nat.le_of_lt_succ ((Nat.log2_lt pos.ne').mpr small)
  have counted : (UInt64.ofNat n).toNat = n := UInt64.toNat_ofNat_of_lt' (small.trans (by decide))
  have target : Format.binary64.targetExponent (totalExponent n 0) = n.log2 - 52 := by
    change max ((n.log2 : Int) + 1 + 0 - 53) (-1074) = n.log2 - 52
    omega
  -- All 53 bits of the significand are filled before anything is rounded.
  have amount : (0 - Format.binary64.targetExponent (totalExponent n 0)).toNat =
      52 - n.log2 := by omega
  have converted : (UInt64.ofNat n).toFloat = .ofModel (.pack (roundWithAccuracy .binary64
      .positive (n <<< (52 - n.log2)) (0 - (52 - n.log2 : ℕ)) .exact)) := by
    have positive : compare (n : Int) 0 = .gt := Int.compare_eq_gt.mpr (by exact_mod_cast pos)
    change Float.ofModel
      (.pack (UnpackedFloat.normalize .binary64 (UInt64.ofNat n).toNat 0 .positive)) = _
    rw [counted]
    simp only [UnpackedFloat.normalize, positive, UnpackedFloat.round, decreaseExponent, amount,
      Int.toNat_natCast]
  have wide : 2 ^ 52 ≤ n <<< (52 - n.log2) := by
    rw [Nat.shiftLeft_eq]
    calc 2 ^ 52 = 2 ^ n.log2 * 2 ^ (52 - n.log2) := by rw [← pow_add, Nat.add_sub_cancel' short]
      _ ≤ n * 2 ^ (52 - n.log2) := Nat.mul_le_mul_right _ (Nat.log2_self_le pos.ne')
  have exact : ((n <<< (52 - n.log2) : ℕ) : ℚ) * 2 ^ (0 - ((52 - n.log2 : ℕ) : ℤ)) = n := by
    rw [Nat.shiftLeft_eq, zero_sub, zpow_neg, zpow_natCast]
    push_cast
    exact mul_inv_cancel_right₀ (by positivity) _
  obtain ⟨w, value, -, whole⟩ :=
    exists_hasValue_round (locates_exact _) wide exact (moderate_natCast pos small)
  rw [converted]
  rwa [whole n small rfl] at value

/-- How the remainder of a division compares to half of the divisor tells where the fraction that
it stands for lies. -/
theorem locates_fraction (whole : Nat) {remainder divisor : Nat} (less : remainder < divisor) :
    Locates (.ofMantissaAndAccuracy whole (accuracyOfFraction remainder divisor))
      (whole + (remainder : ℚ) / divisor) := by
  have pos : (0 : ℚ) < divisor := by exact_mod_cast Nat.zero_lt_of_lt less
  have below_one : (remainder : ℚ) / divisor < 1 := by
    rw [div_lt_one pos]
    exact_mod_cast less
  rw [accuracyOfFraction]
  split
  case isTrue none => simp [none, Locates, ExtendedMantissa.ofMantissaAndAccuracy]
  case isFalse some =>
    have above_zero : 0 < (remainder : ℚ) / divisor :=
      div_pos (by exact_mod_cast Nat.pos_of_ne_zero some) pos
    rcases lt_trichotomy (2 * remainder) divisor with small | half | large
    · have below_half : (remainder : ℚ) / divisor < 1 / 2 := by
        rw [div_lt_div_iff₀ pos two_pos]
        exact_mod_cast (by omega : remainder * 2 < 1 * divisor)
      rw [Nat.compare_eq_lt.mpr small]
      simpa [Locates, ExtendedMantissa.ofMantissaAndAccuracy, above_zero] using below_half
    · have is_half : (remainder : ℚ) / divisor = 1 / 2 := by
        rw [div_eq_div_iff pos.ne' two_ne_zero]
        exact_mod_cast (by omega : remainder * 2 = 1 * divisor)
      rw [Nat.compare_eq_eq.mpr half]
      simpa [Locates, ExtendedMantissa.ofMantissaAndAccuracy] using is_half
    · have above_half : 1 / 2 < (remainder : ℚ) / divisor := by
        rw [div_lt_div_iff₀ two_pos pos]
        exact_mod_cast (by omega : 1 * divisor < remainder * 2)
      rw [Nat.compare_eq_gt.mpr large]
      simp only [Locates, ExtendedMantissa.ofMantissaAndAccuracy, if_true]
      constructor <;> linarith

/-- The quotient and the remainder of a division locate the exact quotient. -/
theorem locates_div (numerator : Nat) {divisor : Nat} (pos : 0 < divisor) :
    Locates (.ofMantissaAndAccuracy (numerator / divisor)
      (accuracyOfFraction (numerator % divisor) divisor)) ((numerator : ℚ) / divisor) := by
  have parts : (numerator : ℚ) / divisor =
      (numerator / divisor : ℕ) + (numerator % divisor : ℕ) / (divisor : ℚ) := by
    have sum : (numerator : ℚ) = divisor * (numerator / divisor : ℕ) +
        (numerator % divisor : ℕ) := by exact_mod_cast (Nat.div_add_mod _ _).symm
    field_simp
    linarith
  rw [parts]
  exact locates_fraction _ (Nat.mod_lt numerator pos)

theorem divCore_normal {m m' : Nat} {e e' : Int} (normal : IsNormal m e) (normal' : IsNormal m' e')
    (least : -1021 ≤ e - e') :
    divCore .binary64 m e m' e' =
      ((m <<< 53) / m', e - e' - 53, accuracyOfFraction ((m <<< 53) % m') m') := by
  have target : min (e - e') (Format.binary64.targetExponent
      (totalExponent m e - totalExponent m' e')) = e - e' - 53 := by
    rw [totalExponent, totalExponent, normal.log2, normal'.log2]
    change min (e - e') (max ((52 : ℕ) + 1 + e - ((52 : ℕ) + 1 + e') - 53) (-1074)) = e - e' - 53
    omega
  have amount : (e - e' - (e - e' - 53)).toNat = 53 := by omega
  rw [divCore, target, amount]

theorem IsNormal.moderate {m : Nat} {e : Int} (normal : IsNormal m e)
    (h : Moderate ((m : ℚ) * 2 ^ e)) : -117 ≤ e ∧ e < 12 := by
  have low : (2 : ℚ) ^ 52 ≤ m := by exact_mod_cast normal.low
  have high : (m : ℚ) < 2 ^ 53 := by exact_mod_cast normal.high
  exact exponent_moderate low high h.1 h.2

theorem exists_hasValue_div {a b : Float} {u v : ℚ} (ha : HasValue a u) (hb : HasValue b v)
    (hu : Moderate u) (hv : Moderate v) (moderate : Moderate (u / v)) :
    ∃ w, HasValue (a / b) w ∧ CloseTo w (u / v) ∧ ∀ j : Nat, j < 2 ^ 53 → u / v = j → w = j := by
  obtain ⟨m, e, normal, unpacked, rfl⟩ := ha
  obtain ⟨m', e', normal', unpacked', rfl⟩ := hb
  obtain ⟨least, -⟩ := normal.moderate hu
  obtain ⟨-, most⟩ := normal'.moderate hv
  have wide : 2 ^ 52 ≤ (m <<< 53) / m' := by
    rw [Nat.shiftLeft_eq, Nat.le_div_iff_mul_le normal'.pos]
    exact Nat.mul_le_mul normal.low normal'.high.le
  have exact : ((m <<< 53 : ℕ) : ℚ) / m' * 2 ^ (e - e' - 53) = m * 2 ^ e / (m' * 2 ^ e') := by
    rw [Nat.shiftLeft_eq, zpow_sub₀ two_ne_zero, zpow_sub₀ two_ne_zero]
    push_cast
    field_simp
  have quotient : a / b = .ofModel (.pack (roundWithAccuracy .binary64 .positive ((m <<< 53) / m')
      (e - e' - 53) (accuracyOfFraction ((m <<< 53) % m') m'))) := by
    change Float.ofModel (.pack (UnpackedFloat.div .binary64 a.toModel.unpack b.toModel.unpack)) = _
    rw [unpacked, unpacked']
    simp only [UnpackedFloat.div, divCore_normal normal normal' (by omega)]
    rfl
  rw [quotient]
  generalize m <<< 53 = numerator at wide exact
  exact exists_hasValue_round (locates_div numerator normal'.pos) wide exact moderate

theorem exists_hasValue_mul {a b : Float} {u v : ℚ} (ha : HasValue a u) (hb : HasValue b v)
    (moderate : Moderate (u * v)) :
    ∃ w, HasValue (a * b) w ∧ CloseTo w (u * v) ∧ ∀ j : Nat, j < 2 ^ 53 → u * v = j → w = j := by
  obtain ⟨m, e, normal, unpacked, rfl⟩ := ha
  obtain ⟨m', e', normal', unpacked', rfl⟩ := hb
  have wide : 2 ^ 52 ≤ m * m' := by
    have := Nat.mul_le_mul normal.low normal'.pos
    omega
  have exact : ((m * m' : ℕ) : ℚ) * 2 ^ (e + e') = m * 2 ^ e * (m' * 2 ^ e') := by
    rw [zpow_add₀ two_ne_zero]
    push_cast
    ring
  have product : a * b = .ofModel (.pack (roundWithAccuracy .binary64 .positive (m * m') (e + e')
      .exact)) := by
    change Float.ofModel (.pack (UnpackedFloat.mul .binary64 a.toModel.unpack b.toModel.unpack)) = _
    rw [unpacked, unpacked']
    rfl
  rw [product]
  exact exists_hasValue_round (locates_exact _) wide exact moderate

/-- A number is converted to its whole part. -/
theorem toNat_toUInt64 {x : Float} {v : ℚ} (h : HasValue x v) (small : v < 2 ^ 64) :
    x.toUInt64.toNat = ⌊v⌋₊ := by
  obtain ⟨m, e, normal, unpacked, rfl⟩ := h
  -- One of the two shifts is by no bits at all.
  have shifted := (locates_exact (m <<< e.toNat)).shiftRight (-e).toNat
  obtain ⟨at_least, less⟩ := shifted.bounds
  have value : ((m <<< e.toNat : ℕ) : ℚ) / 2 ^ (-e).toNat = m * 2 ^ e := by
    have parts : e = e.toNat - (-e).toNat := by omega
    rw [Nat.shiftLeft_eq]
    conv_rhs => rw [parts, zpow_sub₀ two_ne_zero, zpow_natCast, zpow_natCast]
    push_cast
    ring
  have floor : ⌊(m : ℚ) * 2 ^ e⌋₊ =
      (ExtendedMantissa.ofMantissaAndAccuracy (m <<< e.toNat) .exact >>> (-e).toNat).mantissa := by
    rw [← value]
    exact (Nat.floor_eq_iff (by positivity)).mpr ⟨at_least, less⟩
  have fits : ⌊(m : ℚ) * 2 ^ e⌋₊ < UInt64.size := by
    refine (Nat.floor_lt' (by decide)).mpr ?_
    exact_mod_cast small
  have converted : x.toUInt64 = UInt64.ofNatClamp ⌊(m : ℚ) * 2 ^ e⌋₊ := by
    have left : (e - 0).toNat = e.toNat := by rw [Int.sub_zero]
    have right : (0 - (e - e.toNat)).toNat = (-e).toNat := by omega
    change UInt64.ofNatClamp (UnpackedFloat.toInt 0 (UInt64.size - 1) x.toModel.unpack).toNat = _
    rw [unpacked, floor]
    simp only [UnpackedFloat.toInt, roundToInt, decreaseExponent, shiftToExponent, left, right]
    rfl
  rw [converted, UInt64.ofNatClamp, dif_pos fits]
  exact UInt64.toNat_ofNatLT

section Share

open Sampling

theorem bounds_of_closeTo {w v : ℚ} (h : CloseTo w v) (nonneg : 0 ≤ v) :
    v / 2 ≤ w ∧ w ≤ 2 * v := by
  rw [CloseTo, abs_of_nonneg nonneg, abs_le] at h
  constructor <;> linarith

variable {n shots : Nat}

/-- The share of some of the shots. -/
theorem exists_hasValue_share (pos : 0 < n) (le : n ≤ shots) (small : shots < 2 ^ 32) :
    ∃ w, HasValue (share Float shots n) w ∧ CloseTo w (n / shots) ∧ (n = shots → w = 1) := by
  have one : (1 : ℚ) ≤ n := by exact_mod_cast pos
  have most : (n : ℚ) ≤ shots := by exact_mod_cast le
  have bound : (shots : ℚ) < 2 ^ 32 := by exact_mod_cast small
  have count := hasValue_toFloat pos (by omega : n < 2 ^ 53)
  have all := hasValue_toFloat (by omega : 0 < shots) (by omega : shots < 2 ^ 53)
  have moderate : Moderate ((n : ℚ) / shots) := by
    constructor
    · rw [div_le_div_iff₀ (by positivity) (by linarith)]
      linarith
    · rw [div_lt_iff₀ (by linarith)]
      linarith
  obtain ⟨w, value, close, whole⟩ := exists_hasValue_div count all
    (moderate_natCast pos (by omega)) (moderate_natCast (by omega) (by omega)) moderate
  refine ⟨w, value, close, ?_⟩
  rintro rfl
  have exact := whole 1 (by decide) (by rw [div_self (by linarith), Nat.cast_one])
  rw [exact, Nat.cast_one]

/-- The share of some of the shots, multiplied by the shots. -/
theorem exists_hasValue_product (pos : 0 < n) (le : n ≤ shots) (small : shots < 2 ^ 32) :
    ∃ w p, HasValue (share Float shots n) w ∧
      HasValue (share Float shots n * Chance.ofCount shots) p ∧
      CloseTo w (n / shots) ∧ CloseTo p (w * shots) ∧ p < 2 ^ 64 ∧ (n = shots → p = shots) := by
  obtain ⟨w, share_value, share_close, whole⟩ := exists_hasValue_share pos le small
  have all := hasValue_toFloat (by omega : 0 < shots) (by omega : shots < 2 ^ 53)
  have one : (1 : ℚ) ≤ n := by exact_mod_cast pos
  have most : (n : ℚ) ≤ shots := by exact_mod_cast le
  have bound : (shots : ℚ) < 2 ^ 32 := by exact_mod_cast small
  have shots_pos : (0 : ℚ) < shots := by linarith
  -- The product is half to twice the count.
  obtain ⟨at_least, at_most⟩ := bounds_of_closeTo share_close (by positivity)
  have product_least : (n : ℚ) / 2 ≤ w * shots := by
    rw [div_right_comm, div_le_iff₀ shots_pos] at at_least
    exact at_least
  have product_most : w * shots ≤ 2 * n := by
    rw [← mul_div_assoc, le_div_iff₀ shots_pos] at at_most
    exact at_most
  obtain ⟨p, value, close, exact⟩ := exists_hasValue_mul share_value all
    ⟨by linarith, by linarith⟩
  have p_most := (bounds_of_closeTo close (by linarith)).2
  refine ⟨w, p, share_value, value, share_close, close, by linarith, ?_⟩
  intro same
  exact exact shots (by omega) (by rw [whole same, one_mul])

theorem unpack_product_zero (pos : 0 < shots) (small : shots < 2 ^ 32) :
    (share Float shots 0).toModel.unpack = .zero .positive ∧
      (share Float shots 0 * Chance.ofCount shots).toModel.unpack = .zero .positive := by
  obtain ⟨m, e, normal, unpacked, -⟩ := hasValue_toFloat pos (by omega : shots < 2 ^ 53)
  have none : (Chance.ofCount 0 : Float).toModel.unpack = .zero .positive := rfl
  have some : (Chance.ofCount shots : Float).toModel.unpack = _ := unpacked
  have ratio : (share Float shots 0).toModel.unpack = .zero .positive := by
    change (Float.Model.pack (UnpackedFloat.div .binary64 _ _)).unpack = _
    rw [none, some]
    exact unpack_pack_zero .positive
  refine ⟨ratio, ?_⟩
  change (Float.Model.pack (UnpackedFloat.mul .binary64 _ _)).unpack = _
  rw [ratio, some]
  exact unpack_pack_zero .positive

theorem valueOf_ofCount (small : n < 2 ^ 32) : valueOf (Chance.ofCount n) = n := by
  rcases Nat.eq_zero_or_pos n with rfl | pos
  · rfl
  · exact (hasValue_toFloat pos (by omega)).valueOf_eq

/-- The two roundings of a share, and the whole part that is taken in the end. -/
theorem valueOf_share (le : n ≤ shots) (pos : 0 < shots) (small : shots < 2 ^ 32) :
    CloseTo (valueOf (share Float shots n)) (n / shots) ∧
      CloseTo (valueOf (share Float shots n * Chance.ofCount shots))
        (valueOf (share Float shots n) * shots) ∧
      Chance.wholePart (share Float shots n * Chance.ofCount shots) =
        ⌊valueOf (share Float shots n * Chance.ofCount shots)⌋₊ := by
  rcases Nat.eq_zero_or_pos n with rfl | some
  · obtain ⟨ratio, product⟩ := unpack_product_zero pos small
    have ratio_value : valueOf (share Float shots 0) = 0 := by rw [valueOf, ratio]
    have product_value : valueOf (share Float shots 0 * Chance.ofCount shots) = 0 := by
      rw [valueOf, product]
    have whole : Chance.wholePart (share Float shots 0 * Chance.ofCount shots) = 0 := by
      change (UnpackedFloat.toUInt64 (Float.toModel _).unpack).toNat = 0
      rw [product]
      rfl
    rw [ratio_value, product_value, whole]
    simp [CloseTo]
  · obtain ⟨w, p, ratio, product, close, close', fits, -⟩ := exists_hasValue_product some le small
    rw [ratio.valueOf_eq, product.valueOf_eq]
    exact ⟨close, close', toNat_toUInt64 product fits⟩

def shareRounding : ShareRounding Float where
  value := valueOf
  value_ofCount n small := valueOf_ofCount small
  closeTo_ratio le pos small := by
    rw [valueOf_ofCount small, valueOf_ofCount (by omega)]
    exact (valueOf_share le pos small).1
  closeTo_mul le pos small := by
    rw [valueOf_ofCount small]
    exact (valueOf_share le pos small).2.1
  wholePart_eq le pos small := (valueOf_share le pos small).2.2

-- The two roundings can take a shot away: 1 / 49 * 49 is less than one.
example : requantized Float 49 1 = 0 := by decide +kernel

end Share

end CircuitBench.Binary64
