import CircuitBench.Proofs.Binary64.EvenRounding
import CircuitBench.Proofs.Binary64.Sums
import Mathlib

/-!
# Draws in binary64

A random word is drawn as a fraction below one, and the fraction is multiplied by the total. The
product is rounded, but it stays below the total: a fraction below one misses one by at least a
part in `2 ^ 53`, and such a part of the total is more than half a unit in the last place of
anything below the total. Only the smallest normal number and the subnormal ones have too large
units for that.
-/

namespace CircuitBench.Binary64

open Float.Model UnpackedFloat Sampling

theorem mantissa_shiftToTargetExponent_zero (T : Int) :
    (shiftToTargetExponent .binary64 0 T .exact).1.mantissa = 0 := by
  rw [shiftToTargetExponent, shiftToExponent]
  generalize (Format.binary64.targetExponent (totalExponent 0 T) - T).toNat = places
  have low := ((locates_exact 0).shiftRight places).bounds.1
  rw [Nat.cast_zero, zero_div] at low
  exact_mod_cast low.antisymm (Nat.cast_nonneg _)

/-- Numbers in their canonical form are compared by exponent first. -/
theorem IsCanonical.less_of_value {k m : Nat} {c e : Int} (here : IsCanonical k c)
    (there : IsCanonical m e) (less : (k : ℚ) * 2 ^ c < m * 2 ^ e) : c < e ∨ c = e ∧ k < m := by
  rcases lt_trichotomy c e with lower | rfl | higher
  · exact .inl lower
  · refine .inr ⟨rfl, ?_⟩
    exact_mod_cast lt_of_mul_lt_mul_right less (zpow_pos two_pos c).le
  · have long : (2 : ℚ) ^ 52 ≤ k := by
      exact_mod_cast here.full.resolve_right (by have := there.least; omega)
    have short : (m : ℚ) < 2 ^ 53 := by exact_mod_cast there.high
    have next : (2 : ℚ) * 2 ^ e ≤ 2 ^ c := by
      rw [← zpow_one_add₀ two_ne_zero]
      exact zpow_le_zpow_right₀ one_le_two (by omega)
    have unit : (0 : ℚ) < 2 ^ e := zpow_pos two_pos e
    nlinarith

/-- What falls short of a number above the smallest normal one by a part in `2 ^ 53` is rounded to
less: the part is more than half a unit in the last place. -/
theorem RoundsTo.short_of_part {M k : Nat} {E T : Int} {total : ℚ} (rounds : RoundsTo M E k T)
    (some_bits : M ≠ 0) (above : 2 ^ (-1022 : ℤ) < total)
    (part : (M : ℚ) * 2 ^ E ≤ (1 - 1 / 2 ^ 53) * total) : (k : ℚ) * 2 ^ T < total := by
  have positive : 0 < total := lt_trans (zpow_pos two_pos _) above
  have unit : (2 : ℚ) ^ T * 2 ^ 52 < total := by
    have scaled : (2 : ℚ) ^ T * 2 ^ 52 = 2 ^ (T + 52) := (two_zpow_eq rfl).symm
    rw [scaled, rounds.place]
    rcases le_total (-1074) ((M.log2 : Int) + E - 52) with normal | subnormal
    · rw [max_eq_left normal, sub_add_cancel]
      have log := (pow_log2_bounds some_bits E).1
      linarith
    · rw [max_eq_right subnormal]
      exact above
  have near := (abs_le.mp rounds.nearest).2
  linarith

/-- What falls short of a number above the smallest normal one by a part in `2 ^ 53` is still short
of it when it is rounded. -/
theorem exists_round_of_part {m M : Nat} {e E : Int} (some_bits : M ≠ 0)
    (canonical : IsCanonical m e) (above : (2 : ℚ) ^ (-1022 : ℤ) < m * 2 ^ e)
    (part : (M : ℚ) * 2 ^ E ≤ (1 - 1 / 2 ^ 53) * (m * 2 ^ e)) :
    UnpackedFloat.round .binary64 .positive M E = .zero .positive ∨
      ∃ (k : Nat) (c : Int) (some : 0 < k),
        UnpackedFloat.round .binary64 .positive M E = .finite .positive k c some ∧
        IsCanonical k c ∧ (c < e ∨ c = e ∧ k < m) := by
  obtain ⟨k, T, rounds⟩ := exists_roundsTo some_bits E
  have place := rounds.place
  have short := rounds.short_of_part some_bits above part
  by_cases none : (shiftToTargetExponent .binary64 k T .exact).1.mantissa = 0
  · refine .inl ?_
    rw [rounds.round, dif_pos none]
  · have some_units : 0 < k := by
      refine Nat.pos_of_ne_zero fun empty => none ?_
      rw [empty, mantissa_shiftToTargetExponent_zero]
    obtain ⟨some, final, kept⟩ := shiftToTargetExponent_canonical some_units
      (rounds.units_le_pow some_bits) (by omega) (rounds.pow_le_units some_bits)
    refine .inr ⟨_, _, some, ?_, final, final.less_of_value canonical ?_⟩
    · rw [rounds.round, dif_neg none]
    · rwa [value_shiftToTargetExponent some_units (rounds.units_le_pow some_bits) (by omega)
        (rounds.pow_le_units some_bits)]

/-- The unit of the fractions that are drawn. -/
theorem hasValue_drawUnit : HasValue (Float.ofBits 0x3ca0000000000000) (1 / 2 ^ 53) :=
  ⟨2 ^ 52, -105, ⟨le_rfl, by decide, by decide, by decide⟩, rfl, by norm_num⟩

/-- The upper 53 bits of a word, which it draws a fraction with. -/
theorem toNat_shiftRight_lt (word : UInt64) : (word >>> 11).toNat < 2 ^ 53 := by
  have := word.toNat_lt
  rw [UInt64.toNat_shiftRight]
  change word.toNat >>> 11 < 2 ^ 53
  rw [Nat.shiftRight_eq_div_pow]
  omega

theorem draw_eq (word : UInt64) :
    (Chance.draw word : Float) =
      (UInt64.ofNat (word >>> 11).toNat).toFloat * Float.ofBits 0x3ca0000000000000 := by
  rw [UInt64.ofNat_toNat]
  rfl

/-- A word draws the exact fraction. -/
theorem hasValue_draw {word : UInt64} (some_bits : (word >>> 11).toNat ≠ 0) :
    HasValue (Chance.draw word : Float) ((word >>> 11).toNat / 2 ^ 53) := by
  have small := toNat_shiftRight_lt word
  rw [draw_eq]
  generalize (word >>> 11).toNat = n at some_bits small
  have pos := Nat.pos_of_ne_zero some_bits
  have one : (1 : ℚ) ≤ n := by exact_mod_cast pos
  have most : (n : ℚ) < 2 ^ 53 := by exact_mod_cast small
  have power : (n : ℚ) * (1 / 2 ^ 53) = n * 2 ^ (-53 : ℤ) := by norm_num
  have exact : roundedToBits 53 ((n : ℚ) * (1 / 2 ^ 53)) = n / 2 ^ 53 := by
    rw [power, roundedToBits_of_short pos small]
    norm_num
    ring
  rw [← exact]
  refine hasValue_mul (hasValue_toFloat pos small) hasValue_drawUnit ?_ ?_
  · calc (2 : ℚ) ^ (-1022 : ℤ) ≤ 2 ^ (-53 : ℤ) := zpow_le_zpow_right₀ one_le_two (by decide)
      _ ≤ n * 2 ^ (-53 : ℤ) := le_mul_of_one_le_left (zpow_pos two_pos _).le one
      _ = n * (1 / 2 ^ 53) := power.symm
  · rw [exact]
    calc (n : ℚ) / 2 ^ 53 < 2 ^ (0 : ℤ) := by rw [div_lt_iff₀ (by positivity)]; simpa using most
      _ ≤ 2 ^ (1024 : ℤ) := zpow_le_zpow_right₀ one_le_two (by decide)

theorem unpack_draw_zero {word : UInt64} (none : (word >>> 11).toNat = 0) :
    (Chance.draw word : Float).toModel.unpack = .zero .positive := by
  have zero : (UInt64.ofNat 0).toFloat.toModel.unpack = .zero .positive := rfl
  rw [draw_eq, none]
  change (Float.Model.pack (UnpackedFloat.mul .binary64 _ _)).unpack = _
  rw [zero]
  exact unpack_pack_zero .positive

/-- What a word draws, if it is not zero, misses one by at least a part in `2 ^ 53`. -/
theorem unpack_draw {word : UInt64} (some_bits : (word >>> 11).toNat ≠ 0) :
    ∃ (d : Nat) (f : Int) (normal : IsNormal d f),
      (Chance.draw word : Float).toModel.unpack = .finite .positive d f normal.pos ∧
      (d : ℚ) * 2 ^ f ≤ 1 - 1 / 2 ^ 53 := by
  obtain ⟨d, f, normal, unpacked, value⟩ := hasValue_draw some_bits
  have most : ((word >>> 11).toNat : ℚ) + 1 ≤ 2 ^ 53 := by
    exact_mod_cast toNat_shiftRight_lt word
  refine ⟨d, f, normal, unpacked, ?_⟩
  rw [value, div_le_iff₀ (by positivity)]
  linarith

theorem exponent_le_of_unpack {x : Float} {s : Sign} {m : Nat} {e : Int} {pos : 0 < m}
    (h : x.toModel.unpack = .finite s m e pos) : e ≤ 971 := by
  have kept : (Float.Model.pack x.toModel.unpack).unpack = x.toModel.unpack := by rw [pack_unpack]
  by_contra large
  rw [h, unpack_pack_canonical s pos (isCanonical_of_unpack h), if_neg large] at kept
  cases kept

/-- A finite number from twice the smallest normal one on has 53 bits and more than the least
exponent. -/
theorem exists_normal_of_atMost {x : Float} (finite : IsFinite x)
    (above : Chance.atMost (Float.ofBits 0x0020000000000000) x = true) :
    ∃ (m : Nat) (e : Int) (normal : IsNormal m e),
      x.toModel.unpack = .finite .positive m e normal.pos ∧ -1074 < e := by
  have low := atMost_iff.mp above
  change UnpackedFloat.le (.finite .positive (2 ^ 52) (-1073) (by decide)) _ = true at low
  obtain ⟨s, unpacked⟩ | ⟨s, m, e, pos, unpacked⟩ := unpack_of_isFinite finite
  · rw [unpacked] at low
    cases low
  · rw [unpacked] at low
    cases s
    · cases low
    · have order := isLE_then_compare.mp low
      obtain ⟨high, least, full⟩ := isCanonical_of_unpack unpacked
      have low : 2 ^ 52 ≤ m := full.resolve_right (by omega)
      exact ⟨m, e, ⟨low, high, least, exponent_le_of_unpack unpacked⟩, unpacked, by omega⟩

variable {probabilities : Array Float}

/-- If the total of the probabilities is above the smallest normal number, every word draws a number
from zero up to the total. A word that draws zero does so also if the total is that number. -/
theorem drawnWithin_of_hasValue {total : ℚ}
    (value : HasValue (runningSum probabilities probabilities.size) total) {word : UInt64}
    (above : (word >>> 11).toNat = 0 ∨ 2 ^ (-1022 : ℤ) < total) :
    DrawnWithin probabilities word := by
  obtain ⟨m, e, normal, at_total, rfl⟩ := value
  rw [DrawnWithin]
  generalize runningSum probabilities probabilities.size = total at at_total ⊢
  rw [← Bool.not_eq_true, atMost_iff, atMost_iff, at_total]
  change UnpackedFloat.le (.zero .positive)
      (Float.Model.pack (UnpackedFloat.mul .binary64 _ total.toModel.unpack)).unpack = true ∧
    ¬UnpackedFloat.le (.finite .positive m e normal.pos)
      (Float.Model.pack (UnpackedFloat.mul .binary64 _ total.toModel.unpack)).unpack = true
  rw [at_total]
  have zero_below : UnpackedFloat.le (.zero .positive) (.zero .positive) = true ∧
      ¬UnpackedFloat.le (.finite .positive m e normal.pos) (.zero .positive) = true :=
    ⟨rfl, Bool.false_ne_true⟩
  by_cases none : (word >>> 11).toNat = 0
  · rw [unpack_draw_zero none]
    exact unpack_pack_zero .positive ▸ zero_below
  · obtain ⟨d, f, normal', at_word, short⟩ := unpack_draw none
    rw [at_word, mul_positive normal' normal]
    have part : ((d * m : ℕ) : ℚ) * 2 ^ (f + e) ≤ (1 - 1 / 2 ^ 53) * (m * 2 ^ e) := by
      calc ((d * m : ℕ) : ℚ) * 2 ^ (f + e) = d * 2 ^ f * (m * 2 ^ e) := by
            rw [zpow_add₀ two_ne_zero]
            push_cast
            ring
        _ ≤ (1 - 1 / 2 ^ 53) * (m * 2 ^ e) := by gcongr
    have some_bits : d * m ≠ 0 := (Nat.mul_pos normal'.pos normal.pos).ne'
    rcases exists_round_of_part some_bits normal.isCanonical (above.resolve_left none) part with
      zero | ⟨k, c, some, rounded, canonical, less⟩
    · rw [zero]
      exact unpack_pack_zero .positive ▸ zero_below
    · have small : c ≤ 971 := by
        have := normal.most
        omega
      rw [rounded, unpack_pack_canonical .positive some canonical, if_pos small]
      refine ⟨rfl, fun most => ?_⟩
      have := isLE_then_compare.mp most
      omega

/-- If the total of the probabilities is finite and at least twice the smallest normal number, every
word draws a number from zero up to the total. -/
theorem drawnWithin
    (finite : IsFinite (runningSum probabilities probabilities.size))
    (normal : Chance.atMost (Float.ofBits 0x0020000000000000)
      (runningSum probabilities probabilities.size) = true) (word : UInt64) :
    DrawnWithin probabilities word := by
  obtain ⟨m, e, normal, at_total, above⟩ := exists_normal_of_atMost finite normal
  refine drawnWithin_of_hasValue ⟨m, e, normal, at_total, rfl⟩ (.inr ?_)
  have wide : (2 : ℚ) ^ 52 ≤ m := by exact_mod_cast normal.low
  calc (2 : ℚ) ^ (-1022 : ℤ) < 2 ^ (52 + e) := zpow_lt_zpow_right₀ one_lt_two (by omega)
    _ = 2 ^ 52 * 2 ^ e := zpow_add₀ two_ne_zero _ _
    _ ≤ m * 2 ^ e := mul_le_mul_of_nonneg_right wide (zpow_pos two_pos e).le

-- Of the smallest normal number nothing is missed: almost all of it is rounded to all of it.
example : ¬DrawnWithin #[Float.ofBits 0x0010000000000000, 0] 0xffffffffffffffff := by
  decide +kernel

end CircuitBench.Binary64
