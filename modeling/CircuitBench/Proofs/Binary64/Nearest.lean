import CircuitBench.Proofs.Binary64.Shares
import Mathlib

/-!
# Rounding over the whole range

Every finite number that is unpacked has all 53 bits of its significand, or else the least of all
exponents, and then its exponent and significand are determined by its value. A rounded result
is such a number too, a subnormal one included. It is the nearest multiple of the unit in its last
place, so rounding does not cross a number of this form: what is at least that number is rounded to
one that is at least that number.
-/

namespace CircuitBench.Binary64

open Float.Model UnpackedFloat

/-- The significand has 53 bits, or fewer at the least exponent. -/
structure IsCanonical (significand : Nat) (exponent : Int) : Prop where
  high : significand < 2 ^ 53
  least : -1074 ≤ exponent
  full : 2 ^ 52 ≤ significand ∨ exponent = -1074

section Unpacked

variable {s t : Sign} {m : Nat} {e : Int} {pos : 0 < m}

theorem isCanonical_of_fields {exponent : BitVec 11} {fraction : BitVec 52}
    (h : UnpackedFloat.unpack .binary64 (packComponents .binary64 s exponent fraction) =
      .finite t m e pos) : IsCanonical m e := by
  by_cases ones : exponent = -1#11
  · rw [UnpackedFloat.unpack] at h
    simp only [unpackExponent_packComponents] at h
    rw [if_pos ones] at h
    split at h <;> cases h
  by_cases zero : exponent = 0#11
  · subst zero
    by_cases empty : fraction = 0#52
    · subst empty
      cases s <;> cases h
    · have some_bits : 0 < fraction.toNat := Nat.pos_of_ne_zero fun none =>
        empty (BitVec.eq_of_toNat_eq none)
      rw [unpack_subnormal s fraction empty some_bits] at h
      cases h
      exact ⟨by have := fraction.isLt; omega, le_rfl, .inr rfl⟩
  · have low : exponent.toNat ≠ 0 := fun none => zero (BitVec.eq_of_toNat_eq none)
    rw [unpack_normal s exponent fraction zero ones] at h
    cases h
    have := fraction.isLt
    exact ⟨by omega, by omega, .inl (by omega)⟩

theorem isCanonical_of_unpack {x : Float} (h : x.toModel.unpack = .finite s m e pos) :
    IsCanonical m e := by
  change UnpackedFloat.unpack .binary64 x.toModel.toBits.toBitVec = _ at h
  rw [← packComponents_fields x.toModel.toBits.toBitVec] at h
  exact isCanonical_of_fields h

/-- A number of this form is unpacked as it was packed, unless it is too large. -/
theorem unpack_pack_canonical (s : Sign) {m : Nat} {e : Int} (pos : 0 < m)
    (canonical : IsCanonical m e) :
    (Float.Model.pack (.finite s m e pos)).unpack =
      if e ≤ 971 then .finite s m e pos else .infinity s := by
  obtain ⟨high, least, full⟩ := canonical
  split_ifs with small
  · rcases Nat.lt_or_ge m (2 ^ 52) with short | long
    · obtain rfl : e = -1074 := full.resolve_left (by omega)
      have field : (BitVec.ofNat 52 m).toNat = m := by
        rw [BitVec.toNat_ofNat, Nat.mod_eq_of_lt short]
      change UnpackedFloat.unpack .binary64 (UnpackedFloat.pack .binary64 _) = _
      rw [pack_subnormal s pos short, unpack_subnormal]
      · simp only [field]
      · intro none
        rw [none] at field
        exact pos.ne field
      · omega
    · exact unpack_pack_normal s ⟨long, high, least, small⟩
  · have overflow : UnpackedFloat.pack .binary64 (.finite s m e pos) =
        packedInfinity .binary64 s := by
      simp only [UnpackedFloat.pack]
      rw [if_pos]
      change 2048 ≤ (e + 1023 + 52).toNat + 1
      omega
    change UnpackedFloat.unpack .binary64 (UnpackedFloat.pack .binary64 _) = _
    rw [overflow]
    cases s <;> rfl

end Unpacked

/-- The one bit too many that a rounded significand can have is shifted out. -/
theorem shiftToTargetExponent_canonical {k : Nat} {e : Int} (pos : 0 < k) (high : k ≤ 2 ^ 53)
    (least : -1074 ≤ e) (full : 2 ^ 52 ≤ k ∨ e = -1074) :
    let shifted := shiftToTargetExponent .binary64 k e .exact
    0 < shifted.1.mantissa ∧ IsCanonical shifted.1.mantissa shifted.2 ∧
      (k < 2 ^ 53 ∧ shifted.1.mantissa = k ∧ shifted.2 = e ∨
        k = 2 ^ 53 ∧ shifted.1.mantissa = 2 ^ 52 ∧ shifted.2 = e + 1) := by
  intro shifted
  rcases Nat.lt_or_eq_of_le high with fits | rfl
  · have log : k.log2 ≤ 52 := Nat.le_of_lt_succ ((Nat.log2_lt pos.ne').mpr fits)
    have target : (Format.binary64.targetExponent (totalExponent k e) - e).toNat = 0 := by
      change (max ((k.log2 : Int) + 1 + e - 53) (-1074) - e).toNat = 0
      omega
    have same : shifted = (⟨k, false, false⟩, e + 0) := by
      simp only [shifted, shiftToTargetExponent, shiftToExponent, target]
      rfl
    rw [same, Int.add_zero]
    exact ⟨pos, ⟨fits, least, full⟩, .inl ⟨fits, rfl, rfl⟩⟩
  · have log : (2 ^ 53 : ℕ).log2 = 52 + 1 := Nat.log2_two_pow
    have halved : shifted = (⟨2 ^ 52, false, false⟩, e + 1) :=
      shiftToTargetExponent_eq .exact log (by omega)
    rw [halved]
    refine ⟨Nat.two_pow_pos 52, ⟨?_, by omega, .inl le_rfl⟩, .inr ⟨rfl, rfl, rfl⟩⟩
    exact Nat.pow_lt_pow_right (by decide) (by decide)

theorem value_shiftToTargetExponent {k : Nat} {e : Int} (pos : 0 < k) (high : k ≤ 2 ^ 53)
    (least : -1074 ≤ e) (full : 2 ^ 52 ≤ k ∨ e = -1074) :
    let shifted := shiftToTargetExponent .binary64 k e .exact
    (shifted.1.mantissa : ℚ) * 2 ^ shifted.2 = k * 2 ^ e := by
  intro shifted
  rcases (shiftToTargetExponent_canonical pos high least full).2.2 with
    ⟨-, units, place⟩ | ⟨rfl, units, place⟩
  · rw [units, place]
  · rw [units, place, zpow_add_one₀ two_ne_zero]
    push_cast
    ring

theorem IsNormal.isCanonical {m : Nat} {e : Int} (h : IsNormal m e) : IsCanonical m e :=
  ⟨h.high, h.least, .inl h.low⟩

theorem log2_shiftLeft {m : Nat} (some_bits : m ≠ 0) (n : Nat) :
    (m <<< n).log2 = m.log2 + n := by
  rw [Nat.shiftLeft_eq, Nat.log2_eq_iff (by positivity), pow_add, Nat.add_right_comm, pow_add]
  exact ⟨Nat.mul_le_mul_right _ (Nat.log2_self_le some_bits),
    Nat.mul_lt_mul_of_pos_right Nat.lt_log2_self (by positivity)⟩

theorem two_zpow_eq {e F : Int} {n : Nat} (h : e = F + n) : (2 : ℚ) ^ e = 2 ^ F * 2 ^ n := by
  rw [h, zpow_add₀ two_ne_zero, zpow_natCast]

theorem natCast_two_pow_mul (places : Nat) (E : Int) :
    ((2 ^ places : ℕ) : ℚ) * 2 ^ E = 2 ^ (places + E) := by
  rw [zpow_add₀ two_ne_zero, zpow_natCast, Nat.cast_pow, Nat.cast_ofNat]

/-- The binary logarithm brackets a number in units of a power. -/
theorem pow_log2_bounds {M : Nat} (some_bits : M ≠ 0) (E : Int) :
    (2 : ℚ) ^ (M.log2 + E) ≤ M * 2 ^ E ∧ M * 2 ^ E < (2 : ℚ) ^ (M.log2 + 1 + E) := by
  have low : ((2 ^ M.log2 : ℕ) : ℚ) ≤ M := by exact_mod_cast Nat.log2_self_le some_bits
  have high : (M : ℚ) < (2 ^ (M.log2 + 1) : ℕ) := by exact_mod_cast Nat.lt_log2_self
  have unit : (0 : ℚ) < 2 ^ E := zpow_pos two_pos E
  constructor
  · rw [← natCast_two_pow_mul]
    exact mul_le_mul_of_nonneg_right low unit.le
  · rw [← Nat.cast_add_one, ← natCast_two_pow_mul]
    exact mul_lt_mul_of_pos_right high unit

/-- The exact result `M * 2 ^ E` is rounded to `k` units of the last place, which is at the
exponent `T`. The unit is the one that leaves 53 bits, but not smaller than the least. -/
structure RoundsTo (M : Nat) (E : Int) (k : Nat) (T : Int) : Prop where
  place : T = max ((M.log2 : Int) + E - 52) (-1074)
  nearest : |(k : ℚ) * 2 ^ T - M * 2 ^ E| ≤ 2 ^ T / 2
  round : ∀ s : Sign, UnpackedFloat.round .binary64 s M E =
    if none : (shiftToTargetExponent .binary64 k T .exact).1.mantissa = 0 then .zero s
    else .finite s (shiftToTargetExponent .binary64 k T .exact).1.mantissa
      (shiftToTargetExponent .binary64 k T .exact).2 (Nat.pos_of_ne_zero none)

/-- The units that are rounded to are the whole number nearest to the exact result. -/
theorem roundsTo_nearestEven {M : Nat} (some_bits : M ≠ 0) {E T : Int}
    (place : T = max ((M.log2 : Int) + E - 52) (-1074)) :
    RoundsTo M E (nearestEven (M * 2 ^ E / 2 ^ T)) T := by
  obtain ⟨N, shiftedLeft⟩ : ∃ N, N = M <<< (E - T).toNat := ⟨_, rfl⟩
  obtain ⟨F, lowered⟩ : ∃ F, F = E - (E - T).toNat := ⟨_, rfl⟩
  obtain ⟨em, shiftedRight⟩ : ∃ em, em =
    ExtendedMantissa.ofMantissaAndAccuracy N .exact >>> (T - F).toNat := ⟨_, rfl⟩
  have located : Locates em (N / 2 ^ (T - F).toNat) :=
    shiftedRight ▸ (locates_exact N).shiftRight (T - F).toNat
  have unit : (0 : ℚ) < 2 ^ T := zpow_pos two_pos T
  -- One of the two shifts is by no bits at all.
  have value : (N : ℚ) / 2 ^ (T - F).toNat = M * 2 ^ E / 2 ^ T := by
    have right : (2 : ℚ) ^ T = 2 ^ F * 2 ^ (T - F).toNat := two_zpow_eq (by omega)
    have left : (2 : ℚ) ^ E = 2 ^ F * 2 ^ (E - T).toNat := two_zpow_eq (by omega)
    rw [right, left, shiftedLeft, Nat.shiftLeft_eq]
    push_cast
    field_simp
  rw [value] at located
  rw [← located.roundedMantissa_eq]
  refine ⟨place, ?_, ?_⟩
  · have rounded := mul_le_mul_of_nonneg_right located.abs_rounded_sub_le unit.le
    rw [← abs_of_pos unit, ← abs_mul, abs_of_pos unit, sub_mul, div_mul_cancel₀ _ unit.ne']
      at rounded
    linarith
  · intro s
    have log : N.log2 = M.log2 + (E - T).toNat := by
      rw [shiftedLeft, log2_shiftLeft some_bits]
    have decreased : Format.binary64.targetExponent (totalExponent M E) = T := by
      change max ((M.log2 : Int) + 1 + E - 53) (-1074) = T
      omega
    have kept : Format.binary64.targetExponent (totalExponent N F) = T := by
      change max ((N.log2 : Int) + 1 + F - 53) (-1074) = T
      omega
    have first : shiftToTargetExponent .binary64 N F .exact = (em, T) := by
      rw [shiftToTargetExponent, shiftToExponent, kept, ← shiftedRight]
      congr 1
      omega
    simp only [UnpackedFloat.round, decreaseExponent, decreased, ← shiftedLeft, ← lowered,
      roundWithAccuracy, first]

theorem exists_roundsTo {M : Nat} (some_bits : M ≠ 0) (E : Int) : ∃ k T, RoundsTo M E k T :=
  ⟨_, _, roundsTo_nearestEven some_bits rfl⟩

namespace RoundsTo

variable {M k j : Nat} {E T : Int}

/-- A multiple of the unit that is reached is reached after rounding. -/
theorem le_units (h : RoundsTo M E k T) (reached : (j : ℚ) * 2 ^ T ≤ M * 2 ^ E) : j ≤ k := by
  have unit : (0 : ℚ) < 2 ^ T := zpow_pos two_pos T
  obtain ⟨below, -⟩ := abs_le.mp h.nearest
  by_contra less
  have short : (k : ℚ) + 1 ≤ j := by exact_mod_cast Nat.lt_of_not_le less
  have scaled := mul_le_mul_of_nonneg_right short unit.le
  linarith

/-- Half a unit in front of a multiple, rounding does not go beyond it. -/
theorem units_le (h : RoundsTo M E k T) (missed : (M : ℚ) * 2 ^ E < (j + 1 / 2) * 2 ^ T) :
    k ≤ j := by
  have unit : (0 : ℚ) < 2 ^ T := zpow_pos two_pos T
  obtain ⟨-, above⟩ := abs_le.mp h.nearest
  by_contra more
  have long : (j : ℚ) + 1 ≤ k := by exact_mod_cast Nat.lt_of_not_le more
  have scaled := mul_le_mul_of_nonneg_right long unit.le
  linarith

theorem units_le_pow (h : RoundsTo M E k T) (some_bits : M ≠ 0) : k ≤ 2 ^ 53 := by
  have place := h.place
  refine h.units_le (lt_trans (pow_log2_bounds some_bits E).2 ?_)
  calc (2 : ℚ) ^ (M.log2 + 1 + E) ≤ 2 ^ (((53 : ℕ) : ℤ) + T) :=
        zpow_le_zpow_right₀ one_le_two (by omega)
    _ = (2 ^ 53 : ℕ) * 2 ^ T := (natCast_two_pow_mul 53 T).symm
    _ < ((2 ^ 53 : ℕ) + 1 / 2) * 2 ^ T := by
      have unit : (0 : ℚ) < 2 ^ T := zpow_pos two_pos T
      linarith

theorem pow_le_units (h : RoundsTo M E k T) (some_bits : M ≠ 0) : 2 ^ 52 ≤ k ∨ T = -1074 := by
  have place := h.place
  rcases eq_or_ne T (-1074) with subnormal | normal
  · exact .inr subnormal
  · refine .inl (h.le_units (le_trans ?_ (pow_log2_bounds some_bits E).1))
    rw [natCast_two_pow_mul]
    exact zpow_le_zpow_right₀ one_le_two (by omega)

theorem le_exponent (h : RoundsTo M E k T) (some_bits : M ≠ 0) {m : Nat} {e : Int}
    (canonical : IsCanonical m e) (low : (m : ℚ) * 2 ^ e ≤ M * 2 ^ E) : e ≤ T := by
  have place := h.place
  rcases canonical.full with long | rfl
  · have long : (2 : ℚ) ^ 52 ≤ m := by exact_mod_cast long
    have bits : (2 : ℚ) ^ (52 + e) < 2 ^ (M.log2 + 1 + E) := by
      refine lt_of_le_of_lt (le_trans ?_ low) (pow_log2_bounds some_bits E).2
      rw [zpow_add₀ two_ne_zero]
      exact mul_le_mul_of_nonneg_right (by exact_mod_cast long) (zpow_pos two_pos e).le
    have := (zpow_lt_zpow_iff_right₀ one_lt_two).mp bits
    omega
  · omega

end RoundsTo

/-- A number that is at least a canonical one is rounded to one that is. -/
theorem exists_round_of_le {m M : Nat} {e E : Int} (pos : 0 < m) (canonical : IsCanonical m e)
    (low : (m : ℚ) * 2 ^ e ≤ M * 2 ^ E) :
    ∃ (k : Nat) (c : Int) (some : 0 < k),
      UnpackedFloat.round .binary64 .positive M E = .finite .positive k c some ∧
      IsCanonical k c ∧ (e < c ∨ e = c ∧ m ≤ k) := by
  have some_bits : M ≠ 0 := by
    rintro rfl
    have above : (0 : ℚ) < m * 2 ^ e := by positivity
    rw [Nat.cast_zero, zero_mul] at low
    exact absurd low (not_le.mpr above)
  obtain ⟨k, T, rounds⟩ := exists_roundsTo some_bits E
  have place := rounds.place
  have high := rounds.units_le_pow some_bits
  have full := rounds.pow_le_units some_bits
  have reached : e < T ∨ e = T ∧ m ≤ k := by
    rcases (rounds.le_exponent some_bits canonical low).lt_or_eq with less | rfl
    · exact .inl less
    · exact .inr ⟨rfl, rounds.le_units low⟩
  have some_units : 0 < k := by
    have := canonical.least
    omega
  obtain ⟨some, final, kept⟩ := shiftToTargetExponent_canonical some_units high (by omega) full
  refine ⟨_, _, some, ?_, final, by have := canonical.high; omega⟩
  rw [rounds.round, dif_neg some.ne']

end CircuitBench.Binary64
