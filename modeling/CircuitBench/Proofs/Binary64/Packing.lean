import CircuitBench.Power
import Mathlib

/-!
# The bits of a binary64

A binary64 is a sign, eleven bits of exponent and 52 bits of fraction. What is unpacked from
the bits is packed into the same bits again, because the only bits that could get lost are those
of a NaN, and there is only one NaN. The other way round, zeros and normal numbers are unpacked
as they were packed.
-/

namespace CircuitBench.Binary64

open Float.Model UnpackedFloat

/-- The significand has exactly 53 bits, and the exponent is in range. -/
structure IsNormal (significand : Nat) (exponent : Int) : Prop where
  low : 2 ^ 52 ≤ significand
  high : significand < 2 ^ 53
  least : -1074 ≤ exponent
  most : exponent ≤ 971

theorem IsNormal.pos {significand : Nat} {exponent : Int} (h : IsNormal significand exponent) :
    0 < significand :=
  Nat.lt_of_lt_of_le (by decide) h.low

section Fields

variable (s : Sign) (exponent : BitVec 11) (fraction : BitVec 52)

@[simp] theorem sign_packComponents :
    Sign.ofBitVec (unpackSign (packComponents .binary64 s exponent fraction)) = s := by
  have field : unpackSign (packComponents .binary64 s exponent fraction) = s.toBitVec := by
    simp only [unpackSign, packComponents, BitVec.extractLsb]
    ext i hi
    grind
  rw [field]
  cases s <;> rfl

/-- The bits are put together again from their three fields. -/
theorem packComponents_fields (b : BitVec Format.binary64.numBits) :
    packComponents .binary64 (Sign.ofBitVec (unpackSign b)) (unpackExponent b)
      (unpackMantissa b) = b := by
  have sign : (Sign.ofBitVec (unpackSign b)).toBitVec = unpackSign b := by
    generalize unpackSign b = field
    revert field
    decide
  rw [packComponents, sign]
  simp only [unpackSign, unpackExponent, unpackMantissa, BitVec.extractLsb]
  ext i hi
  grind

theorem toNat_implicit_append : (1#1 ++ fraction).toNat = 2 ^ 52 + fraction.toNat := by
  rw [BitVec.toNat_append, ← Nat.shiftLeft_add_eq_or_of_lt fraction.isLt]
  rfl

/-- The number of a normal exponent has the bit in front of its fraction. -/
theorem unpack_normal (some_exponent : exponent ≠ 0#11) (finite : exponent ≠ -1#11) :
    UnpackedFloat.unpack .binary64 (packComponents .binary64 s exponent fraction) =
      .finite s (2 ^ 52 + fraction.toNat) (exponent.toNat - 1075) (by omega) := by
  rw [UnpackedFloat.unpack]
  simp only [unpackExponent_packComponents, unpackMantissa_packComponents, sign_packComponents]
  rw [if_neg finite, if_neg some_exponent]
  simp only [toNat_implicit_append]
  rfl

theorem unpack_subnormal (some_fraction : fraction ≠ 0#52) (pos : 0 < fraction.toNat) :
    UnpackedFloat.unpack .binary64 (packComponents .binary64 s 0#11 fraction) =
      .finite s fraction.toNat (-1074) pos := by
  rw [UnpackedFloat.unpack]
  simp only [unpackExponent_packComponents, unpackMantissa_packComponents, sign_packComponents]
  rw [if_neg (by decide), if_pos trivial, dif_neg some_fraction]
  rfl

end Fields

section Pack

variable (s : Sign) {exponent fraction : Nat}

theorem log2_normal (h : fraction < 2 ^ 52) : (2 ^ 52 + fraction).log2 = 52 := by
  refine (Nat.log2_eq_iff (by omega)).mpr ⟨by omega, by omega⟩

theorem pack_normal (h : fraction < 2 ^ 52) (low : 1 ≤ exponent) (high : exponent ≤ 2046) :
    UnpackedFloat.pack .binary64 (.finite s (2 ^ 52 + fraction) (exponent - 1075) (by omega)) =
      packComponents .binary64 s (BitVec.ofNat 11 exponent) (BitVec.ofNat 52 fraction) := by
  have biased : ((exponent : Int) - 1075 + Format.binary64.exponentBias +
      Format.binary64.mantissaBitsWithoutImplicit).toNat = exponent := by
    change ((exponent : Int) - 1075 + 1023 + 52).toNat = exponent
    omega
  have implicit : BitVec.ofNat 52 (2 ^ 52 + fraction) = BitVec.ofNat 52 fraction := by
    refine BitVec.eq_of_toNat_eq ?_
    rw [BitVec.toNat_ofNat, BitVec.toNat_ofNat, Nat.add_mod_left]
  simp only [UnpackedFloat.pack, biased, log2_normal h]
  rw [if_neg (by omega), if_pos (by decide)]
  exact congrArg _ implicit

theorem pack_subnormal (pos : 0 < fraction) (h : fraction < 2 ^ 52) :
    UnpackedFloat.pack .binary64 (.finite s fraction (-1074) pos) =
      packComponents .binary64 s 0#11 (BitVec.ofNat 52 fraction) := by
  have short : fraction.log2 < 52 := (Nat.log2_lt pos.ne').mpr h
  simp only [UnpackedFloat.pack]
  rw [if_neg (by decide), if_neg (by change ¬fraction.log2 + 1 = 53; omega)]

end Pack

theorem unpack_pack_fields (s : Sign) {exponent fraction : Nat} (h : fraction < 2 ^ 52)
    (low : 1 ≤ exponent) (high : exponent ≤ 2046) :
    (Float.Model.pack (.finite s (2 ^ 52 + fraction) (exponent - 1075) (by omega))).unpack =
      .finite s (2 ^ 52 + fraction) (exponent - 1075) (by omega) := by
  have toNat_exponent : (BitVec.ofNat 11 exponent).toNat = exponent := by
    rw [BitVec.toNat_ofNat, Nat.mod_eq_of_lt (by omega)]
  have toNat_fraction : (BitVec.ofNat 52 fraction).toNat = fraction := by
    rw [BitVec.toNat_ofNat, Nat.mod_eq_of_lt h]
  change UnpackedFloat.unpack .binary64 (UnpackedFloat.pack .binary64 _) = _
  rw [pack_normal s h low high, unpack_normal]
  · simp only [toNat_exponent, toNat_fraction]
  · intro zero
    rw [zero] at toNat_exponent
    exact absurd toNat_exponent (by change 0 ≠ exponent; omega)
  · intro ones
    rw [ones] at toNat_exponent
    exact absurd toNat_exponent (by change 2047 ≠ exponent; omega)

/-- A normal number is unpacked as it was packed. -/
theorem unpack_pack_normal (s : Sign) {significand : Nat} {exponent : Int}
    (normal : IsNormal significand exponent) :
    (Float.Model.pack (.finite s significand exponent normal.pos)).unpack =
      .finite s significand exponent normal.pos := by
  obtain ⟨low, high, least, most⟩ := normal
  obtain ⟨fraction, rfl⟩ := Nat.exists_eq_add_of_le low
  obtain ⟨field, shifted⟩ := Int.eq_ofNat_of_zero_le (show 0 ≤ exponent + 1075 by omega)
  obtain rfl : exponent = (field : Int) - 1075 := by omega
  exact unpack_pack_fields s (by omega) (by omega) (by omega)

@[simp] theorem unpack_pack_zero (s : Sign) : (Float.Model.pack (.zero s)).unpack = .zero s := by
  cases s <;> rfl

theorem pack_unpack_fields (s : Sign) (exponent : BitVec 11) (fraction : BitVec 52)
    (valid : Format.binary64.Valid (packComponents .binary64 s exponent fraction)) :
    UnpackedFloat.pack .binary64
        (UnpackedFloat.unpack .binary64 (packComponents .binary64 s exponent fraction)) =
      packComponents .binary64 s exponent fraction := by
  by_cases ones : exponent = -1#11
  · subst ones
    rw [UnpackedFloat.unpack]
    simp only [unpackExponent_packComponents, unpackMantissa_packComponents, sign_packComponents]
    rw [if_pos trivial]
    split
    case isTrue empty => rw [empty]; rfl
    case isFalse payload => exact (valid.eq_packedNaN (by simp) (by simpa using payload)).symm
  by_cases zero : exponent = 0#11
  · subst zero
    by_cases empty : fraction = 0#52
    · subst empty
      cases s <;> rfl
    · have pos : 0 < fraction.toNat := Nat.pos_of_ne_zero fun none =>
        empty (BitVec.eq_of_toNat_eq none)
      rw [unpack_subnormal s fraction empty pos, pack_subnormal s pos fraction.isLt,
        BitVec.ofNat_toNat, BitVec.setWidth_eq]
  · have low : exponent.toNat ≠ 0 := fun none => zero (BitVec.eq_of_toNat_eq none)
    have high : exponent.toNat ≠ 2047 := fun all => ones (BitVec.eq_of_toNat_eq all)
    have bound : exponent.toNat < 2 ^ 11 := exponent.isLt
    rw [unpack_normal s exponent fraction zero ones,
      pack_normal s fraction.isLt (by omega) (by omega), BitVec.ofNat_toNat, BitVec.setWidth_eq,
      BitVec.ofNat_toNat, BitVec.setWidth_eq]

/-- What is unpacked from a number is packed into the same number. -/
theorem pack_unpack (x : Float.Model) : Float.Model.pack x.unpack = x := by
  obtain ⟨bits, valid⟩ := x
  have same : UnpackedFloat.pack .binary64 (UnpackedFloat.unpack .binary64 bits.toBitVec) =
      bits.toBitVec := by
    rw [← packComponents_fields bits.toBitVec] at valid ⊢
    exact pack_unpack_fields _ _ _ valid
  simp only [Float.Model.pack, Float.Model.unpack, same]

end CircuitBench.Binary64
