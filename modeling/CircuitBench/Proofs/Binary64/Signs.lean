import CircuitBench.Proofs.Binary64.Zeros
import CircuitBench.Proofs.Sampling.Possible
import Mathlib

/-!
# Signs in binary64

Rounding and packing keep the sign of a number. So a square is never negative, not even a negative
zero, and neither is a sum of numbers that are not. Probabilities are sums of squares, and one that
is not above zero is a zero that is added to the running sum without any effect.
-/

namespace CircuitBench.Binary64

open Float.Model UnpackedFloat

/-- The sign of a number. Zeros and infinities have one, and a NaN has none. -/
def sign? : UnpackedFloat → Option Sign
  | .infinity s => some s
  | .zero s => some s
  | .finite s _ _ _ => some s
  | .notANumber => none

def IsNonnegative (x : Float) : Prop :=
  sign? x.toModel.unpack ≠ some .negative

section Keeping

theorem sign?_unpack_packComponents (s : Sign) {exponent : BitVec 11} {fraction : BitVec 52}
    (h : exponent = -1#11 → fraction = 0#52) :
    sign? (UnpackedFloat.unpack .binary64 (packComponents .binary64 s exponent fraction)) =
      some s := by
  rw [UnpackedFloat.unpack]
  simp only [unpackExponent_packComponents, unpackMantissa_packComponents, sign_packComponents]
  by_cases ones : exponent = -1#11
  · rw [if_pos ones, if_pos (h ones)]
    rfl
  · rw [if_neg ones]
    split_ifs <;> rfl

/-- What is packed is unpacked with the same sign. -/
theorem sign?_unpack_pack (u : UnpackedFloat) : sign? (Float.Model.pack u).unpack = sign? u := by
  change sign? (UnpackedFloat.unpack .binary64 (UnpackedFloat.pack .binary64 u)) = _
  cases u with
  | infinity s => exact sign?_unpack_packComponents s fun _ => rfl
  | notANumber => rfl
  | zero s => exact sign?_unpack_packComponents s fun ones => absurd ones (by decide)
  | finite s m e pos =>
    simp only [UnpackedFloat.pack]
    split_ifs with large normal
    · exact sign?_unpack_packComponents s fun _ => rfl
    · refine sign?_unpack_packComponents s fun ones => ?_
      have field := congrArg BitVec.toNat ones
      simp only [BitVec.toNat_ofNat] at field
      change _ % 2048 = 2047 at field
      change ¬2048 ≤ _ at large
      omega
    · exact sign?_unpack_packComponents s fun ones => absurd ones (by decide)

theorem sign?_roundWithAccuracy (s : Sign) (m : Nat) (e : Int) (accuracy : Accuracy) :
    sign? (roundWithAccuracy .binary64 s m e accuracy) = some s := by
  simp only [roundWithAccuracy]
  split <;> rfl

/-- A number that is not negative is rounded to one that is not. -/
theorem sign?_normalize {m : Int} (nonneg : 0 ≤ m) (e : Int) :
    sign? (normalize .binary64 m e .positive) = some .positive := by
  simp only [UnpackedFloat.normalize]
  split
  case h_1 less => exact absurd (Int.compare_eq_lt.mp less) (by omega)
  case h_2 => rfl
  case h_3 => exact sign?_roundWithAccuracy _ _ _ _

end Keeping

theorem sign?_mul_self (u : UnpackedFloat) :
    sign? (UnpackedFloat.mul .binary64 u u) ≠ some .negative := by
  intro negative
  cases u with
  | infinity s => cases s <;> cases negative
  | notANumber => cases negative
  | zero s => cases s <;> cases negative
  | finite s m e pos =>
    rw [UnpackedFloat.mul, sign?_roundWithAccuracy] at negative
    cases s <;> cases negative

/-- A sum of numbers without a negative sign has none, not even if it is a zero. -/
theorem sign?_add {u v : UnpackedFloat} (hu : sign? u ≠ some .negative)
    (hv : sign? v ≠ some .negative) :
    sign? (UnpackedFloat.add .binary64 u v) ≠ some .negative := by
  have positive : ∀ {s : Sign}, some s ≠ some Sign.negative → s = .positive := by
    intro s h
    cases s with
    | negative => exact absurd rfl h
    | positive => rfl
  cases u with
  | notANumber => nofun
  | infinity s =>
    obtain rfl := positive hu
    cases v with
    | infinity t =>
      obtain rfl := positive hv
      nofun
    | notANumber => nofun
    | zero t => nofun
    | finite t n f _ => nofun
  | zero s =>
    obtain rfl := positive hu
    cases v with
    | zero t =>
      obtain rfl := positive hv
      nofun
    | notANumber => nofun
    | infinity t => cases t <;> exact hv
    | finite t n f _ => exact hv
  | finite s m e _ =>
    obtain rfl := positive hu
    cases v with
    | zero t => nofun
    | notANumber => nofun
    | infinity t => exact hv
    | finite t n f _ =>
      obtain rfl := positive hv
      rw [UnpackedFloat.add, sign?_normalize]
      · nofun
      · exact Int.add_nonneg (Int.natCast_nonneg _) (Int.natCast_nonneg _)

namespace IsNonnegative

variable {x y : Float}

theorem zero : IsNonnegative 0 := by
  change sign? (Float.Model.pack (.zero .positive)).unpack ≠ _
  rw [sign?_unpack_pack]
  nofun

theorem square (x : Float) : IsNonnegative (x * x) := by
  change sign? (Float.Model.pack (UnpackedFloat.mul .binary64 _ _)).unpack ≠ _
  rw [sign?_unpack_pack]
  exact sign?_mul_self _

theorem add (hx : IsNonnegative x) (hy : IsNonnegative y) : IsNonnegative (x + y) := by
  change sign? (Float.Model.pack (UnpackedFloat.add .binary64 _ _)).unpack ≠ _
  rw [sign?_unpack_pack]
  exact sign?_add hx hy

theorem probability (a : Amplitude Float) : IsNonnegative a.probability :=
  (square a.re).add (square a.im)

theorem runningSum {numbers : Array Float}
    (nonneg : ∀ i (h : i < numbers.size), IsNonnegative numbers[i]) {count : Nat}
    (upto : count ≤ numbers.size) : IsNonnegative (Sampling.runningSum numbers count) := by
  induction count with
  | zero => exact zero
  | succ count ih =>
    rw [Sampling.runningSum_succ numbers upto]
    exact (ih (by omega)).add (nonneg count upto)

/-- Only one of the two zeros is not negative. -/
theorem eq_zero (nonneg : IsNonnegative x) (h : IsZero x) : x = 0 := by
  obtain ⟨s, unpacked⟩ := isZero_iff.mp h
  rw [← ofModel_pack_unpack x, unpacked]
  rw [IsNonnegative, unpacked] at nonneg
  cases s with
  | negative => exact absurd rfl nonneg
  | positive => rfl

/-- A number without a negative sign that is not above zero is a zero. -/
theorem isZero (nonneg : IsNonnegative x) (h : Chance.atMost x 0 = true) : IsZero x := by
  have below : UnpackedFloat.le x.toModel.unpack (.zero .positive) = true :=
    of_decide_eq_true (of_decide_eq_true h)
  rw [IsNonnegative] at nonneg
  rw [isZero_iff]
  cases unpacked : x.toModel.unpack with
  | zero s => exact ⟨s, rfl⟩
  | notANumber => rw [unpacked] at below; cases below
  | infinity s =>
    rw [unpacked] at below nonneg
    cases s with
    | negative => exact absurd rfl nonneg
    | positive => cases below
  | finite s m e pos =>
    rw [unpacked] at below nonneg
    cases s with
    | negative => exact absurd rfl nonneg
    | positive => cases below

end IsNonnegative

/-- In binary64 a probability that is not above zero adds nothing to the sum of those before it. -/
theorem steady_probabilities {n : Nat} (v : Statevector Float n) :
    Sampling.Steady v.probabilities := by
  have nonneg : ∀ i (h : i < v.probabilities.size), IsNonnegative v.probabilities[i] := by
    intro i h
    simpa [Statevector.probabilities] using IsNonnegative.probability _
  intro i h nothing
  refine add_isZero ?_ ((nonneg i h).isZero nothing)
  by_cases empty : IsZero (Sampling.runningSum v.probabilities i)
  · exact .inl ((IsNonnegative.runningSum nonneg h.le).eq_zero empty)
  · exact .inr empty

end CircuitBench.Binary64
