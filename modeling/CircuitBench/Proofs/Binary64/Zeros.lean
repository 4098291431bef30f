import CircuitBench.Proofs.Binary64.Shares
import CircuitBench.Proofs.Sampling.Draw
import Mathlib

/-!
# Zeros in binary64

There are two zeros in binary64. Either of them times a finite number is a zero, and so are
sums, differences and negations of them. A zero added to any other number leaves the number as
it is, and so it leaves the positive zero, with which every sum begins.
-/

namespace CircuitBench.Binary64

open Float.Model UnpackedFloat

def IsZero (x : Float) : Prop :=
  (x == 0) = true

instance (x : Float) : Decidable (IsZero x) :=
  inferInstanceAs (Decidable (_ = true))

def IsFinite (x : Float) : Prop :=
  x.isFinite = true

instance (x : Float) : Decidable (IsFinite x) :=
  inferInstanceAs (Decidable (_ = true))

/-- Only the two zeros compare equal to zero. -/
theorem isZero_iff {x : Float} : IsZero x ↔ ∃ s, x.toModel.unpack = .zero s := by
  change UnpackedFloat.beq x.toModel.unpack (.zero .positive) = true ↔ _
  cases x.toModel.unpack with
  | zero s => exact iff_of_true rfl ⟨s, rfl⟩
  | finite s m e pos => cases s <;> exact iff_of_false Bool.false_ne_true nofun
  | infinity s => cases s <;> exact iff_of_false Bool.false_ne_true nofun
  | notANumber => exact iff_of_false Bool.false_ne_true nofun

theorem isZero_pack (s : Sign) : IsZero (.ofModel (.pack (.zero s))) :=
  isZero_iff.mpr ⟨s, unpack_pack_zero s⟩

theorem unpackedMul_comm (u v : UnpackedFloat) :
    UnpackedFloat.mul .binary64 u v = UnpackedFloat.mul .binary64 v u := by
  have signs : ∀ s t : Sign, s * t = t * s := by
    intro s t
    cases s <;> cases t <;> rfl
  cases u <;> cases v <;> simp only [UnpackedFloat.mul, signs, Nat.mul_comm, Int.add_comm]

section Operations

variable {x y z : Float}

theorem isFinite_of_isZero (h : IsZero z) : IsFinite z := by
  obtain ⟨s, unpacked⟩ := isZero_iff.mp h
  change UnpackedFloat.isFinite _ = true
  rw [unpacked]
  rfl

theorem unpack_of_isFinite (h : IsFinite x) :
    (∃ s, x.toModel.unpack = .zero s) ∨ ∃ s m e pos, x.toModel.unpack = .finite s m e pos := by
  change UnpackedFloat.isFinite x.toModel.unpack = true at h
  cases unpacked : x.toModel.unpack with
  | zero s => exact .inl ⟨s, rfl⟩
  | finite s m e pos => exact .inr ⟨s, m, e, pos, rfl⟩
  | infinity s => simp [unpacked, UnpackedFloat.isFinite] at h
  | notANumber => simp [unpacked, UnpackedFloat.isFinite] at h

theorem isZero_mul (h : IsZero z) (finite : IsFinite x) : IsZero (z * x) := by
  obtain ⟨s, unpacked⟩ := isZero_iff.mp h
  change IsZero (.ofModel (.pack (UnpackedFloat.mul .binary64 _ _)))
  obtain ⟨t, other⟩ | ⟨t, m, e, pos, other⟩ := unpack_of_isFinite finite <;> rw [unpacked, other]
  · exact isZero_pack _
  · exact isZero_pack _

/-- Products do not depend on the order, not even in the sign of a zero. -/
theorem mul_comm (x y : Float) : x * y = y * x := by
  change Float.ofModel (.pack (UnpackedFloat.mul .binary64 _ _)) =
    .ofModel (.pack (UnpackedFloat.mul .binary64 _ _))
  rw [unpackedMul_comm]

theorem isZero_mul' (finite : IsFinite x) (h : IsZero z) : IsZero (x * z) := by
  rw [mul_comm]
  exact isZero_mul h finite

/-- An operation that makes zeros of unpacked zeros makes a zero of two zeros. -/
theorem isZero_of_zeros {op : UnpackedFloat → UnpackedFloat → UnpackedFloat}
    (zeros : ∀ s t, ∃ r, op (.zero s) (.zero t) = .zero r) (hy : IsZero y) (hz : IsZero z) :
    IsZero (.ofModel (.pack (op y.toModel.unpack z.toModel.unpack))) := by
  obtain ⟨s, unpacked⟩ := isZero_iff.mp hy
  obtain ⟨t, unpacked'⟩ := isZero_iff.mp hz
  obtain ⟨r, result⟩ := zeros s t
  rw [unpacked, unpacked', result]
  exact isZero_pack r

theorem isZero_add (hy : IsZero y) (hz : IsZero z) : IsZero (y + z) :=
  isZero_of_zeros (fun s t => by cases s <;> cases t <;> exact ⟨_, rfl⟩) hy hz

theorem isZero_sub (hy : IsZero y) (hz : IsZero z) : IsZero (y - z) :=
  isZero_of_zeros (fun s t => by cases s <;> cases t <;> exact ⟨_, rfl⟩) hy hz

theorem isZero_neg (h : IsZero z) : IsZero (-z) := by
  obtain ⟨s, unpacked⟩ := isZero_iff.mp h
  change IsZero (.ofModel (.pack (UnpackedFloat.neg _)))
  rw [unpacked]
  exact isZero_pack _

/-- A result that is unpacked from a number is this number. -/
theorem ofModel_pack_unpack (x : Float) : Float.ofModel (.pack x.toModel.unpack) = x := by
  rw [pack_unpack]

theorem add_isZero (h : x = 0 ∨ ¬IsZero x) (zero : IsZero z) : x + z = x := by
  obtain ⟨s, unpacked⟩ := isZero_iff.mp zero
  change Float.ofModel (.pack (UnpackedFloat.add .binary64 _ _)) = x
  rw [unpacked]
  rcases h with rfl | other
  · cases s <;> rfl
  · conv_rhs => rw [← ofModel_pack_unpack x]
    cases unpacked' : x.toModel.unpack with
    | zero t => exact absurd (isZero_iff.mpr ⟨t, unpacked'⟩) other
    | finite t m e pos => rfl
    | infinity t => rfl
    | notANumber => rfl

theorem zero_add (h : ¬IsZero x) : 0 + x = x := by
  change Float.ofModel (.pack (UnpackedFloat.add .binary64 (.zero .positive) _)) = x
  conv_rhs => rw [← ofModel_pack_unpack x]
  cases unpacked : x.toModel.unpack with
  | zero t => exact absurd (isZero_iff.mpr ⟨t, unpacked⟩) h
  | finite t m e pos => rfl
  | infinity t => rfl
  | notANumber => rfl

end Operations

def chanceLaws : ChanceLaws Float where
  IsZero := IsZero
  IsFinite := IsFinite
  isZero_zero := by decide +kernel
  isFinite_of_isZero := isFinite_of_isZero
  isFinite_one := by decide +kernel
  isFinite_neg_one := by decide +kernel
  isFinite_quarterTurn := by decide +kernel
  isFinite_eighthTurn := by decide +kernel
  isZero_mul := isZero_mul
  isZero_mul' := isZero_mul'
  isZero_add := isZero_add
  isZero_sub := isZero_sub
  isZero_neg := isZero_neg
  add_isZero := add_isZero
  zero_add := zero_add
  wholePart_share := by
    intro shots pos small
    obtain ⟨w, p, -, product, -, -, fits, whole⟩ :=
      exists_hasValue_product pos (Nat.le_refl shots) small
    have converted := toNat_toUInt64 product fits
    rw [whole rfl, Nat.floor_natCast] at converted
    exact converted

end CircuitBench.Binary64
