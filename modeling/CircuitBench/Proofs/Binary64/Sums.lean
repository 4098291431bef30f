import CircuitBench.Proofs.Binary64.Nearest
import CircuitBench.Proofs.Binary64.Zeros
import CircuitBench.Proofs.Sampling.Ascent
import Mathlib

/-!
# Order and sums in binary64

Numbers that are not NaN stand in one order: by sign first, then by exponent and significand. In
this order a sum of two numbers that are not negative is at least the first of them. That is plain
for zeros and infinities, where the sum is one of the two. For two positive numbers the exact sum
is at least the first, and rounding does not cross that number.
-/

namespace CircuitBench.Binary64

open Float.Model UnpackedFloat

/-- Where a number stands among the others: its kind and sign first, then exponent and
significand. -/
def rank? : UnpackedFloat → Option (Int ×ₗ Int ×ₗ Int)
  | .notANumber => none
  | .infinity .negative => some (toLex (-2, toLex (0, 0)))
  | .finite .negative m e _ => some (toLex (-1, toLex (-e, -(m : Int))))
  | .zero _ => some (toLex (0, toLex (0, 0)))
  | .finite .positive m e _ => some (toLex (1, toLex (e, (m : Int))))
  | .infinity .positive => some (toLex (2, toLex (0, 0)))

theorem isLE_then_compare {e f : Int} {m n : Nat} :
    ((compare e f).then (compare m n)).isLE = true ↔ e < f ∨ e = f ∧ m ≤ n := by
  rw [Ordering.isLE_then_iff_or, Int.compare_eq_lt, Int.compare_eq_eq, Nat.isLE_compare]

theorem isGE_then_compare {e f : Int} {m n : Nat} :
    ((compare e f).then (compare m n)).isGE = true ↔ f < e ∨ e = f ∧ n ≤ m := by
  rw [← Ordering.isLE_swap, Ordering.swap_then, Int.compare_swap, Nat.compare_swap,
    isLE_then_compare, eq_comm]

theorem then_compare_eq_lt {e f : Int} {m n : Nat} :
    (compare e f).then (compare m n) = .lt ↔ e < f ∨ e = f ∧ m < n := by
  rw [Ordering.then_eq_lt, Int.compare_eq_lt, Int.compare_eq_eq, Nat.compare_eq_lt]

theorem then_compare_eq_gt {e f : Int} {m n : Nat} :
    (compare e f).then (compare m n) = .gt ↔ f < e ∨ e = f ∧ n < m := by
  rw [Ordering.then_eq_gt, Int.compare_eq_gt, Int.compare_eq_eq, Nat.compare_eq_gt]

section Order

variable {u v w : UnpackedFloat}

/-- Numbers are compared as their ranks are, and only numbers are. -/
theorem unpackedLe_and_unpackedLt_iff :
    (UnpackedFloat.le u v = true ↔ ∃ a ∈ rank? u, ∃ b ∈ rank? v, a ≤ b) ∧
      (UnpackedFloat.lt u v = true ↔ ∃ a ∈ rank? u, ∃ b ∈ rank? v, a < b) := by
  have same : ∀ s : Sign, compare s s = .eq := by
    intro s
    cases s <;> rfl
  have below : compare Sign.negative Sign.positive = .lt := rfl
  have above : compare Sign.positive Sign.negative = .gt := rfl
  rcases u with (_ | _) | _ | (_ | _) | ⟨_ | _, m, e, pos⟩ <;>
    rcases v with (_ | _) | _ | (_ | _) | ⟨_ | _, n, f, pos'⟩ <;>
    simp [UnpackedFloat.le, UnpackedFloat.lt, UnpackedFloat.compare, rank?,
      Prod.Lex.toLex_le_toLex, Prod.Lex.toLex_lt_toLex, isLE_then_compare, isGE_then_compare,
      then_compare_eq_lt, then_compare_eq_gt, same, below, above]

theorem unpackedLe_iff :
    UnpackedFloat.le u v = true ↔ ∃ a ∈ rank? u, ∃ b ∈ rank? v, a ≤ b :=
  unpackedLe_and_unpackedLt_iff.1

/-- Between numbers, what is not at least another is below it. -/
theorem unpackedLt_of_not_unpackedLe (hu : UnpackedFloat.le u u = true)
    (hv : UnpackedFloat.le v v = true) (not_above : ¬UnpackedFloat.le v u = true) :
    UnpackedFloat.lt u v = true := by
  obtain ⟨a, at_u, -⟩ := unpackedLe_iff.mp hu
  obtain ⟨b, at_v, -⟩ := unpackedLe_iff.mp hv
  refine unpackedLe_and_unpackedLt_iff.2.mpr ⟨a, at_u, b, at_v, lt_of_not_ge fun most => ?_⟩
  exact not_above (unpackedLe_iff.mpr ⟨b, at_v, a, at_u, most⟩)

theorem unpackedLe_trans (first : UnpackedFloat.le u v = true)
    (second : UnpackedFloat.le v w = true) : UnpackedFloat.le u w = true := by
  obtain ⟨a, at_u, b, at_v, low⟩ := unpackedLe_iff.mp first
  obtain ⟨b', at_v', c, at_w, high⟩ := unpackedLe_iff.mp second
  obtain rfl : b = b' := Option.mem_unique at_v at_v'
  exact unpackedLe_iff.mpr ⟨a, at_u, c, at_w, low.trans high⟩

theorem unpackedLe_self (h : UnpackedFloat.le u v = true) : UnpackedFloat.le v v = true := by
  obtain ⟨-, -, b, at_v, -⟩ := unpackedLe_iff.mp h
  exact unpackedLe_iff.mpr ⟨b, at_v, b, at_v, le_rfl⟩

theorem atMost_iff {x y : Float} :
    Chance.atMost x y = true ↔
      UnpackedFloat.le x.toModel.unpack y.toModel.unpack = true := by
  change decide (decide _ = true) = true ↔ _
  rw [decide_eq_true_iff, decide_eq_true_iff]
  rfl

theorem lt_iff {x y : Float} :
    x < y ↔ UnpackedFloat.lt x.toModel.unpack y.toModel.unpack = true := by
  change decide _ = true ↔ _
  rw [decide_eq_true_iff]
  rfl

/-- Between numbers, what is not at least another is below it. -/
theorem lt_of_atMost_eq_false {x y : Float} (hx : Chance.atMost x x = true)
    (hy : Chance.atMost y y = true) (not_above : Chance.atMost y x = false) : x < y := by
  rw [← Bool.not_eq_true, atMost_iff] at not_above
  exact lt_iff.mpr (unpackedLt_of_not_unpackedLe (atMost_iff.mp hx) (atMost_iff.mp hy) not_above)

/-- What is at least zero and at most zero is a zero. -/
theorem isZero_of_atMost {x : Float} (nonneg : Chance.atMost 0 x = true)
    (nothing : Chance.atMost x 0 = true) : IsZero x := by
  have low := atMost_iff.mp nonneg
  have high := atMost_iff.mp nothing
  refine isZero_iff.mpr ?_
  change UnpackedFloat.le (.zero .positive) _ = true at low
  change UnpackedFloat.le _ (.zero .positive) = true at high
  cases unpacked : x.toModel.unpack with
  | zero s => exact ⟨s, rfl⟩
  | notANumber =>
    rw [unpacked] at low
    cases low
  | infinity s =>
    rw [unpacked] at low high
    cases s
    · cases low
    · cases high
  | finite s m e pos =>
    rw [unpacked] at low high
    cases s
    · cases low
    · cases high

end Order

/-- The sum of two positive numbers is their exact sum, rounded. -/
theorem add_positive {m n : Nat} {e f : Int} (pos : 0 < m) (pos' : 0 < n) :
    ∃ (M : Nat) (E : Int), (M : ℚ) * 2 ^ E = m * 2 ^ e + n * 2 ^ f ∧
      UnpackedFloat.add .binary64 (.finite .positive m e pos) (.finite .positive n f pos') =
        UnpackedFloat.round .binary64 .positive M E := by
  refine ⟨m <<< (e - min e f).toNat + n <<< (f - min e f).toNat, min e f, ?_, ?_⟩
  · have left : (2 : ℚ) ^ e = 2 ^ min e f * 2 ^ (e - min e f).toNat := two_zpow_eq (by omega)
    have right : (2 : ℚ) ^ f = 2 ^ min e f * 2 ^ (f - min e f).toNat := two_zpow_eq (by omega)
    rw [Nat.shiftLeft_eq, Nat.shiftLeft_eq]
    push_cast
    rw [left, right]
    ring
  · have some_bits : 0 < m <<< (e - min e f).toNat := by
      rw [Nat.shiftLeft_eq]
      positivity
    simp only [UnpackedFloat.add, decreaseExponent, Sign.apply, ← Int.natCast_add]
    generalize m <<< (e - min e f).toNat = a at some_bits
    generalize n <<< (f - min e f).toNat = b
    have positive : compare ((a + b : ℕ) : Int) 0 = .gt := Int.compare_eq_gt.mpr (by omega)
    simp only [UnpackedFloat.normalize, positive, Int.toNat_natCast]

/-- The rounded sum of two positive numbers is at least the first. -/
theorem unpackedLe_add_positive {m n : Nat} {e f : Int} (pos : 0 < m) (pos' : 0 < n)
    (canonical : IsCanonical m e) :
    UnpackedFloat.le (.finite .positive m e pos) (Float.Model.pack (UnpackedFloat.add .binary64
      (.finite .positive m e pos) (.finite .positive n f pos'))).unpack = true := by
  obtain ⟨M, E, exact, added⟩ := add_positive pos pos' (e := e) (f := f)
  have low : (m : ℚ) * 2 ^ e ≤ M * 2 ^ E := by
    rw [exact]
    exact le_add_of_nonneg_right (by positivity)
  obtain ⟨k, c, some, rounded, final, ascends⟩ := exists_round_of_le pos canonical low
  rw [added, rounded, unpack_pack_canonical .positive some final]
  split_ifs
  · exact isLE_then_compare.mpr ascends
  · rfl

/-- A number that is at least zero is a zero, positive, or the positive infinity. -/
theorem cases_of_zero_le {u : UnpackedFloat} (h : UnpackedFloat.le (.zero .positive) u = true) :
    (∃ s, u = .zero s) ∨ u = .infinity .positive ∨ ∃ m e pos, u = .finite .positive m e pos := by
  cases u with
  | notANumber => cases h
  | zero s => exact .inl ⟨s, rfl⟩
  | infinity s =>
    cases s with
    | negative => cases h
    | positive => exact .inr (.inl rfl)
  | finite s m e pos =>
    cases s with
    | negative => cases h
    | positive => exact .inr (.inr ⟨m, e, pos, rfl⟩)

/-- A sum of numbers that are not negative is one of them, and not less than the first, unless
both are positive. -/
theorem add_cases {u v : UnpackedFloat} (hu : UnpackedFloat.le (.zero .positive) u = true)
    (hv : UnpackedFloat.le (.zero .positive) v = true) :
    UnpackedFloat.add .binary64 u v = u ∨
      UnpackedFloat.add .binary64 u v = v ∧ UnpackedFloat.le u v = true ∨
      ∃ m e pos n f pos', u = .finite .positive m e pos ∧ v = .finite .positive n f pos' := by
  rcases cases_of_zero_le hu with ⟨s, rfl⟩ | rfl | ⟨m, e, pos, rfl⟩
  · have least : UnpackedFloat.le (.zero s) v = true := by
      obtain ⟨a, at_zero, b, at_v, low⟩ := unpackedLe_iff.mp hv
      exact unpackedLe_iff.mpr ⟨a, at_zero, b, at_v, low⟩
    rcases cases_of_zero_le hv with ⟨t, rfl⟩ | rfl | ⟨n, f, pos', rfl⟩
    · cases s <;> cases t
      · exact .inl rfl
      · exact .inr (.inl ⟨rfl, least⟩)
      · exact .inl rfl
      · exact .inl rfl
    · exact .inr (.inl ⟨rfl, least⟩)
    · exact .inr (.inl ⟨rfl, least⟩)
  · rcases cases_of_zero_le hv with ⟨t, rfl⟩ | rfl | ⟨n, f, pos', rfl⟩ <;> exact .inl rfl
  · rcases cases_of_zero_le hv with ⟨t, rfl⟩ | rfl | ⟨n, f, pos', rfl⟩
    · exact .inl rfl
    · exact .inr (.inl ⟨rfl, rfl⟩)
    · exact .inr (.inr ⟨m, e, pos, n, f, pos', rfl, rfl⟩)

/-- A number that is not negative does not make a sum smaller. -/
theorem atMost_add {x y : Float} (hx : Chance.atMost 0 x = true) (hy : Chance.atMost 0 y = true) :
    Chance.atMost x (x + y) = true := by
  have low := atMost_iff.mp hx
  have low' := atMost_iff.mp hy
  change UnpackedFloat.le (.zero .positive) _ = true at low
  change UnpackedFloat.le (.zero .positive) _ = true at low'
  refine atMost_iff.mpr ?_
  change UnpackedFloat.le _ (Float.Model.pack (UnpackedFloat.add .binary64 x.toModel.unpack
    y.toModel.unpack)).unpack = true
  rcases add_cases low low' with first | ⟨second, most⟩ | ⟨m, e, pos, n, f, pos', at_x, at_y⟩
  · rw [first, pack_unpack]
    exact unpackedLe_self low
  · rw [second, pack_unpack]
    exact most
  · rw [at_x, at_y]
    exact unpackedLe_add_positive pos pos' (isCanonical_of_unpack at_x)

/-- A zero does not make a sum larger. -/
theorem add_atMost {x z : Float} (hx : Chance.atMost 0 x = true) (hz : Chance.atMost 0 z = true)
    (nothing : Chance.atMost z 0 = true) : Chance.atMost (x + z) x = true := by
  have zero := isZero_of_atMost hz nothing
  by_cases zero' : IsZero x
  · obtain ⟨s, sum⟩ := isZero_iff.mp (isZero_add zero' zero)
    obtain ⟨t, first⟩ := isZero_iff.mp zero'
    rw [atMost_iff, sum, first]
    rfl
  · rw [add_isZero (.inr zero') zero]
    exact atMost_iff.mpr (unpackedLe_self (atMost_iff.mp hx))

/-- What the running sums need to know of sums is true of rounded ones. -/
theorem sumLaws : SumLaws Float where
  trans first second := atMost_iff.mpr
    (unpackedLe_trans (atMost_iff.mp first) (atMost_iff.mp second))
  zero_atMost_zero := atMost_iff.mpr rfl
  atMost_add := atMost_add
  add_atMost := add_atMost

end CircuitBench.Binary64
