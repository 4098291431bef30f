import Mathlib
import CircuitBench.Proofs.State.Sweep

/-!
# The sum of all probabilities

Over exact arithmetic no gate changes the sum of the probabilities of a state. A sweep over
pairs works on pairs of indices that do not overlap, so it keeps the sum if it keeps the sum
of each pair; a sweep over the indices with a bit set keeps it if it keeps the probability of
each amplitude. The state of all zeros has the sum one, and so has every state that a
circuit makes of it.
-/

namespace CircuitBench

/-- A commutative ring with constants for the gates. -/
class ScalarRing (R : Type) extends CommRing R, Scalar R

/-- The constants of a ring are those that the gates stand for: the factor of the Hadamard gate
is one over a root of two, and the turns are made of zero, one and that factor. -/
structure ExactGates (R : Type) [ScalarRing R] : Prop where
  rootHalf : 2 * Scalar.rootHalf * Scalar.rootHalf = (1 : R)
  quarterTurn : (Scalar.quarterTurn : Amplitude R) = ⟨0, 1⟩
  eighthTurn : (Scalar.eighthTurn : Amplitude R) = ⟨Scalar.rootHalf, Scalar.rootHalf⟩

namespace Amplitude

variable {R : Type} [ScalarRing R] (a b : Amplitude R)

theorem probability_mul : (a.mul b).probability = a.probability * b.probability := by
  simp only [probability, mul]
  ring

theorem probability_neg : a.neg.probability = a.probability := by
  simp only [probability, neg]
  ring

theorem probability_unit : (unit : Amplitude R).probability = 1 := by
  simp only [probability, unit]
  ring

theorem probability_quarterTurn (exact : ExactGates R) :
    (Scalar.quarterTurn : Amplitude R).probability = 1 := by
  rw [exact.quarterTurn]
  exact probability_unit

theorem probability_eighthTurn (exact : ExactGates R) :
    (Scalar.eighthTurn : Amplitude R).probability = 1 := by
  rw [exact.eighthTurn, ← exact.rootHalf]
  simp only [probability]
  ring

/-- The sum and the difference of two amplitudes, scaled by one over a root of two, have the
probabilities of the two together. -/
theorem probability_add_sub (exact : ExactGates R) :
    (scale Scalar.rootHalf (a.add b)).probability + (scale Scalar.rootHalf (a.sub b)).probability =
      a.probability + b.probability := by
  calc
    _ = 2 * Scalar.rootHalf * Scalar.rootHalf * (a.probability + b.probability) := by
      simp only [probability, scale, add, sub]
      ring
    _ = a.probability + b.probability := by rw [exact.rootHalf, one_mul]

end Amplitude

namespace Statevector

/-- Indices fall into pairs that differ in one bit; every pair has one index with the bit clear. -/
theorem sum_eq_sum_pairs {M : Type} [AddCommMonoid M] {n : Nat} (q : Nat) (hq : q < n)
    (g : Fin (2 ^ n) → M) :
    ∑ k, g k = ∑ k with k.val.testBit q = false, (g k + g (partner q hq k)) := by
  have upper : ∑ k with ¬k.val.testBit q = false, g k =
      ∑ k with k.val.testBit q = false, g (partner q hq k) := by
    refine Finset.sum_nbij' (partner q hq) (partner q hq) ?_ ?_ ?_ ?_ ?_
    · intro k set
      simp_all
    · intro k clear
      simp_all
    · intro k _
      exact partner_partner q hq k
    · intro k _
      exact partner_partner q hq k
    · intro k _
      rw [partner_partner]
  rw [← Finset.sum_filter_add_sum_filter_not Finset.univ (fun k => k.val.testBit q = false), upper,
    ← Finset.sum_add_distrib]

variable {R : Type} [ScalarRing R] {n : Nat}

theorem sum_probabilities (v : Statevector R n) :
    v.probabilities.toList.sum = ∑ k, (v.get k).probability := by
  have listed : v.probabilities.toList = List.ofFn fun k => (v.get k).probability := by
    refine List.ext_getElem (by simp) ?_
    intro i inside _
    simp [probabilities, Vector.get_eq_getElem]
  rw [listed, List.sum_ofFn]

/-- A sweep over pairs keeps the sum if its function keeps the sum of every pair. -/
theorem sum_mixPairs {q : Nat} (hq : q < n) {chosen : Nat → Bool}
    {f : Amplitude R → Amplitude R → Amplitude R × Amplitude R}
    (keeps : ∀ a b, (f a b).1.probability + (f a b).2.probability =
      a.probability + b.probability) (v : Statevector R n) :
    ∑ k, ((v.mixPairs q hq chosen f).get k).probability = ∑ k, (v.get k).probability := by
  rw [sum_eq_sum_pairs q hq, sum_eq_sum_pairs q hq]
  refine Finset.sum_congr rfl fun k lower => ?_
  have clear : k.val.testBit q = false := (Finset.mem_filter.mp lower).2
  rw [get_mixPairs, get_mixPairs, testBit_partner, partner_partner]
  simp only [clear, if_true, Bool.not_false, Bool.true_eq_false, if_false]
  by_cases taken : chosen k.val = true
  · simp only [taken, if_true]
    exact keeps _ _
  · simp only [taken, Bool.false_eq_true, if_false]

/-- A sweep over single indices keeps the sum if its function keeps probabilities. -/
theorem sum_mapSet {q : Nat} {g : Amplitude R → Amplitude R}
    (keeps : ∀ a, (g a).probability = a.probability) (v : Statevector R n) :
    ∑ k, ((v.mapSet q g).get k).probability = ∑ k, (v.get k).probability := by
  refine Finset.sum_congr rfl fun k _ => ?_
  rw [get_mapSet]
  split
  · exact keeps _
  · rfl

/-- No gate changes the sum of the probabilities. -/
theorem sum_apply (exact : ExactGates R) (op : Operation) (fits : op.Fits n)
    (v : Statevector R n) :
    ∑ k, ((v.apply op fits).get k).probability = ∑ k, (v.get k).probability := by
  cases op with
  | single gate target =>
    cases gate with
    | h => exact sum_mixPairs _ (fun a b => a.probability_add_sub b exact) v
    | x => exact sum_mixPairs _ (fun a b => add_comm _ _) v
    | y =>
      refine sum_mixPairs _ (fun a b => ?_) v
      rw [Amplitude.probability_mul, Amplitude.probability_mul, Amplitude.probability_neg,
        Amplitude.probability_unit, one_mul, one_mul, add_comm]
    | z => exact sum_mapSet Amplitude.probability_neg v
    | s =>
      refine sum_mapSet (fun a => ?_) v
      rw [Amplitude.probability_mul, Amplitude.probability_quarterTurn exact, mul_one]
    | t =>
      refine sum_mapSet (fun a => ?_) v
      rw [Amplitude.probability_mul, Amplitude.probability_eighthTurn exact, mul_one]
  | cnot control target => exact sum_mixPairs _ (fun a b => add_comm _ _) v

theorem sum_applyAll (exact : ExactGates R) (ops : List Operation) (fits : ∀ op ∈ ops, op.Fits n)
    (v : Statevector R n) :
    ∑ k, ((v.applyAll ops fits).get k).probability = ∑ k, (v.get k).probability := by
  induction ops generalizing v with
  | nil => rfl
  | cons op rest ih => rw [applyAll, ih, sum_apply exact]

theorem sum_initial : ∑ k, ((initial R n).get k).probability = (1 : R) := by
  have certain : ∀ k : Fin (2 ^ n), ((initial R n).get k).probability =
      if k = ⟨0, Nat.two_pow_pos n⟩ then 1 else 0 := by
    intro k
    rw [get_initial]
    by_cases first : k.val = 0 <;>
      simp [first, Fin.ext_iff, Amplitude.probability, Amplitude.one, Amplitude.zero]
  rw [Finset.sum_congr rfl fun k _ => certain k, Finset.sum_ite_eq' Finset.univ]
  simp

end Statevector

/-- Over exact arithmetic every gate keeps the sum of the probabilities of any state, and the
probabilities of the state that a circuit makes add up to one. -/
theorem probability_is_conserved {R : Type} [ScalarRing R] (exact : ExactGates R) :
    (∀ {n : Nat} (op : Operation) (fits : op.Fits n) (v : Statevector R n),
      (v.apply op fits).probabilities.toList.sum = v.probabilities.toList.sum) ∧
    ∀ c : Circuit, (c.finalState R).probabilities.toList.sum = 1 := by
  constructor
  · intro n op fits v
    rw [Statevector.sum_probabilities, Statevector.sum_probabilities,
      Statevector.sum_apply exact]
  · intro c
    rw [Statevector.sum_probabilities, Circuit.finalState, Statevector.sum_applyAll exact,
      Statevector.sum_initial]

/-- The real numbers with the constants of the gates. -/
noncomputable instance : ScalarRing ℝ where
  rootHalf := (√2)⁻¹
  quarterTurn := ⟨0, 1⟩
  eighthTurn := ⟨(√2)⁻¹, (√2)⁻¹⟩

theorem exactGates_real : ExactGates ℝ where
  rootHalf := by
    have root : √2 * √2 = (2 : ℝ) := Real.mul_self_sqrt zero_le_two
    calc
      2 * (√2)⁻¹ * (√2)⁻¹ = 2 * (√2 * √2)⁻¹ := by rw [mul_assoc, mul_inv]
      _ = 1 := by rw [root, mul_inv_cancel₀ two_ne_zero]
  quarterTurn := rfl
  eighthTurn := rfl

/-- Two qubits that interfere after phases have been put on them. -/
def phased : Circuit :=
  ⟨2, [.single .h 0, .single .t 0, .cnot 0 1, .single .s 1, .single .h 1], by decide, by decide⟩

theorem probability_is_conserved_phased :
    ExactGates ℝ ∧ (phased.finalState ℝ).probabilities.toList.sum = 1 ∧
    ((phased.finalState ℝ).apply (.single .y 1) (by decide)).probabilities.toList.sum =
      (phased.finalState ℝ).probabilities.toList.sum := by
  obtain ⟨gates, circuits⟩ := probability_is_conserved exactGates_real
  exact ⟨exactGates_real, circuits phased, gates _ _ _⟩

end CircuitBench
