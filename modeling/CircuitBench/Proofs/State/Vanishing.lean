import CircuitBench.Proofs.State.Sweep
import Mathlib

/-!
# Amplitudes that are zero

A rounding arithmetic can have several zeros and need not be a ring, but some of what it does
is exact: a zero times a finite number is a zero, and so are sums, differences and negations
of zeros. An amplitude vanishes if both of its parts are zeros. What a gate makes of vanishing
amplitudes vanishes, because the constants of the gates are finite, and a vanishing amplitude
has probability zero.
-/

namespace CircuitBench

/-- The zeros and the finite numbers of an arithmetic, and what is exact about them. -/
structure ZeroLaws (R : Type) [Scalar R] where
  IsZero : R → Prop
  IsFinite : R → Prop
  isZero_zero : IsZero 0
  isFinite_of_isZero : ∀ {z}, IsZero z → IsFinite z
  isFinite_one : IsFinite 1
  isFinite_neg_one : IsFinite (-1)
  isFinite_quarterTurn : IsFinite (Scalar.quarterTurn : Amplitude R).re ∧
    IsFinite (Scalar.quarterTurn : Amplitude R).im
  isFinite_eighthTurn : IsFinite (Scalar.eighthTurn : Amplitude R).re ∧
    IsFinite (Scalar.eighthTurn : Amplitude R).im
  isZero_mul : ∀ {z x}, IsZero z → IsFinite x → IsZero (z * x)
  isZero_mul' : ∀ {x z}, IsFinite x → IsZero z → IsZero (x * z)
  isZero_add : ∀ {y z}, IsZero y → IsZero z → IsZero (y + z)
  isZero_sub : ∀ {y z}, IsZero y → IsZero z → IsZero (y - z)
  isZero_neg : ∀ {z}, IsZero z → IsZero (-z)

namespace ZeroLaws

variable {R : Type} [Scalar R] (laws : ZeroLaws R) {a b : Amplitude R}

def Finite (a : Amplitude R) : Prop :=
  laws.IsFinite a.re ∧ laws.IsFinite a.im

/-- Both parts of an amplitude are zeros. -/
def Vanishes (a : Amplitude R) : Prop :=
  laws.IsZero a.re ∧ laws.IsZero a.im

theorem finite_unit : laws.Finite .unit :=
  ⟨laws.isFinite_of_isZero laws.isZero_zero, laws.isFinite_one⟩

theorem finite_neg_unit : laws.Finite (.neg .unit) :=
  ⟨laws.isFinite_of_isZero (laws.isZero_neg laws.isZero_zero), laws.isFinite_neg_one⟩

theorem vanishes_zero : laws.Vanishes .zero :=
  ⟨laws.isZero_zero, laws.isZero_zero⟩

theorem vanishes_neg (h : laws.Vanishes a) : laws.Vanishes a.neg :=
  ⟨laws.isZero_neg h.1, laws.isZero_neg h.2⟩

theorem vanishes_mul (ha : laws.Vanishes a) (hb : laws.Finite b) : laws.Vanishes (a.mul b) :=
  ⟨laws.isZero_sub (laws.isZero_mul ha.1 hb.1) (laws.isZero_mul ha.2 hb.2),
    laws.isZero_add (laws.isZero_mul ha.1 hb.2) (laws.isZero_mul ha.2 hb.1)⟩

theorem vanishes_mul' (ha : laws.Finite a) (hb : laws.Vanishes b) : laws.Vanishes (a.mul b) :=
  ⟨laws.isZero_sub (laws.isZero_mul' ha.1 hb.1) (laws.isZero_mul' ha.2 hb.2),
    laws.isZero_add (laws.isZero_mul' ha.1 hb.2) (laws.isZero_mul' ha.2 hb.1)⟩

theorem isZero_probability (h : laws.Vanishes a) : laws.IsZero a.probability :=
  laws.isZero_add (laws.isZero_mul h.1 (laws.isFinite_of_isZero h.1))
    (laws.isZero_mul h.2 (laws.isFinite_of_isZero h.2))

end ZeroLaws

namespace Statevector

variable {R : Type} [Scalar R] {n : Nat} {Index : Type}

/-- What holds of a state at an index holds after operations that each keep it, at the index to
which they have taken the first one. -/
theorem applyAll_induction (step : Index → Operation → Index)
    (holds : Index → Statevector R n → Prop) {ops : List Operation}
    (keeps : ∀ op ∈ ops, ∀ (fits : op.Fits n) i v, holds i v → holds (step i op) (v.apply op fits))
    (fits : ∀ op ∈ ops, op.Fits n) {i : Index} {v : Statevector R n} (h : holds i v) :
    holds (ops.foldl step i) (v.applyAll ops fits) := by
  induction ops generalizing i v with
  | nil => exact h
  | cons op rest ih =>
    have kept := keeps op List.mem_cons_self (fits op List.mem_cons_self) i v h
    exact ih (fun o m => keeps o (List.mem_cons_of_mem op m)) _ kept

end Statevector

end CircuitBench
