import Mathlib
import CircuitBench.Proofs.State.Conservation

/-!
# Operations that commute

Over a commutative ring every operation makes the new amplitude at an index from two old ones,
that at the index and that at its partner in the target bit, each with a factor. The factors
depend on the bits of the operation's own qubits alone. Two operations without a common qubit
leave one another's factors alone, and their partners are taken in different bits, so it does
not matter which of the two comes first.
-/

namespace CircuitBench

namespace Amplitude

variable {R : Type} [ScalarRing R] (a b : Amplitude R)

@[simp] theorem zero_mul : (zero : Amplitude R).mul a = zero := by
  simp [mul, zero]

@[simp] theorem one_mul : (one : Amplitude R).mul a = a := by
  simp [mul, one]

@[simp] theorem mul_one : a.mul one = a := by
  simp [mul, one]

@[simp] theorem neg_one_mul : (one : Amplitude R).neg.mul a = a.neg := by
  simp [mul, one, neg]

@[simp] theorem zero_add : (zero : Amplitude R).add a = a := by
  simp [add, zero]

@[simp] theorem add_zero : a.add zero = a := by
  simp [add, zero]

theorem mul_comm : a.mul b = b.mul a := by
  simp only [mul, mk.injEq]
  constructor <;> ring

end Amplitude

namespace Operation

def target : Operation → UInt32
  | single _ target => target
  | cnot _ target => target

theorem target_mem (op : Operation) : op.target ∈ op.qubits := by
  cases op with
  | single gate target => exact List.mem_singleton_self target
  | cnot control target => exact .tail _ (List.mem_singleton_self target)

theorem target_lt {op : Operation} {n : Nat} (fits : op.Fits n) : op.target.toNat < n :=
  fits.1 _ op.target_mem

section Factors

variable (R : Type) [Scalar R] {i j : Nat}

/-- The factor of an amplitude in what an operation puts in its own place. -/
def ownFactor : Operation → (bits : Nat) → Amplitude R
  | single .h target, bits =>
    if bits.testBit target.toNat then ⟨-Scalar.rootHalf, 0⟩ else ⟨Scalar.rootHalf, 0⟩
  | single .x _, _ => .zero
  | single .y _, _ => .zero
  | single .z target, bits => if bits.testBit target.toNat then .neg .one else .one
  | single .s target, bits => if bits.testBit target.toNat then Scalar.quarterTurn else .one
  | single .t target, bits => if bits.testBit target.toNat then Scalar.eighthTurn else .one
  | cnot control _, bits => if bits.testBit control.toNat then .zero else .one

/-- The factor of an amplitude in what an operation puts in the place of its partner, whose bits
are given. -/
def partnerFactor : Operation → (bits : Nat) → Amplitude R
  | single .h _, _ => ⟨Scalar.rootHalf, 0⟩
  | single .x _, _ => .one
  | single .y target, bits => if bits.testBit target.toNat then .unit else .neg .unit
  | single .z _, _ => .zero
  | single .s _, _ => .zero
  | single .t _, _ => .zero
  | cnot control _, bits => if bits.testBit control.toNat then .one else .zero

/-- Factors depend on nothing but the bits of the operation's qubits. -/
theorem factors_congr {op : Operation}
    (same : ∀ q ∈ op.qubits, i.testBit q.toNat = j.testBit q.toNat) :
    op.ownFactor R i = op.ownFactor R j ∧ op.partnerFactor R i = op.partnerFactor R j := by
  cases op with
  | single gate target =>
    have bit := same target (List.mem_singleton_self target)
    cases gate <;> simp [ownFactor, partnerFactor, bit]
  | cnot control target =>
    have bit := same control List.mem_cons_self
    simp [ownFactor, partnerFactor, bit]

end Factors

end Operation

namespace Statevector

variable {n : Nat}

theorem ext_get {R : Type} {v w : Statevector R n} (same : ∀ k, v.get k = w.get k) : v = w := by
  refine Vector.ext fun i inside => ?_
  exact same ⟨i, inside⟩

theorem partner_comm {p q : Nat} (hp : p < n) (hq : q < n) (k : Fin (2 ^ n)) :
    partner p hp (partner q hq k) = partner q hq (partner p hp k) := by
  apply Fin.ext
  exact Nat.xor_right_comm k.val (2 ^ q) (2 ^ p)

variable {R : Type} [ScalarRing R]

theorem get_applySingle_h {q : Nat} (hq : q < n) (v : Statevector R n) (k : Fin (2 ^ n)) :
    (v.applySingle .h q hq).get k =
      (Amplitude.mul (if k.val.testBit q then ⟨-Scalar.rootHalf, 0⟩ else ⟨Scalar.rootHalf, 0⟩)
        (v.get k)).add (.mul ⟨Scalar.rootHalf, 0⟩ (v.get (partner q hq k))) := by
  rw [applySingle, get_mixPairs]
  cases bit : k.val.testBit q
  · simp only [if_true, Amplitude.scale, Amplitude.add, Amplitude.mul, Bool.false_eq_true, if_false,
      Amplitude.mk.injEq]
    constructor <;> ring
  · simp only [Bool.true_eq_false, if_true, if_false, Amplitude.scale, Amplitude.sub, Amplitude.add,
      Amplitude.mul, Amplitude.mk.injEq]
    constructor <;> ring

/-- An operation makes the amplitude at an index of those at the index and at its partner. -/
theorem get_apply {op : Operation} (fits : op.Fits n) (v : Statevector R n) (k : Fin (2 ^ n)) :
    (v.apply op fits).get k =
      ((op.ownFactor R k).mul (v.get k)).add
        ((op.partnerFactor R k).mul (v.get (partner op.target.toNat (op.target_lt fits) k))) := by
  cases op with
  | single gate target =>
    have inside := Operation.fits_single.mp fits
    show (v.applySingle gate target.toNat inside).get k = _
    cases gate with
    | h => exact get_applySingle_h inside v k
    | x =>
      rw [get_applySingle_x]
      simp [Operation.ownFactor, Operation.partnerFactor, Operation.target]
    | y =>
      rw [get_applySingle_y]
      cases bit : k.val.testBit target.toNat <;>
        simp [Operation.ownFactor, Operation.partnerFactor, Operation.target, bit]
    | z =>
      rw [applySingle, get_mapSet]
      cases bit : k.val.testBit target.toNat <;>
        simp [Operation.ownFactor, Operation.partnerFactor, bit]
    | s =>
      rw [applySingle, get_mapSet]
      cases bit : k.val.testBit target.toNat <;>
        simp [Operation.ownFactor, Operation.partnerFactor, bit, Amplitude.mul_comm]
    | t =>
      rw [applySingle, get_mapSet]
      cases bit : k.val.testBit target.toNat <;>
        simp [Operation.ownFactor, Operation.partnerFactor, bit, Amplitude.mul_comm]
  | cnot control target =>
    obtain ⟨-, inside, apart⟩ := Operation.fits_cnot.mp fits
    have differ : control.toNat ≠ target.toNat := fun same => apart (UInt32.toNat_inj.mp same)
    show (v.applyCnot control.toNat target.toNat inside).get k = _
    rw [get_applyCnot inside differ]
    cases bit : k.val.testBit control.toNat <;>
      simp [Operation.ownFactor, Operation.partnerFactor, Operation.target, bit]

variable {a b : Operation}

/-- The partner of an index for one operation has the factors of the index for another one that
shares no qubit with it. -/
theorem factors_partner (apart : a.qubits.Disjoint b.qubits) (fits : b.Fits n)
    (k : Fin (2 ^ n)) :
    a.ownFactor R (partner b.target.toNat (b.target_lt fits) k).val = a.ownFactor R k.val ∧
      a.partnerFactor R (partner b.target.toNat (b.target_lt fits) k).val =
        a.partnerFactor R k.val := by
  refine Operation.factors_congr R fun q member => ?_
  refine testBit_partner_of_ne _ _ (fun same => ?_) k
  rw [← UInt32.toNat_inj.mp same] at member
  exact apart member b.target_mem

/-- Operations that share no qubit can be applied in either order. -/
theorem apply_comm (apart : a.qubits.Disjoint b.qubits) (fits_a : a.Fits n) (fits_b : b.Fits n)
    (v : Statevector R n) :
    (v.apply a fits_a).apply b fits_b = (v.apply b fits_b).apply a fits_a := by
  apply ext_get
  intro k
  obtain ⟨own_a, partner_a⟩ := factors_partner (R := R) apart fits_b k
  obtain ⟨own_b, partner_b⟩ := factors_partner (R := R) apart.symm fits_a k
  rw [get_apply fits_b, get_apply fits_a, get_apply fits_a, get_apply fits_a, get_apply fits_b,
    get_apply fits_b, own_a, partner_a, own_b, partner_b, partner_comm (a.target_lt fits_a)]
  simp only [Amplitude.mul, Amplitude.add, Amplitude.mk.injEq]
  constructor <;> ring

end Statevector

end CircuitBench
