import CircuitBench.Proofs.State.Update
import CircuitBench.Proofs.State.Vanishing

/-!
# Qubits that are not used

An operation makes the amplitude at an index from those at two indices, which differ in its target
bit alone. If it does not use a qubit, both indices have the same bit of the qubit. So where all
amplitudes with that bit set have vanished, they still do so afterwards, and in the state of all
zeros they have.
-/

namespace CircuitBench

namespace ZeroLaws

variable {R : Type} [Scalar R] (laws : ZeroLaws R) {a b : Amplitude R}

theorem vanishes_add (ha : laws.Vanishes a) (hb : laws.Vanishes b) : laws.Vanishes (a.add b) :=
  ⟨laws.isZero_add ha.1 hb.1, laws.isZero_add ha.2 hb.2⟩

theorem vanishes_sub (ha : laws.Vanishes a) (hb : laws.Vanishes b) : laws.Vanishes (a.sub b) :=
  ⟨laws.isZero_sub ha.1 hb.1, laws.isZero_sub ha.2 hb.2⟩

theorem vanishes_scale {r : R} (finite : laws.IsFinite r) (ha : laws.Vanishes a) :
    laws.Vanishes (.scale r a) :=
  ⟨laws.isZero_mul' finite ha.1, laws.isZero_mul' finite ha.2⟩

/-- What an operation makes of two amplitudes that vanish vanishes. -/
theorem vanishes_update (finite : laws.IsFinite (Scalar.rootHalf : R)) (op : Operation) (i : Nat)
    (ha : laws.Vanishes a) (hb : laws.Vanishes b) : laws.Vanishes (op.update i a b) := by
  cases op with
  | single gate target =>
    cases gate with
    | h =>
      refine laws.vanishes_scale finite ?_
      split
      · exact laws.vanishes_sub hb ha
      · exact laws.vanishes_add ha hb
    | x => exact hb
    | y =>
      simp only [Operation.update]
      split
      · exact laws.vanishes_mul' laws.finite_unit hb
      · exact laws.vanishes_mul' laws.finite_neg_unit hb
    | z =>
      simp only [Operation.update]
      split
      · exact laws.vanishes_neg ha
      · exact ha
    | s =>
      simp only [Operation.update]
      split
      · exact laws.vanishes_mul ha laws.isFinite_quarterTurn
      · exact ha
    | t =>
      simp only [Operation.update]
      split
      · exact laws.vanishes_mul ha laws.isFinite_eighthTurn
      · exact ha
  | cnot control target =>
    simp only [Operation.update]
    split
    · exact hb
    · exact ha

end ZeroLaws

namespace Statevector

variable {R : Type} [Scalar R] (laws : ZeroLaws R) {n : Nat} {k : UInt32}

/-- Every amplitude vanishes whose index has the bit of a qubit set. -/
def VanishesWith (k : UInt32) (v : Statevector R n) : Prop :=
  ∀ i : Fin (2 ^ n), i.val.testBit k.toNat = true → laws.Vanishes (v.get i)

theorem vanishesWith_initial : (initial R n).VanishesWith laws k := by
  intro i set
  have other : i.val ≠ 0 := by
    intro zero
    simp [zero] at set
  rw [get_initial, if_neg other]
  exact laws.vanishes_zero

variable (finite : laws.IsFinite (Scalar.rootHalf : R))

include finite

theorem vanishesWith_apply {op : Operation} (unused : k ∉ op.qubits) (fits : op.Fits n)
    {v : Statevector R n} (h : v.VanishesWith laws k) : (v.apply op fits).VanishesWith laws k := by
  intro i set
  have apart : op.target.toNat ≠ k.toNat := by
    intro same
    exact unused (UInt32.toNat_inj.mp same ▸ op.target_mem)
  rw [get_apply_eq_update]
  refine laws.vanishes_update finite op i (h i set) (h _ ?_)
  rwa [testBit_partner_of_ne op.target.toNat (op.target_lt fits) apart]

theorem vanishesWith_applyAll {ops : List Operation} (unused : ∀ op ∈ ops, k ∉ op.qubits)
    (fits : ∀ op ∈ ops, op.Fits n) {v : Statevector R n} (h : v.VanishesWith laws k) :
    (v.applyAll ops fits).VanishesWith laws k :=
  applyAll_induction (fun (_ : Unit) _ => ()) (fun _ v => v.VanishesWith laws k)
    (fun _ member fits _ _ => vanishesWith_apply laws finite (unused _ member) fits) fits
    (i := ()) h

end Statevector

/-- In the final state of a circuit the amplitudes with the bit of an unused qubit set vanish. -/
theorem Circuit.vanishesWith_finalState {R : Type} [Scalar R] (laws : ZeroLaws R)
    (finite : laws.IsFinite (Scalar.rootHalf : R)) {c : Circuit} {k : UInt32}
    (unused : ∀ op ∈ c.ops, k ∉ op.qubits) : (c.finalState R).VanishesWith laws k :=
  Statevector.vanishesWith_applyAll laws finite unused c.fits
    (Statevector.vanishesWith_initial laws)

end CircuitBench
