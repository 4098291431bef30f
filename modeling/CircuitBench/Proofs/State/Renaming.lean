import Mathlib
import CircuitBench.Proofs.Circuit.Renaming
import CircuitBench.Proofs.State.Sweep

/-!
# The state of a circuit with its qubits renamed

A permutation of the qubits carries every index to the one whose bits it moves along. If the
amplitudes of one state are those of another at the indices carried there, this stays so when an
operation is applied to the one state and the renamed operation to the other: what a sweep leaves
at an index depends on the bits of the operation's qubits and on the amplitudes at the index and
its partner, and partners are carried to partners. No law of arithmetic is used, as the very same
operations are carried out on the very same numbers.
-/

namespace CircuitBench

namespace Statevector

variable {n : Nat}

/-- Bit `p k` of the index `j` is bit `k` of the index `i`. -/
def Carries (p : Equiv.Perm (Fin n)) (i j : Fin (2 ^ n)) : Prop :=
  ∀ k : Fin n, j.val.testBit (p k) = i.val.testBit k

/-- One state has at every carried index the amplitude that the other has at the index. -/
def Renames {R : Type} (p : Equiv.Perm (Fin n)) (v w : Statevector R n) : Prop :=
  ∀ i j, Carries p i j → w.get j = v.get i

variable {p : Equiv.Perm (Fin n)} {i j : Fin (2 ^ n)}

/-- The bits of its qubits determine an index. -/
theorem eq_of_testBit_eq (bits : ∀ k : Fin n, i.val.testBit k = j.val.testBit k) : i = j := by
  apply Fin.ext
  refine Nat.eq_of_testBit_eq fun k => ?_
  by_cases inside : k < n
  · exact bits ⟨k, inside⟩
  · have beyond : (2 : Nat) ^ n ≤ 2 ^ k := Nat.pow_le_pow_right Nat.two_pos (Nat.not_lt.mp inside)
    rw [Nat.testBit_lt_two_pow (i.isLt.trans_le beyond),
      Nat.testBit_lt_two_pow (j.isLt.trans_le beyond)]

theorem Carries.symm (carries : Carries p i j) : Carries p.symm j i := by
  intro k
  rw [← carries (p.symm k), p.apply_symm_apply]

theorem existsUnique_carries (p : Equiv.Perm (Fin n)) (i : Fin (2 ^ n)) :
    ∃! j, Carries p i j := by
  refine ⟨Fin.ofBits fun k => i.val.testBit (p.symm k), ?_, ?_⟩
  · intro k
    simp
  · intro j carries
    apply eq_of_testBit_eq
    intro k
    rw [← carries.symm k]
    simp

/-- A bit that is carried along differs in both partners, all others are carried as before. -/
theorem Carries.partner (carries : Carries p i j) (q : Fin n) :
    Carries p (partner q q.isLt i) (partner (p q) (p q).isLt j) := by
  intro k
  by_cases same : k = q
  · subst same
    rw [testBit_partner, testBit_partner, carries k]
  · have apart : (p q).val ≠ (p k).val := fun h => same (p.injective (Fin.ext h.symm))
    have apart_old : q.val ≠ k.val := fun h => same (Fin.ext h.symm)
    rw [testBit_partner_of_ne _ _ apart, testBit_partner_of_ne _ _ apart_old, carries k]

theorem Carries.eq_zero (carries : Carries p i j) (zero : j.val = 0) : i.val = 0 := by
  have same : i = ⟨0, Nat.two_pow_pos n⟩ := by
    apply eq_of_testBit_eq
    intro k
    rw [← carries k, zero, Nat.zero_testBit, Nat.zero_testBit]
  rw [same]

/-- Zero is carried to zero and nothing else is. -/
theorem Carries.eq_zero_iff (carries : Carries p i j) : j.val = 0 ↔ i.val = 0 :=
  ⟨carries.eq_zero, carries.symm.eq_zero⟩

namespace Renames

variable {R : Type} {v w : Statevector R n} {q q' : Nat}

theorem mixPairs (related : Renames p v w) (hq : q < n) (hq' : q' < n) (moved : q' = p ⟨q, hq⟩)
    {chosen chosen' : Nat → Bool} (f : Amplitude R → Amplitude R → Amplitude R × Amplitude R)
    (choice : ∀ i j, Carries p i j → chosen' j.val = chosen i.val) :
    Renames p (v.mixPairs q hq chosen f) (w.mixPairs q' hq' chosen' f) := by
  intro i j carries
  subst moved
  have partners := carries.partner ⟨q, hq⟩
  have bit := carries ⟨q, hq⟩
  rw [get_mixPairs, get_mixPairs, related i j carries, related _ _ partners, choice i j carries,
    choice _ _ partners, bit]

theorem mapSet (related : Renames p v w) (hq : q < n) (moved : q' = p ⟨q, hq⟩)
    (g : Amplitude R → Amplitude R) : Renames p (v.mapSet q g) (w.mapSet q' g) := by
  intro i j carries
  subst moved
  rw [get_mapSet, get_mapSet, related i j carries, carries ⟨q, hq⟩]

variable [Scalar R]

theorem initial : Renames p (initial R n) (initial R n) := by
  intro i j carries
  rw [get_initial, get_initial]
  simp only [carries.eq_zero_iff]

theorem applySingle (related : Renames p v w) (gate : SingleGate) (hq : q < n) (hq' : q' < n)
    (moved : q' = p ⟨q, hq⟩) :
    Renames p (v.applySingle gate q hq) (w.applySingle gate q' hq') := by
  cases gate with
  | h => exact related.mixPairs hq hq' moved _ fun _ _ _ => rfl
  | x => exact related.mixPairs hq hq' moved _ fun _ _ _ => rfl
  | y => exact related.mixPairs hq hq' moved _ fun _ _ _ => rfl
  | z => exact related.mapSet hq moved _
  | s => exact related.mapSet hq moved _
  | t => exact related.mapSet hq moved _

end Renames

end Statevector

namespace Statevector.Renames

variable {R : Type} [Scalar R] {width : UInt32} {p : Equiv.Perm (Fin width.toNat)}
  {v w : Statevector R width.toNat}

/-- The renamed operation does to the one state what the operation does to the other. -/
theorem apply (related : Renames p v w) {op : Operation} (fits : op.Fits width.toNat)
    (fits' : (op.rename (renameQubit p)).Fits width.toNat) :
    Renames p (v.apply op fits) (w.apply (op.rename (renameQubit p)) fits') := by
  cases op with
  | single gate target =>
    have inside := Operation.fits_single.mp fits
    exact related.applySingle gate inside _ (toNat_renameQubit p inside)
  | cnot control target =>
    obtain ⟨inside_control, inside, -⟩ := Operation.fits_cnot.mp fits
    refine related.mixPairs inside _ (toNat_renameQubit p inside) _ ?_
    intro i j carries
    rw [toNat_renameQubit p inside_control]
    exact carries ⟨control.toNat, inside_control⟩

/-- The renamed operations do to the one state what the operations do to the other. -/
theorem applyAll (related : Renames p v w) {ops : List Operation}
    (fits : ∀ op ∈ ops, op.Fits width.toNat)
    (fits' : ∀ op ∈ ops.map (Operation.rename (renameQubit p)), op.Fits width.toNat) :
    Renames p (v.applyAll ops fits)
      (w.applyAll (ops.map (Operation.rename (renameQubit p))) fits') := by
  induction ops generalizing v w with
  | nil => exact related
  | cons op rest ih => exact ih (related.apply _ _) _ _

end Statevector.Renames

/-- Whatever the arithmetic on amplitudes, a circuit with renamed qubits has the amplitudes of the
circuit at the indices whose bits are renamed in the same way, and its levels and its depth. -/
theorem renaming_moves_amplitudes (R : Type) [Scalar R] (c : Circuit)
    (p : Equiv.Perm (Fin c.width.toNat)) :
    (∀ i : Fin (2 ^ c.width.toNat), ∃! j : Fin (2 ^ c.width.toNat),
      ∀ k : Fin c.width.toNat, j.val.testBit (p k) = i.val.testBit k) ∧
    (∀ i j : Fin (2 ^ c.width.toNat),
      (∀ k : Fin c.width.toNat, j.val.testBit (p k) = i.val.testBit k) →
        ((c.rename p).finalState R : Statevector R c.width.toNat).get j =
          (c.finalState R).get i) ∧
    (c.rename p).levels = c.levels ∧ (c.rename p).depth = c.depth := by
  refine ⟨Statevector.existsUnique_carries p, ?_, c.levels_rename p, c.depth_rename p⟩
  exact Statevector.Renames.initial.applyAll c.fits (c.rename p).fits

end CircuitBench
