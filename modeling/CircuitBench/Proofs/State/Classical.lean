import CircuitBench.Proofs.State.Vanishing
import Mathlib

/-!
# Circuits that only move outcomes

Without Hadamard gates a circuit is a program on bits: X and Y flip a bit, a controlled X adds
the control bit to the target bit, and the phase gates leave the bits alone. Run from all
zeros, the program ends in one outcome, and that is the only outcome whose amplitude can be
other than zero in the final state of the circuit.
-/

namespace CircuitBench

namespace Operation

/-- The operation is none of the Hadamard gate. -/
def IsClassical (op : Operation) : Prop :=
  op.gate ∈ [.single .x, .single .y, .single .z, .single .s, .single .t, .cnot]

instance (op : Operation) : Decidable op.IsClassical :=
  inferInstanceAs (Decidable (op.gate ∈ _))

/-- What a classical operation does to bits; bit `k` of the number is that of qubit `k`. -/
def onBits (bits : Nat) : Operation → Nat
  | single .x target => bits ^^^ 2 ^ target.toNat
  | single .y target => bits ^^^ 2 ^ target.toNat
  | cnot control target => if bits.testBit control.toNat then bits ^^^ 2 ^ target.toNat else bits
  | _ => bits

theorem onBits_lt {op : Operation} {n bits : Nat} (fits : op.Fits n) (h : bits < 2 ^ n) :
    op.onBits bits < 2 ^ n := by
  have flipped : ∀ q < n, bits ^^^ 2 ^ q < 2 ^ n := fun q hq =>
    Statevector.partner_lt hq ⟨bits, h⟩
  cases op with
  | single gate target =>
    have inside := fits_single.mp fits
    cases gate with
    | x => exact flipped _ inside
    | y => exact flipped _ inside
    | h => exact h
    | z => exact h
    | s => exact h
    | t => exact h
  | cnot control target =>
    simp only [onBits]
    split
    · exact flipped _ (fits_cnot.mp fits).2.1
    · exact h

end Operation

/-- The bits that a circuit makes of zeros, one operation after the other. -/
def Circuit.classicalOutcome (c : Circuit) : Nat :=
  c.ops.foldl Operation.onBits 0

namespace Statevector

variable {R : Type} [Scalar R] {n : Nat} (laws : ZeroLaws R)

/-- Every amplitude vanishes but the one at an index. -/
def VanishesBut (bits : Nat) (v : Statevector R n) : Prop :=
  ∀ k : Fin (2 ^ n), k.val ≠ bits → laws.Vanishes (v.get k)

theorem vanishesBut_initial : (initial R n).VanishesBut laws 0 := by
  intro k other
  have zero : (initial R n).get k = .zero := by
    simp [initial, Vector.get_eq_getElem, other.symm]
  rw [zero]
  exact laws.vanishes_zero

theorem partner_ne {q bits : Nat} (hq : q < n) {k : Fin (2 ^ n)}
    (other : k.val ≠ bits ^^^ 2 ^ q) : (partner q hq k).val ≠ bits := by
  rintro rfl
  exact other (congrArg Fin.val (partner_partner q hq k)).symm

theorem vanishesBut_mapSet {q bits : Nat} {g : Amplitude R → Amplitude R} {v : Statevector R n}
    (keeps : ∀ a, laws.Vanishes a → laws.Vanishes (g a)) (h : v.VanishesBut laws bits) :
    (v.mapSet q g).VanishesBut laws bits := by
  intro k other
  rw [get_mapSet]
  split
  · exact keeps _ (h k other)
  · exact h k other

theorem vanishesBut_applyCnot {control target bits : Nat} (ht : target < n)
    (apart : control ≠ target) {v : Statevector R n} (h : v.VanishesBut laws bits) :
    (v.applyCnot control target ht).VanishesBut laws
      (if bits.testBit control then bits ^^^ 2 ^ target else bits) := by
  intro k other
  rw [get_applyCnot ht apart]
  -- The control bits of an index and of its partner agree, so both are moved or neither is.
  by_cases set : k.val.testBit control = true
  · rw [if_pos set]
    refine h _ fun moved => other ?_
    have kept := testBit_partner_of_ne target ht apart.symm k
    rw [moved, set] at kept
    rw [if_pos kept, ← moved]
    exact (congrArg Fin.val (partner_partner target ht k)).symm
  · rw [if_neg set]
    refine h k fun same => other ?_
    rw [same] at set
    rw [if_neg set, same]

/-- An operation takes the one index along as it takes bits. -/
theorem vanishesBut_apply {op : Operation} (classical : op.IsClassical) (fits : op.Fits n)
    {bits : Nat} {v : Statevector R n} (h : v.VanishesBut laws bits) :
    (v.apply op fits).VanishesBut laws (op.onBits bits) := by
  cases op with
  | single gate target =>
    have inside := Operation.fits_single.mp fits
    cases gate with
    | h => exact absurd classical (by simp [Operation.IsClassical])
    | x =>
      intro k other
      have moved := h _ (partner_ne inside other)
      exact (get_applySingle_x _ inside v k).symm ▸ moved
    | y =>
      intro k other
      have moved := h _ (partner_ne inside other)
      have here := get_applySingle_y _ inside v k
      rw [apply, here]
      split
      · exact laws.vanishes_mul' laws.finite_neg_unit moved
      · exact laws.vanishes_mul' laws.finite_unit moved
    | z => exact vanishesBut_mapSet laws (fun _ => laws.vanishes_neg) h
    | s =>
      exact vanishesBut_mapSet laws (fun _ a => laws.vanishes_mul a laws.isFinite_quarterTurn) h
    | t =>
      exact vanishesBut_mapSet laws (fun _ a => laws.vanishes_mul a laws.isFinite_eighthTurn) h
  | cnot control target =>
    obtain ⟨-, inside, apart⟩ := Operation.fits_cnot.mp fits
    have differ : control.toNat ≠ target.toNat := fun same => apart (UInt32.toNat_inj.mp same)
    exact vanishesBut_applyCnot laws inside differ h

/-- A run of operations ends at the index where the run of the bits ends. -/
theorem vanishesBut_applyAll {ops : List Operation} (classical : ∀ op ∈ ops, op.IsClassical)
    (fits : ∀ op ∈ ops, op.Fits n) {bits : Nat} {v : Statevector R n}
    (h : v.VanishesBut laws bits) :
    (v.applyAll ops fits).VanishesBut laws (ops.foldl Operation.onBits bits) :=
  applyAll_induction Operation.onBits (fun bits v => v.VanishesBut laws bits)
    (fun _ member _ _ _ => vanishesBut_apply laws (classical _ member) _) fits h

end Statevector

namespace Circuit

theorem classicalOutcome_lt (c : Circuit) : c.classicalOutcome < 2 ^ c.width.toNat := by
  have run : ∀ (ops : List Operation) (bits : Nat), (∀ op ∈ ops, op.Fits c.width.toNat) →
      bits < 2 ^ c.width.toNat → ops.foldl Operation.onBits bits < 2 ^ c.width.toNat := by
    intro ops
    induction ops with
    | nil => exact fun bits _ h => h
    | cons op rest ih =>
      intro bits fits h
      exact ih _ (fun o m => fits o (List.mem_cons_of_mem op m))
        (Operation.onBits_lt (fits op List.mem_cons_self) h)
  exact run c.ops 0 c.fits (Nat.two_pow_pos _)

theorem vanishesBut_finalState {R : Type} [Scalar R] (laws : ZeroLaws R) {c : Circuit}
    (classical : ∀ op ∈ c.ops, op.IsClassical) :
    (c.finalState R).VanishesBut laws c.classicalOutcome :=
  Statevector.vanishesBut_applyAll laws classical c.fits (Statevector.vanishesBut_initial laws)

end Circuit

end CircuitBench
