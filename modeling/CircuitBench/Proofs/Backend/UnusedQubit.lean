import CircuitBench.Proofs.Binary64.Signs
import CircuitBench.Proofs.Sampling.Bitstring
import CircuitBench.Proofs.Service.Completion
import CircuitBench.Proofs.State.UnusedQubit
import Mathlib

/-!
# Unused qubits are observed as zero

Where an amplitude vanishes the probability is zero, and an outcome with that probability is never
drawn. So no outcome that is drawn has the bit of an unused qubit set, and every bitstring that
either generation counts has a zero for this qubit.
-/

namespace CircuitBench

namespace Binary64

open Float.Model

/-- A zero is not above zero. -/
theorem IsZero.atMost_zero {x : Float} (h : IsZero x) : Chance.atMost x 0 = true := by
  obtain ⟨s, unpacked⟩ := isZero_iff.mp h
  have below : UnpackedFloat.le (.zero s) (.zero .positive) = true := by cases s <;> rfl
  refine decide_eq_true (decide_eq_true ?_)
  change UnpackedFloat.le x.toModel.unpack (.zero .positive) = true
  rwa [unpacked]

theorem isFinite_rootHalf : IsFinite Scalar.rootHalf := by
  decide +kernel

end Binary64

namespace Simulator

open Sampling

section

variable {c : Circuit} {k : UInt32} (unused : ∀ op ∈ c.ops, k ∉ op.qubits)

include unused

/-- No outcome with the bit of an unused qubit set is drawn. -/
theorem testBit_of_mem_outcomes {words : WordSource} {shots : UInt32}
    (within : ∀ word ∈ words.words shots.toNat,
      DrawnWithin (c.finalState Float).probabilities word)
    {outcome : Nat} (drawn : outcome ∈ outcomes Float words c shots) :
    outcome.testBit k.toNat = false := by
  refine Bool.eq_false_iff.mpr fun set => ?_
  have vanishes := c.vanishesWith_finalState Binary64.chanceLaws.toZeroLaws
    Binary64.isFinite_rootHalf unused ⟨outcome, outcomes_lt outcome drawn⟩ set
  have nothing : Binary64.IsZero ((c.finalState Float).get
      ⟨outcome, outcomes_lt outcome drawn⟩).probability :=
    Binary64.chanceLaws.isZero_probability vanishes
  have possible := possible_of_mem_outcomes (Binary64.steady_probabilities _) within drawn
  exact absurd nothing.atMost_zero (Bool.eq_false_iff.mp possible)

/-- Neither generation counts a bitstring that has a one for an unused qubit. -/
theorem zero_of_mem_counts {words : WordSource} {shots : UInt32} {generation : Generation}
    (inside : k < c.width)
    (within : ∀ word ∈ words.words shots.toNat,
      DrawnWithin (c.finalState Float).probabilities word)
    {key : String} {count : UInt64}
    (member : (key, count) ∈ (counts Float generation words c shots).entries) :
    key.length = c.width.toNat ∧ key.toList.reverse[k.toNat]? = some '0' := by
  obtain ⟨outcome, drawn, -, -, -, rfl, -⟩ := exists_outcome_of_mem_counts member
  have below := outcomes_lt outcome drawn
  refine ⟨length_bitstring c.width_pos below, ?_⟩
  rw [getElem?_reverse_bitstring below (UInt32.lt_iff_toNat_lt.mp inside),
    testBit_of_mem_outcomes unused within drawn]
  rfl

/-- If no operation of a circuit uses a qubit, both parts of every amplitude whose index has the bit
of the qubit set are zeros in the final state. An accepted run of either generation counts only
bitstrings with a zero for this qubit, whatever the seed and the number of shots, provided every
random word draws a number from zero up to the total of the probabilities. -/
theorem unused_qubits_stay_zero :
    (∀ i : Fin (2 ^ c.width.toNat), i.val.testBit k.toNat = true →
      Binary64.IsZero ((c.finalState Float).get i).re ∧
        Binary64.IsZero ((c.finalState Float).get i).im) ∧
    (k < c.width → ∀ (machine : Machine) (generation : Generation) (maxQubits : UInt32)
      (seed : Option UInt64) (earlier : Nat) (shots : UInt32),
      (backend Float machine generation maxQubits seed).check c shots = .now (.ok ()) →
      (∀ word ∈ (machine.wordsOf seed).words shots.toNat,
        DrawnWithin (c.finalState Float).probabilities word) →
      ∃ histogram : Histogram,
        (backend Float machine generation maxQubits seed).run earlier c shots =
          .answer (machine.runTime generation earlier c shots) (.ok histogram) ∧
        ∀ key count, (key, count) ∈ histogram.entries →
          key.length = c.width.toNat ∧ key.toList.reverse[k.toNat]? = some '0') := by
  refine ⟨?_, ?_⟩
  · exact c.vanishesWith_finalState Binary64.chanceLaws.toZeroLaws Binary64.isFinite_rootHalf unused
  · intro inside machine generation maxQubits seed earlier shots accepted within
    refine ⟨_, run_of_check accepted earlier, fun key count member => ?_⟩
    exact zero_of_mem_counts unused inside within member

end

/-- The upper of two qubits is not used. -/
def lopsided : Circuit :=
  ⟨2, [.single .h 0, .single .t 0], Nat.two_pos, by decide⟩

theorem unused_qubits_stay_zero_lopsided :
    (∀ op ∈ lopsided.ops, 1 ∉ op.qubits) ∧
    Binary64.IsZero ((lopsided.finalState Float).get ⟨3, by decide⟩).re ∧
    (∀ word ∈ (WordSource.ofSeed 7).words 20,
      DrawnWithin (lopsided.finalState Float).probabilities word) ∧
    ∀ generation, ∃ histogram : Histogram,
      (backend Float (WordSource.ofSeed 0) generation 24 (some 7)).run 0 lopsided 20 =
        .now (.ok histogram) ∧
      ∀ key count, (key, count) ∈ histogram.entries →
        key.length = 2 ∧ key.toList.reverse[1]? = some '0' := by
  have unused : ∀ op ∈ lopsided.ops, 1 ∉ op.qubits := by decide
  have drawn : ((WordSource.ofSeed 7).words 20).all fun word =>
      decide (DrawnWithin (lopsided.finalState Float).probabilities word) := by decide +kernel
  have within : ∀ word ∈ (WordSource.ofSeed 7).words 20,
      DrawnWithin (lopsided.finalState Float).probabilities word := fun word member =>
    of_decide_eq_true (List.all_eq_true.mp drawn word member)
  obtain ⟨vanishes, runs⟩ := unused_qubits_stay_zero unused
  refine ⟨unused, (vanishes ⟨3, by decide⟩ (by decide)).1, within, fun generation => ?_⟩
  have accepted : (backend Float (WordSource.ofSeed 0) generation 24 (some 7)).check lopsided 20 =
      .now (.ok ()) := check_eq_ok_iff.mpr (by decide)
  exact runs (by decide) (WordSource.ofSeed 0) generation 24 (some 7) 0 20 accepted within

end Simulator

end CircuitBench
