import CircuitBench.Proofs.Backend.Simulator
import CircuitBench.Proofs.Binary64.Zeros
import CircuitBench.Proofs.State.Classical
import Mathlib

/-!
# Circuits with a certain outcome

A circuit without Hadamard gates can be observed in one outcome only. Every shot has it, so
both generations count all shots under its bitstring, whatever the random words are.
-/

namespace CircuitBench

open Sampling

theorem Statevector.getElem_probabilities {R : Type} [Scalar R] {n : Nat} (v : Statevector R n)
    {i : Nat} (h : i < v.probabilities.size) :
    v.probabilities[i] = (v.get ⟨i, v.size_probabilities ▸ h⟩).probability := by
  simp [probabilities, Vector.get_eq_getElem]

namespace Simulator

variable {R : Type} [Chance R] (laws : ChanceLaws R) {words : WordSource} {circuit : Circuit}
  {shots : UInt32}

theorem outcomes_classical (classical : ∀ op ∈ circuit.ops, op.IsClassical)
    (possible : ¬laws.IsZero ((circuit.finalState R).get
      ⟨circuit.classicalOutcome, circuit.classicalOutcome_lt⟩).probability)
    (within : ∀ word ∈ words.words shots.toNat,
      DrawnWithin (circuit.finalState R).probabilities word) :
    outcomes R words circuit shots =
      List.replicate shots.toNat circuit.classicalOutcome := by
  have size := Statevector.size_probabilities (circuit.finalState R)
  have inside : circuit.classicalOutcome < (circuit.finalState R).probabilities.size :=
    size.symm ▸ circuit.classicalOutcome_lt
  have drawn := outcomes_certain laws inside ?_ ?_ within
  · rwa [words.length_words] at drawn
  · rwa [Statevector.getElem_probabilities]
  · intro i h other
    rw [Statevector.getElem_probabilities]
    exact laws.isZero_probability
      (circuit.vanishesBut_finalState laws.toZeroLaws classical ⟨i, size ▸ h⟩ other)

include laws in
/-- Either generation makes all of the shots of all of the shots. -/
theorem keeps_shots (some_shots : shots ≠ 0) (generation : Generation) :
    keeps R shots generation shots.toNat = shots.toNat := by
  cases generation with
  | sampling => exact laws.wholePart_share shots.toNat (toNat_pos some_shots) shots.toNat_lt
  | legacyExecute => rfl

include laws in
/-- Shots that all have the same outcome make a histogram with one entry. -/
theorem entries_counts_replicate (some_shots : shots ≠ 0) {certain : Nat}
    (h : outcomes R words circuit shots = List.replicate shots.toNat certain)
    (inside : certain < 2 ^ circuit.width.toNat) (generation : Generation) :
    (counts R generation words circuit shots).entries =
      [(bitstring certain circuit.width.toNat, shots.toUInt64)] := by
  have shots_ne : shots.toNat ≠ 0 := (toNat_pos some_shots).ne'
  have once : observations R words circuit shots = [(certain, shots.toNat)] := by
    rw [observations, h, observed_replicate inside shots_ne]
  have all : reported (keeps R shots generation) circuit.width.toNat [(certain, shots.toNat)] =
      [(bitstring certain circuit.width.toNat, shots.toUInt64)] := by
    simp [reported, keeps_shots laws some_shots, shots_ne]
  rw [counts_eq, once, all]
  rfl

/-- In the final state of a circuit without Hadamard gates every amplitude vanishes but the one
at the outcome of its run on bits. If that outcome has a probability and every word draws a
number from zero up to the total, an accepted run of either generation counts all shots under
the bitstring of this outcome. -/
theorem classical_circuits_are_certain (classical : ∀ op ∈ circuit.ops, op.IsClassical) :
    (∀ k : Fin (2 ^ circuit.width.toNat), k.val ≠ circuit.classicalOutcome →
      laws.Vanishes ((circuit.finalState R).get k)) ∧
    (¬laws.IsZero ((circuit.finalState R).get
        ⟨circuit.classicalOutcome, circuit.classicalOutcome_lt⟩).probability →
      ∀ (machine : Machine) (generation : Generation) (maxQubits : UInt32)
        (seed : Option UInt64) (earlier : Nat) (shots : UInt32),
        (backend R machine generation maxQubits seed).check circuit shots = .now (.ok ()) →
        (∀ word ∈ (machine.wordsOf seed).words shots.toNat,
          DrawnWithin (circuit.finalState R).probabilities word) →
        ∃ histogram : Histogram,
          (backend R machine generation maxQubits seed).run earlier circuit shots =
            .answer (machine.runTime generation earlier circuit shots) (.ok histogram) ∧
          histogram.entries = [(bitstring circuit.classicalOutcome circuit.width.toNat,
            shots.toUInt64)]) := by
  refine ⟨circuit.vanishesBut_finalState laws.toZeroLaws classical, ?_⟩
  intro possible machine generation maxQubits seed earlier shots accepted within
  obtain ⟨-, some_shots, -⟩ := check_eq_ok_iff.mp accepted
  refine ⟨_, run_of_check accepted earlier, ?_⟩
  exact entries_counts_replicate laws some_shots
    (outcomes_classical laws classical possible within) circuit.classicalOutcome_lt generation

/-- Three bit flips, of which the second is controlled, and a phase. -/
def flipped : Circuit :=
  ⟨4, [.single .x 0, .single .t 0, .cnot 0 2, .single .y 0], by decide, by decide⟩

theorem classical_circuits_are_certain_flipped :
    (∀ op ∈ flipped.ops, op.IsClassical) ∧
    (∀ word ∈ (WordSource.ofSeed 7).words 20,
      DrawnWithin (flipped.finalState Float).probabilities word) ∧
    ∀ generation, ∃ histogram : Histogram,
      (backend Float (WordSource.ofSeed 0) generation 24 (some 7)).run 0 flipped 20 =
        .now (.ok histogram) ∧
      histogram.entries = [("0100", 20)] := by
  have classical : ∀ op ∈ flipped.ops, op.IsClassical := by decide
  have drawn : ((WordSource.ofSeed 7).words 20).all fun word =>
      decide (DrawnWithin (flipped.finalState Float).probabilities word) := by decide +kernel
  have within : ∀ word ∈ (WordSource.ofSeed 7).words 20,
      DrawnWithin (flipped.finalState Float).probabilities word := fun word member =>
    of_decide_eq_true (List.all_eq_true.mp drawn word member)
  have possible : ¬Binary64.IsZero ((flipped.finalState Float).get
      ⟨flipped.classicalOutcome, flipped.classicalOutcome_lt⟩).probability := by decide +kernel
  have outcome : bitstring flipped.classicalOutcome flipped.width.toNat = "0100" := by
    decide +kernel
  obtain ⟨-, runs⟩ := classical_circuits_are_certain Binary64.chanceLaws classical
  refine ⟨classical, within, fun generation => ?_⟩
  have accepted : (backend Float (WordSource.ofSeed 0) generation 24 (some 7)).check flipped 20 =
      .now (.ok ()) := check_eq_ok_iff.mpr (by decide)
  rw [← outcome]
  exact runs possible (WordSource.ofSeed 0) generation 24 (some 7) 0 20 accepted within

end Simulator

end CircuitBench
