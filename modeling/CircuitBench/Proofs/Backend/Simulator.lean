import CircuitBench.Backend.Simulator
import CircuitBench.Proofs.Sampling.Draw
import CircuitBench.Proofs.Sampling.Report
import Mathlib

/-!
# Runs of the simulator

A simulator accepts what stays within its limits, and a run that is accepted answers, after the
time that it takes, with the counts of the shots. Both generations report the observations of the
same outcomes. What they do with a count is all that differs: the execute interface keeps it, and
the sampling interface requantizes it.
-/

namespace CircuitBench.Simulator

open Sampling

section Acceptance

variable {generation : Generation} {maxQubits : UInt32} {seed : Option UInt64}

@[simp] theorem maxQubits_capabilities :
    (capabilities generation maxQubits seed).maxQubits = maxQubits := by
  cases seed <;> rfl

@[simp] theorem maxShots_capabilities :
    (capabilities generation maxQubits seed).maxShots = 1000000 := by
  cases seed <;> rfl

variable {R : Type} [Chance R] {machine : Machine} {circuit : Circuit} {shots : UInt32}

theorem toNat_pos (some_shots : shots ≠ 0) : 0 < shots.toNat :=
  Nat.pos_of_ne_zero fun zero => some_shots (UInt32.toNat_inj.mp zero)

theorem check_eq_ok_iff :
    (backend R machine generation maxQubits seed).check circuit shots = .now (.ok ()) ↔
      circuit.width ≤ maxQubits ∧ shots ≠ 0 ∧ shots ≤ 1000000 := by
  have judged : (backend R machine generation maxQubits seed).check circuit shots =
      .now ((capabilities generation maxQubits seed).accept (nameOf generation) circuit shots) :=
    rfl
  rw [judged, Response.now, Response.now, Response.answer.injEq, Capabilities.accept_eq_ok_iff,
    maxQubits_capabilities, maxShots_capabilities]
  exact and_iff_right rfl

theorem respond_of_accepted {α : Type} {judgement : Except BackendError Unit}
    (accepted : judgement = .ok ()) (time : Nat) (compute : Unit → α) :
    respond judgement time compute = .answer time (.ok (compute ())) := by
  rw [accepted]
  rfl

section

variable (h : (backend R machine generation maxQubits seed).check circuit shots = .now (.ok ()))

include h

/-- An accepted run answers after its time, whatever has been run before. -/
theorem run_of_check (earlier : Nat) :
    (backend R machine generation maxQubits seed).run earlier circuit shots =
      .answer (machine.runTime generation earlier circuit shots)
        (.ok (counts R generation (machine.wordsOf seed) circuit shots)) := by
  have accepted : (capabilities generation maxQubits seed).accept (nameOf generation) circuit
      shots = .ok () := by
    simpa [Capabilities.accept_eq_ok_iff] using check_eq_ok_iff.mp h
  simp only [backend, respond_of_accepted accepted]

/-- A circuit that is accepted with some shots shows its state after the time of the state. -/
theorem statevector_of_check :
    (backend R machine generation maxQubits seed).statevector circuit =
      .answer (machine.stateTime generation circuit) (.ok (circuit.finalState R).toArray) := by
  have accepted : (capabilities generation maxQubits seed).accept (nameOf generation) circuit 1 =
      .ok () := by
    refine Capabilities.accept_eq_ok_iff.mpr ⟨?_, by decide, ?_⟩
    · simpa using (check_eq_ok_iff.mp h).1
    · simp
  simp only [backend, respond_of_accepted accepted]

end

end Acceptance

section Counts

variable {R : Type} [Chance R] {words : WordSource} {circuit : Circuit} {shots : UInt32}

@[simp] theorem length_outcomes :
    (outcomes R words circuit shots).length = shots.toNat := by
  rw [outcomes, Sampling.length_outcomes, words.length_words]

theorem outcomes_lt : ∀ k ∈ outcomes R words circuit shots, k < 2 ^ circuit.width.toNat := by
  intro k member
  have size := Statevector.size_probabilities (circuit.finalState R)
  exact size ▸ lt_of_mem_outcomes (size ▸ Nat.two_pow_pos _) member

theorem length_outcomes_lt : (outcomes R words circuit shots).length < 2 ^ 64 := by
  rw [length_outcomes]
  exact lt_trans shots.toNat_lt (by decide)

/-- What a generation makes of a count. -/
def keeps (R : Type) [Chance R] (shots : UInt32) : Generation → Nat → Nat
  | .sampling => requantized R shots.toNat
  | .legacyExecute => id

theorem counts_eq (generation : Generation) :
    counts R generation words circuit shots =
      .collect (reported (keeps R shots generation) circuit.width.toNat
        (observations R words circuit shots)) := by
  cases generation with
  | sampling => exact quantizedCounts_frequencies _
  | legacyExecute => exact exactCounts_observed

variable {generation : Generation}
  (shrinks : ∀ n ≤ shots.toNat, keeps R shots generation n ≤ n)

include shrinks in
/-- A bitstring is counted with what the generation makes of the number of its shots. -/
theorem toNat_count_counts (key : String) :
    ((counts R generation words circuit shots).count key).toNat =
      keeps R shots generation
        (hits circuit.width.toNat (outcomes R words circuit shots) key) := by
  rw [counts_eq]
  refine toNat_count_reported ?_ length_outcomes_lt outcomes_lt key
  rwa [length_outcomes]

include shrinks in
theorem toNat_total_counts :
    (counts R generation words circuit shots).total.toNat =
      ((observations R words circuit shots).map fun e => keeps R shots generation e.2).sum := by
  rw [counts_eq]
  refine toNat_total_reported ?_ length_outcomes_lt outcomes_lt
  rwa [length_outcomes]

include shrinks in
/-- No bitstring is listed with a count of zero. -/
theorem get?_counts_eq_none {key : String}
    (h : (counts R generation words circuit shots).count key = 0) :
    (counts R generation words circuit shots).get? key = none := by
  have nothing : keeps R shots generation 0 = 0 := Nat.le_zero.mp (shrinks 0 (Nat.zero_le _))
  have zero : keeps R shots generation
      (hits circuit.width.toNat (outcomes R words circuit shots) key) = 0 := by
    rw [← toNat_count_counts shrinks key, h]
    rfl
  rw [counts_eq, observations, get?_reported nothing outcomes_lt, if_pos zero]

end Counts

end CircuitBench.Simulator
