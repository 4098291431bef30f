import CircuitBench.Proofs.Backend.Certainty
import CircuitBench.Proofs.Backend.Selection
import CircuitBench.Proofs.Binary64.Signs
import CircuitBench.Proofs.Sampling.Bitstring
import CircuitBench.Proofs.Service.Capacity
import CircuitBench.Proofs.Service.Lifecycle
import Mathlib

/-!
# What a completed execution reports

The counts of a completed execution come from a run of the backend, and the state from another
computation of the same circuit. On a built-in simulator the two belong together: the state is
there if and only if the circuit is small enough, every bitstring that is counted names an outcome,
and by the state this outcome is possible.
-/

namespace CircuitBench

open Sampling

/-- A completed execution has built its circuit, and reports what the calls on the backend have
come to. -/
theorem Execution.Course.exists_consultation {R : Type} {backend : Backend R}
    {stateLimit : UInt32} {earlier : Nat} {d : Description} {options : RunOptions}
    {phases : List Phase} {result : RunResult R}
    (course : Course backend stateLimit earlier d options phases (.ok result)) :
    ∃ c t, d.build = .ok c ∧ result.width = c.width ∧
      Consultation backend stateLimit earlier c options.shots t
        (.ok (result.counts, result.statevector)) := by
  cases course with
  | completed _ built answers _ => exact ⟨_, _, built, rfl, answers⟩

namespace Simulator

variable {R : Type} [Chance R]

/-- Whatever is selected among the built-in simulators is one of the preferred generation. -/
theorem exists_limit_of_select {machine : Simulator.Machine} {preference : Preference}
    {setup : BackendOptions} {selected : Backend R}
    (h : (registry R machine).select preference setup = .ok selected) :
    ∃ limit, selected = backend R machine preference.first limit setup.seed := by
  cases limited : qubitLimit setup with
  | error error =>
    rw [select_registry_of_error limited] at h
    cases h
  | ok limit =>
    rw [select_registry limited] at h
    exact ⟨limit, (Except.ok.inj h).symm⟩

/-- What a simulator reports are its counts, and its state if the circuit is small enough. -/
theorem eq_of_consultation {machine : Machine} {generation : Generation} {maxQubits : UInt32}
    {seed : Option UInt64} {circuit : Circuit} {shots stateLimit : UInt32} {earlier t : Nat}
    {reported : Histogram} {state : Option (Array (Amplitude R))}
    (consultation : Consultation (backend R machine generation maxQubits seed) stateLimit earlier
      circuit shots t (.ok (reported, state))) :
    reported = counts R generation (machine.wordsOf seed) circuit shots ∧
      state = if circuit.width ≤ stateLimit then some (circuit.finalState R).toArray else none := by
  have accepted_of : ∀ {t}, (backend R machine generation maxQubits seed).check circuit shots =
      .answer t (.ok ()) →
        (backend R machine generation maxQubits seed).check circuit shots = .now (.ok ()) := by
    intro t check
    rw [check]
    exact congrArg (Response.answer · _) (Response.answer.inj check).1.symm
  have accepted :
      (backend R machine generation maxQubits seed).check circuit shots = .now (.ok ()) := by
    cases consultation with
    | wide check _ _ => exact accepted_of check
    | shown check _ _ _ => exact accepted_of check
  -- The calls come to one outcome only.
  have same := (Execution.consult_eq_answer_iff.mpr consultation).symm.trans
    (Execution.consult_eq_answer_iff.mpr (consultation_of_check accepted stateLimit earlier))
  exact Prod.mk.inj (Except.ok.inj (Response.answer.inj same).2)

section Counted

variable {words : WordSource} {circuit : Circuit} {shots : UInt32} {generation : Generation}
  {key : String} {count : UInt64}

/-- Every entry of the counts is made of an outcome that was drawn. -/
theorem exists_outcome_of_mem_counts
    (h : (key, count) ∈ (counts R generation words circuit shots).entries) :
    ∃ outcome ∈ outcomes R words circuit shots, ∃ n ≤ shots.toNat,
      keeps R shots generation n ≠ 0 ∧ key = bitstring outcome circuit.width.toNat ∧
        count = UInt64.ofNat (keeps R shots generation n) := by
  rw [counts_eq, observations, (Histogram.collect_perm (nodup_reported _)).mem_iff] at h
  obtain ⟨⟨outcome, n⟩, kept, named⟩ := List.mem_map.mp h
  obtain ⟨seen, positive⟩ := List.mem_filter.mp kept
  obtain ⟨-, occurs, rfl⟩ := mem_observed.mp seen
  obtain ⟨rfl, rfl⟩ := Prod.mk.inj named
  refine ⟨outcome, List.count_pos_iff.mp (Nat.pos_of_ne_zero occurs), _, ?_,
    of_decide_eq_true positive, rfl, rfl⟩
  exact List.count_le_length.trans_eq length_outcomes

/-- Only outcomes with a probability above zero are counted. -/
theorem possible_of_mem_outcomes (steady : Steady (circuit.finalState R).probabilities)
    (within : ∀ word ∈ words.words shots.toNat,
      DrawnWithin (circuit.finalState R).probabilities word)
    {outcome : Nat} (drawn : outcome ∈ outcomes R words circuit shots) :
    Chance.atMost ((circuit.finalState R).get ⟨outcome, outcomes_lt outcome drawn⟩).probability
      0 = false := by
  have inside : outcome < (circuit.finalState R).probabilities.size :=
    (Statevector.size_probabilities (circuit.finalState R)).symm ▸ outcomes_lt outcome drawn
  have possible := Sampling.possible_of_mem_outcomes steady within drawn inside
  rwa [Statevector.getElem_probabilities] at possible

end Counted

/-- In binary64 a count of shots, and what is left of it, fits into 64 bits. -/
theorem keeps_lt (shots : UInt32) (generation : Generation) {n : Nat} (h : n ≤ shots.toNat) :
    keeps Float shots generation n < 2 ^ 64 := by
  cases generation with
  | sampling => exact UInt64.toNat_lt _
  | legacyExecute => exact (h.trans_lt shots.toNat_lt).trans (by decide)

end Simulator

/-- If an execution on a built-in simulator completes, its counts and its state describe the final
state of one circuit. The state is there if and only if the circuit has no more qubits than states
are shown for, and has an amplitude for each outcome. Every bitstring in the counts has a count
above zero and consists of one bit for each qubit, with qubit 0 on the right. If every word draws a
number from zero up to the total, the outcome that it names has a probability above zero. -/
theorem counts_and_state_describe_final_state {machine : Simulator.Machine}
    {preference : Preference} {setup : BackendOptions} {backend : Backend Float}
    {stateLimit : UInt32} {earlier : Nat} {d : Description} {options : RunOptions}
    {result : RunResult Float}
    (selected : (Simulator.registry Float machine).select preference setup = .ok backend)
    (completed : (Execution.ofDescription backend stateLimit earlier d options).result =
      .ok result) :
    ∃ c : Circuit, d.build = .ok c ∧ result.width = c.width ∧
      (result.statevector.isSome ↔ c.width ≤ stateLimit) ∧
      (∀ state, result.statevector = some state →
        state = (c.finalState Float).toArray ∧ state.size = 2 ^ c.width.toNat) ∧
      ∀ key count, (key, count) ∈ result.counts.entries →
        0 < count ∧ key.length = c.width.toNat ∧
        ∃ k : Fin (2 ^ c.width.toNat),
          (∀ q < c.width.toNat,
            key.toList.reverse[q]? = some (if k.val.testBit q then '1' else '0')) ∧
          ((∀ word ∈ (machine.wordsOf setup.seed).words options.shots.toNat,
              DrawnWithin (c.finalState Float).probabilities word) →
            ¬((c.finalState Float).get k).probability ≤ 0) := by
  obtain ⟨limit, rfl⟩ := Simulator.exists_limit_of_select selected
  have course := Execution.course_ofDescription
    (Simulator.backend Float machine preference.first limit setup.seed) stateLimit earlier d options
  rw [completed] at course
  obtain ⟨c, t, built, width, consultation⟩ := course.exists_consultation
  obtain ⟨counted, state⟩ := Simulator.eq_of_consultation consultation
  refine ⟨c, built, width, ?_, ?_, ?_⟩
  · rw [state]
    split_ifs with narrow <;> simp [narrow]
  · intro shown here
    rw [state, Option.ite_none_right_eq_some] at here
    obtain rfl := Option.some.inj here.2
    exact ⟨rfl, Vector.size_toArray _⟩
  · intro key count member
    rw [counted] at member
    obtain ⟨outcome, drawn, n, few, kept, rfl, rfl⟩ :=
      Simulator.exists_outcome_of_mem_counts member
    have inside := Simulator.outcomes_lt outcome drawn
    have small := Simulator.keeps_lt options.shots preference.first few
    refine ⟨?_, length_bitstring c.width_pos inside, ⟨outcome, inside⟩, ?_, ?_⟩
    · rw [UInt64.lt_iff_toNat_lt, UInt64.toNat_ofNat_of_lt' small]
      exact Nat.pos_of_ne_zero kept
    · exact fun q h => getElem?_reverse_bitstring inside h
    · intro within below
      have possible := Simulator.possible_of_mem_outcomes (Binary64.steady_probabilities _)
        within drawn
      exact absurd (decide_eq_true below) (Bool.eq_false_iff.mp possible)

def coin : Circuit :=
  ⟨1, [.single .h 0], Nat.one_pos, by decide⟩

theorem counts_and_state_describe_final_state_coin :
    ∃ result, (Execution.ofDescription
        (Simulator.backend Float (WordSource.ofSeed 0) .sampling 24 (some 7)) 1 0
        (.ofCircuit coin) { shots := 20 }).result = .ok result ∧
      result.statevector = some (coin.finalState Float).toArray ∧
      ∀ key count, (key, count) ∈ result.counts.entries →
        0 < count ∧ key.length = 1 ∧
        ∃ k : Fin (2 ^ coin.width.toNat),
          key.toList.reverse[0]? = some (if k.val.testBit 0 then '1' else '0') ∧
          ¬((coin.finalState Float).get k).probability ≤ 0 := by
  have selected : (Simulator.registry Float (WordSource.ofSeed 0)).select .auto
      { name := "built-in", seed := some 7 } =
        .ok (Simulator.backend Float (WordSource.ofSeed 0) .sampling 24 (some 7)) :=
    Simulator.select_registry rfl
  have accepted : (Simulator.backend Float (WordSource.ofSeed 0) .sampling 24 (some 7)).check
      coin 20 = .now (.ok ()) := Simulator.check_eq_ok_iff.mpr (by decide)
  have ready : RunOptions.check { shots := 20 } = .ok () := rfl
  have completed : (Execution.ofCircuit
      (Simulator.backend Float (WordSource.ofSeed 0) .sampling 24 (some 7)) 1 0 coin
      { shots := 20 }).result = .ok _ :=
    (Execution.result_ofCircuit_of_consultation
      (Simulator.consultation_of_check accepted 1 0)).trans (if_pos (by decide))
  rw [← Execution.ofDescription_of_build ready (Description.build_ofCircuit coin)] at completed
  have drawn : ((WordSource.ofSeed 7).words 20).all fun word =>
      decide (DrawnWithin (coin.finalState Float).probabilities word) := by decide +kernel
  obtain ⟨c, built, -, shown, state, counted⟩ :=
    counts_and_state_describe_final_state selected completed
  obtain rfl : coin = c :=
    Except.ok.inj ((Description.build_ofCircuit coin).symm.trans built)
  refine ⟨_, completed, ?_, ?_⟩
  · obtain ⟨vector, here⟩ := Option.isSome_iff_exists.mp (shown.mpr (by decide))
    rw [here, (state vector here).1]
  · intro key count member
    obtain ⟨positive, length, k, bits, possible⟩ := counted key count member
    refine ⟨positive, length, k, bits 0 Nat.one_pos, possible fun word here => ?_⟩
    exact of_decide_eq_true (List.all_eq_true.mp drawn word here)

end CircuitBench
