import CircuitBench.Proofs.Backend.Generations
import CircuitBench.Proofs.Sampling.Checked
import CircuitBench.Proofs.Service.Completion
import CircuitBench.Proofs.State.Checked

/-!
# No step of a simulation fails

A simulation checks nothing on its way: that it shifts ones within a word, reads and writes inside
of its arrays and never adds up too much rests on what has been checked before it is started. The
settings have a limit of at most 28 qubits, the simulator has the same limit, a circuit has a qubit,
and its operations fit. There are some shots, and 32 bits count them. So a simulation with every
step checked comes to the same state and the same counts.
-/

namespace CircuitBench

open Sampling

namespace Simulator

section Counts

variable (R : Type) [Chance R]

/-- The histogram that the sampling interface leads to, which counts outcomes with 32 bits, with
every step checked. -/
def sampledChecked? (width shots : Nat) (outcomes : List Nat) : Option Histogram := do
  let shares : List (Nat × R) ← frequenciesChecked? shots (← tallyChecked? 32 outcomes)
  Histogram.collectChecked? (shares.filterMap fun (outcome, share) =>
    let count := Chance.wholePart (share * Chance.ofCount shots)
    if count = 0 then none else some (bitstring outcome width, UInt64.ofNat count))

/-- The histogram of the execute interface, which counts bitstrings with 64 bits, with every step
checked. -/
def executedChecked? (width : Nat) (outcomes : List Nat) : Option Histogram := do
  let table ← tallyChecked? 64 (outcomes.map fun outcome => bitstring outcome width)
  Histogram.collectChecked? (table.map fun (key, n) => (key, UInt64.ofNat n))

/-- The histogram that a generation makes of the shots of a circuit, with every step checked. -/
def countsChecked? (generation : Generation) (words : WordSource) (circuit : Circuit)
    (shots : UInt32) : Option Histogram := do
  let state ← circuit.finalStateChecked? R
  let outcomes ← outcomesChecked? (state.map Amplitude.probability) (words.words shots.toNat)
  match generation with
  | .sampling => sampledChecked? R circuit.width.toNat shots.toNat outcomes
  | .legacyExecute => executedChecked? circuit.width.toNat outcomes

variable {R} {words : WordSource} {circuit : Circuit} {shots : UInt32}

theorem toNat_ofNat_le (n : Nat) : (UInt64.ofNat n).toNat ≤ n := by
  rw [UInt64.toNat_ofNat']
  exact Nat.mod_le _ _

/-- What the sampling interface adds up is not more than the shots. -/
theorem exists_pairs_sampledChecked? (rounding : ShareRounding R) (some_shots : shots ≠ 0) :
    ∃ pairs, Histogram.sumOf pairs ≤ shots.toNat ∧
      sampledChecked? R circuit.width.toNat shots.toNat (outcomes R words circuit shots) =
        Histogram.collectChecked? pairs ∧
      counts R .sampling words circuit shots = .collect pairs := by
  have few : (outcomes R words circuit shots).length < 2 ^ 32 := by
    rw [length_outcomes]
    exact shots.toNat_lt
  obtain ⟨table, counted, tallies⟩ := exists_tallyChecked? few
  have all : (table.map Prod.snd).sum = shots.toNat := tallies.sum_eq.trans length_outcomes
  refine ⟨_, ?_, ?_, (quantizedCounts_of_tallies tallies (.refl _)).symm⟩
  · rw [frequencies, List.filterMap_map]
    refine (Histogram.sumOf_filterMap_le ?_).trans_eq all
    rintro ⟨outcome, n⟩ member pair reported
    have upto : n ≤ shots.toNat := all ▸ List.le_sum_of_mem (List.mem_map.mpr ⟨_, member, rfl⟩)
    simp only [Function.comp_apply, Option.mem_def, Option.ite_none_left_eq_some] at reported
    obtain ⟨-, rfl⟩ := reported.imp_right Option.some.inj
    exact (toNat_ofNat_le _).trans (keeps_sampling_le rounding some_shots n upto)
  · rw [sampledChecked?, counted, Option.bind_eq_bind, Option.bind_some,
      frequenciesChecked?_eq (toNat_pos some_shots).ne']
    rfl

/-- What the execute interface adds up is not more than the shots. -/
theorem exists_pairs_executedChecked? :
    ∃ pairs, Histogram.sumOf pairs ≤ shots.toNat ∧
      executedChecked? circuit.width.toNat (outcomes R words circuit shots) =
        Histogram.collectChecked? pairs ∧
      counts R .legacyExecute words circuit shots = .collect pairs := by
  have named : ((outcomes R words circuit shots).map fun outcome =>
      bitstring outcome circuit.width.toNat).length = shots.toNat := by
    rw [List.length_map, length_outcomes]
  have few : shots.toNat < 2 ^ 64 := shots.toNat_lt.trans (by decide)
  obtain ⟨table, counted, tallies⟩ := exists_tallyChecked? (named.trans_lt few)
  refine ⟨_, ?_, ?_, (collect_of_tallies tallies).symm⟩
  · rw [← named, ← tallies.sum_eq, ← List.filterMap_eq_map]
    refine Histogram.sumOf_filterMap_le ?_
    rintro ⟨key, n⟩ - pair reported
    obtain rfl := Option.some.inj reported
    exact toNat_ofNat_le n
  · rw [executedChecked?, counted]
    rfl

/-- On fewer than 64 qubits and with some shots no check fails, and none does if the counts are
added up to their total. -/
theorem countsChecked?_eq (rounding : ShareRounding R) (narrow : circuit.width.toNat < 64)
    (some_shots : shots ≠ 0) (generation : Generation) :
    countsChecked? R generation words circuit shots =
        some (counts R generation words circuit shots) ∧
      (counts R generation words circuit shots).totalChecked? =
        some (counts R generation words circuit shots).total := by
  have pos : 0 < (circuit.finalState R).probabilities.size := by
    rw [Statevector.size_probabilities]
    exact Nat.two_pow_pos _
  have drawn : outcomesChecked? ((circuit.finalState R).toArray.map Amplitude.probability)
      (words.words shots.toNat) = some (outcomes R words circuit shots) :=
    outcomesChecked?_eq pos _
  have collected : ∃ pairs, Histogram.sumOf pairs ≤ shots.toNat ∧
      countsChecked? R generation words circuit shots = Histogram.collectChecked? pairs ∧
        counts R generation words circuit shots = .collect pairs := by
    rw [countsChecked?, circuit.finalStateChecked?_eq narrow]
    simp only [Option.bind_eq_bind, Option.bind_some, drawn]
    cases generation with
    | sampling => exact exists_pairs_sampledChecked? rounding some_shots
    | legacyExecute => exact exists_pairs_executedChecked?
  obtain ⟨pairs, few, checked, same⟩ := collected
  have small : Histogram.sumOf pairs < 2 ^ 64 := few.trans_lt (shots.toNat_lt.trans (by decide))
  rw [checked, same, Histogram.collectChecked?_eq small]
  refine ⟨rfl, Histogram.totalChecked?_eq ?_⟩
  rwa [Histogram.sumOf_entries_collect small]

end Counts

end Simulator

namespace Execution

variable {R : Type} {backend : Backend R} {stateLimit : UInt32} {earlier : Nat} {c : Circuit}
  {options : RunOptions}

theorem began_ofCircuit :
    (ofCircuit backend stateLimit earlier c options).began = begins backend c options := by
  rw [ofCircuit]
  split <;> rfl

theorem begins_of_accepted (accepts : backend.check c options.shots = .now (.ok ())) :
    begins backend c options = true := by
  rw [begins, accepts, Response.within_now]

theorem begins_of_refused {error : BackendError}
    (refuses : backend.check c options.shots = .now (.error error)) :
    begins backend c options = false := by
  rw [begins, refuses, Response.within_now]

/-- On a backend that judges at once an execution ends in an error before it has begun, or its
circuit is accepted. -/
theorem refused_or_accepted {judge : Circuit → UInt32 → Except BackendError Unit}
    (judges : ∀ c shots, backend.check c shots = .now (judge c shots)) (stateLimit : UInt32)
    (earlier : Nat) (d : Description) (options : RunOptions) :
    ((ofDescription backend stateLimit earlier d options).began = false ∧
      ∃ error, (ofDescription backend stateLimit earlier d options).result = .error error) ∨
    ∃ c, d.build = .ok c ∧ backend.check c options.shots = .now (.ok ()) ∧
      ofDescription backend stateLimit earlier d options =
        ofCircuit backend stateLimit earlier c options := by
  cases ready : options.check with
  | error fault =>
    refine .inl ⟨?_, _, result_ofDescription_of_check_error ready⟩
    rw [ofDescription, ready]
    rfl
  | ok =>
    cases built : d.build with
    | error error =>
      refine .inl ⟨?_, _, result_ofDescription_of_build_error ready built⟩
      rw [ofDescription, ready, built]
    | ok c =>
      rw [ofDescription_of_build ready built]
      cases judged : judge c options.shots with
      | error error =>
        have refuses := judged ▸ judges c options.shots
        refine .inl ⟨?_, _, result_ofCircuit_of_refused stateLimit refuses⟩
        rw [began_ofCircuit, begins_of_refused refuses]
      | ok => exact .inr ⟨c, rfl, judged ▸ judges c options.shots, rfl⟩

end Execution

namespace Service

/-- A request comes to an error before a simulation is started, or its circuit is accepted by the
simulator and run there. -/
theorem refused_or_accepted (R : Type) [Chance R] (machine : Simulator.Machine)
    {settings : Settings} (supported : settings.Supported) (request : SimulateRequest)
    (earlier : Nat) :
    (((builtIn R machine settings).run earlier request).began = false ∧
      ∃ error, ((builtIn R machine settings).run earlier request).result = .error error) ∨
    ∃ c, request.description.build = .ok c ∧
      (simulator R machine settings).check c (settings.shotsOf request) = .now (.ok ()) ∧
      (builtIn R machine settings).run earlier request =
        .ofCircuit (simulator R machine settings) settings.execution.statevectorMaxQubits earlier c
          (settings.runOptions request) := by
  by_cases admits : settings.Admits request
  · rw [run_builtIn_of_admits supported admits]
    exact Execution.refused_or_accepted (fun _ _ => rfl) _ _ _ _
  · obtain ⟨fault, refused⟩ := exists_fault_of_not_admits (R := R) admits earlier
    have run : (builtIn R machine settings).run earlier request = .refused (.request fault) :=
      refused _
    rw [run]
    exact .inl ⟨rfl, _, rfl⟩

/-- Whatever is asked for under settings that pass their check, either no simulation is started, and
there is an error, or the circuit has from 1 to 28 qubits, there are some shots, and nothing fails
that a simulation checks: the widths of shifts, the indices of qubits, amplitudes and running sums,
the place before the end of the running sums, the counters of outcomes, the shots that counts are
divided by, and the sums of counts and their total. The result is what it comes to, unless the
machine takes longer than the settings allow. -/
theorem simulations_pass_all_checks (machine : Simulator.Machine) {settings : Settings}
    (valid : settings.check = .ok ()) (request : SimulateRequest) (earlier : Nat) :
    let execution := (builtIn Float machine settings).run earlier request
    (execution.began = false → ∃ error, execution.result = .error error) ∧
    (execution.began = true → ∃ c state counts total,
      request.description.build = .ok c ∧ 1 ≤ c.width ∧ c.width ≤ 28 ∧
      settings.shotsOf request ≠ 0 ∧
      c.finalStateChecked? Float = some state ∧
      Simulator.countsChecked? Float settings.backend.preference.first
        (machine.wordsOf settings.backend.seed) c (settings.shotsOf request) = some counts ∧
      counts.totalChecked? = some total ∧
      execution.result =
        if settings.InTime machine earlier request c then
          .ok
            { counts
              statevector := if c.width ≤ settings.execution.statevectorMaxQubits then some state
                else none
              width := c.width, depth := c.depth, gateCount := c.gateCount }
        else .error (.timedOut settings.execution.deadline)) := by
  have supported := (Settings.coherent_of_check valid).supported
  obtain ⟨idle, failed⟩ | ⟨c, built, accepted, run⟩ :=
    refused_or_accepted Float machine supported request earlier
  · exact ⟨fun _ => failed, fun began => absurd (idle.symm.trans began) Bool.false_ne_true⟩
  · have started : ((builtIn Float machine settings).run earlier request).began = true := by
      rw [run, Execution.began_ofCircuit]
      exact Execution.begins_of_accepted accepted
    refine ⟨fun idle => absurd (idle.symm.trans started) Bool.false_ne_true, fun _ => ?_⟩
    obtain ⟨within, some_shots, -⟩ := Simulator.check_eq_ok_iff.mp accepted
    have most : c.width ≤ 28 := UInt32.le_trans within supported.le
    have narrow : c.width.toNat < 64 :=
      (UInt32.le_iff_toNat_le.mp most).trans_lt (by decide)
    obtain ⟨counted, totalled⟩ := Simulator.countsChecked?_eq Binary64.shareRounding narrow
      some_shots settings.backend.preference.first
    refine ⟨c, _, _, _, built, UInt32.le_iff_toNat_le.mpr c.width_pos, most, some_shots,
      c.finalStateChecked?_eq narrow, counted, totalled, ?_⟩
    rw [run]
    exact result_of_accepted accepted earlier

/-- A coin is tossed twenty times with a seed. -/
theorem simulations_pass_all_checks_coin :
    ({ backend := { seed := some 7 } } : Settings).check = .ok () ∧
    ∃ state counts total,
      coin.finalStateChecked? Float = some state ∧
      Simulator.countsChecked? Float .sampling (.ofSeed 7) coin 20 = some counts ∧
      counts.totalChecked? = some total ∧
      ((builtIn Float perShot { backend := { seed := some 7 } }).run 0
        { description := .ofCircuit coin, shots := some 20 }).result =
          .ok { counts, statevector := some state, width := 1, depth := 1, gateCount := 1 } := by
  have valid : ({ backend := { seed := some 7 } } : Settings).check = .ok () := by decide +kernel
  obtain ⟨-, started⟩ := simulations_pass_all_checks perShot valid
    { description := .ofCircuit coin, shots := some 20 } 0
  obtain ⟨c, state, counts, total, built, -, -, -, computed, counted, totalled, result⟩ :=
    started (by decide +kernel)
  obtain rfl : coin = c := Except.ok.inj ((Description.build_ofCircuit coin).symm.trans built)
  exact ⟨valid, state, counts, total, computed, counted, totalled,
    result.trans (if_pos (by decide +kernel))⟩

end Service

end CircuitBench
