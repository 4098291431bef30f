import CircuitBench.Proofs.Backend.Simulator
import CircuitBench.Proofs.Service.Interchange
import CircuitBench.Proofs.Service.Lifecycle

/-!
# What checked settings promise

Settings that pass their check have a limit of qubits that the built-in simulators support, so a
simulator is selected, and it accepts every circuit within the limit. The limit of shots is not
compared with that of the simulator: a request within the limits of the settings is run up to a
million shots, and above that it is refused as a request of the client, even if it has not said how
many shots it wants. What is run is completed if the machine is fast enough for the deadline of the
settings, and otherwise it is timed out, which is not blamed on the client.
-/

namespace CircuitBench

namespace Settings

variable {settings : Settings} {request : SimulateRequest}

/-- The limits and defaults go together. -/
structure Coherent (settings : Settings) : Prop where
  supported : settings.Supported
  some_time : settings.execution.timeoutSecs ≠ 0
  default_some : settings.execution.defaultShots ≠ 0
  default_le : settings.execution.defaultShots ≤ settings.execution.maxShots

theorem coherent_of_check (valid : settings.check = .ok ()) : settings.Coherent := by
  have execution : settings.execution.check = .ok () := by
    rw [check] at valid
    split at valid
    · cases valid
    next execution => exact execution
  rw [ExecutionSettings.check] at execution
  split at execution
  · cases execution
  split at execution
  · cases execution
  next shots =>
    split at execution
    · cases execution
    next time =>
      split at execution
      · cases execution
      next qubits =>
        obtain ⟨default_some, default_le⟩ := not_or.mp shots
        obtain ⟨some_qubits, supported⟩ := not_or.mp qubits
        refine ⟨⟨?_, UInt32.not_lt.mp supported⟩, time, default_some, UInt32.not_lt.mp default_le⟩
        exact UInt32.le_iff_toNat_le.mpr (Simulator.toNat_pos some_qubits)

/-- A request for a circuit within the limit of qubits that says nothing about shots or asks for
some within their limit. -/
structure Proper (settings : Settings) (request : SimulateRequest) (c : Circuit) : Prop where
  built : request.description.build = .ok c
  narrow : request.description.qubits.toInt ≤ settings.execution.maxQubits.toNat
  shots : ∀ shots, request.shots = some shots →
    1 ≤ shots ∧ shots ≤ settings.execution.maxShots

namespace Proper

variable {c : Circuit} (proper : settings.Proper request c)

include proper in
theorem shotsOf_within (coherent : settings.Coherent) :
    settings.shotsOf request ≠ 0 ∧ settings.shotsOf request ≤ settings.execution.maxShots := by
  rw [shotsOf]
  cases asked : request.shots with
  | none => exact ⟨coherent.default_some, coherent.default_le⟩
  | some shots =>
    obtain ⟨some_shots, within⟩ := proper.shots shots asked
    refine ⟨?_, within⟩
    rintro rfl
    exact absurd some_shots (by decide)

include proper in
theorem admits (coherent : settings.Coherent) : settings.Admits request :=
  ⟨(proper.shotsOf_within coherent).2, proper.narrow⟩

include proper in
theorem check_runOptions (coherent : settings.Coherent) :
    (settings.runOptions request).check = .ok () :=
  check_runOptions_iff.mpr ⟨(proper.shotsOf_within coherent).1, coherent.some_time⟩

include proper in
theorem width_le : c.width ≤ settings.execution.maxQubits := by
  have built : (Service.bare Unit settings "").build request.description = .ok c :=
    Service.build_eq_ok_iff.mpr ⟨proper.narrow, proper.built⟩
  exact UInt32.le_iff_toNat_le.mpr (Service.width_le_of_build built)

end Proper

end Settings

/-- The microseconds of a run, and of the state for at most `stateLimit` qubits. -/
def Simulator.Machine.simulationTime (machine : Machine) (generation : Generation)
    (stateLimit : UInt32) (earlier : Nat) (c : Circuit) (shots : UInt32) : Nat :=
  machine.runTime generation earlier c shots +
    if c.width ≤ stateLimit then machine.stateTime generation c else 0

/-- The machine simulates the circuit of a request within the time that the settings give. -/
def Settings.InTime (settings : Settings) (machine : Simulator.Machine) (earlier : Nat)
    (request : SimulateRequest) (c : Circuit) : Prop :=
  machine.simulationTime settings.backend.preference.first settings.execution.statevectorMaxQubits
    earlier c (settings.shotsOf request) ≤ settings.execution.deadline

instance {settings : Settings} {machine : Simulator.Machine} {earlier : Nat}
    {request : SimulateRequest} {c : Circuit} :
    Decidable (settings.InTime machine earlier request c) :=
  inferInstanceAs (Decidable (_ ≤ _))

section Runs

variable {R : Type}

/-- A run for which the backend has counts is completed if they are there by the deadline. -/
theorem Execution.result_ofCircuit_of_consultation {backend : Backend R} {stateLimit : UInt32}
    {earlier t : Nat} {c : Circuit} {options : RunOptions} {counts : Histogram}
    {statevector : Option (Array (Amplitude R))}
    (answers : Consultation backend stateLimit earlier c options.shots t
      (.ok (counts, statevector))) :
    (ofCircuit backend stateLimit earlier c options).result =
      if t ≤ options.deadline then
        .ok { counts, statevector, width := c.width, depth := c.depth, gateCount := c.gateCount }
      else .error (.timedOut options.deadline) := by
  rw [ofCircuit, consult_eq_answer_iff.mpr answers]
  by_cases in_time : t ≤ options.deadline <;> simp [Response.within, in_time]

/-- A run that the backend refuses at once fails with the error of the backend. -/
theorem Execution.result_ofCircuit_of_refused {backend : Backend R} {c : Circuit}
    {options : RunOptions} {earlier : Nat} {error : BackendError} (stateLimit : UInt32)
    (refuses : backend.check c options.shots = .now (.error error)) :
    (ofCircuit backend stateLimit earlier c options).result =
      .error (.ofBackendError error) := by
  rw [ofCircuit, consult, refuses, Response.now_andThen, Response.within_now]

variable [Chance R] {machine : Simulator.Machine} {generation : Generation}
  {maxQubits : UInt32} {seed : Option UInt64} {c : Circuit} {shots : UInt32}

/-- A simulator that accepts a circuit has its counts and, if it is small, its state. -/
theorem Simulator.consultation_of_check
    (accepted : (backend R machine generation maxQubits seed).check c shots = .now (.ok ()))
    (stateLimit : UInt32) (earlier : Nat) :
    Consultation (backend R machine generation maxQubits seed) stateLimit earlier c shots
      (machine.simulationTime generation stateLimit earlier c shots)
      (.ok (counts R generation (machine.wordsOf seed) c shots,
        if c.width ≤ stateLimit then some (c.finalState R).toArray else none)) := by
  have run := run_of_check accepted earlier
  rw [Machine.simulationTime]
  by_cases narrow : c.width ≤ stateLimit
  · rw [if_pos narrow, if_pos narrow, ← Nat.zero_add (machine.runTime generation earlier c shots)]
    exact .shown accepted run narrow (statevector_of_check accepted)
  · rw [if_neg narrow, if_neg narrow, Nat.add_zero,
      ← Nat.zero_add (machine.runTime generation earlier c shots)]
    exact .wide accepted run narrow

/-- More than a million shots are refused, however few qubits the circuit has. -/
theorem Simulator.check_of_tooManyShots (fits : c.width ≤ maxQubits) (many : 1000000 < shots) :
    (backend R machine generation maxQubits seed).check c shots =
      .now (.error (.shotsOutOfRange shots 1000000)) := by
  have judged : (backend R machine generation maxQubits seed).check c shots =
      .now ((capabilities generation maxQubits seed).accept (nameOf generation) c shots) := rfl
  rw [judged, Capabilities.accept, maxQubits_capabilities, maxShots_capabilities,
    if_neg (UInt32.not_lt.mpr fits), if_pos (.inr many)]

end Runs

namespace Service

section Requests

variable {R : Type} [Chance R] {machine : Simulator.Machine} {settings : Settings}
  {request : SimulateRequest} {c : Circuit}

theorem check_simulator_iff (coherent : settings.Coherent) (proper : settings.Proper request c) :
    (simulator R machine settings).check c (settings.shotsOf request) = .now (.ok ()) ↔
      settings.shotsOf request ≤ 1000000 := by
  obtain ⟨some_shots, -⟩ := proper.shotsOf_within coherent
  rw [simulator, Simulator.check_eq_ok_iff, and_iff_right proper.width_le,
    and_iff_right some_shots]

/-- The circuit of a proper request is handed to the selected simulator. -/
theorem run_builtIn_of_proper (coherent : settings.Coherent) (proper : settings.Proper request c)
    (earlier : Nat) : (builtIn R machine settings).run earlier request =
      .ofCircuit (simulator R machine settings) settings.execution.statevectorMaxQubits earlier c
        (settings.runOptions request) := by
  rw [run_builtIn_of_admits coherent.supported (proper.admits coherent),
    Execution.ofDescription_of_build (proper.check_runOptions coherent) proper.built]

/-- What the simulator accepts is completed or timed out. -/
theorem result_of_accepted
    (accepted : (simulator R machine settings).check c (settings.shotsOf request) = .now (.ok ()))
    (earlier : Nat) :
    (Execution.ofCircuit (simulator R machine settings) settings.execution.statevectorMaxQubits
        earlier c (settings.runOptions request)).result =
      if settings.InTime machine earlier request c then
        .ok
          { counts := Simulator.counts R settings.backend.preference.first
              (machine.wordsOf settings.backend.seed) c (settings.shotsOf request)
            statevector :=
              if c.width ≤ settings.execution.statevectorMaxQubits then
                some (c.finalState R).toArray
              else none
            width := c.width, depth := c.depth, gateCount := c.gateCount }
      else .error (.timedOut settings.execution.deadline) :=
  Execution.result_ofCircuit_of_consultation (Simulator.consultation_of_check accepted _ earlier)

theorem result_of_many_shots (coherent : settings.Coherent) (proper : settings.Proper request c)
    (many : 1000000 < settings.shotsOf request) (earlier : Nat) :
    ((builtIn R machine settings).run earlier request).result =
      .error (.request (.beyondBackend (.shotsOutOfRange (settings.shotsOf request) 1000000))) := by
  rw [run_builtIn_of_proper coherent proper]
  exact Execution.result_ofCircuit_of_refused _
    (Simulator.check_of_tooManyShots proper.width_le many)

end Requests

/-- Settings that pass their check have a backend. It accepts every circuit within the limit of
qubits with up to a million shots, and the run is completed or, if the machine takes longer than the
settings allow, timed out. With more shots, which the settings may allow or even have as their
default, the client is blamed. -/
theorem checked_settings_serve_a_million_shots (R : Type) [Chance R]
    (machine : Simulator.Machine) {settings : Settings} (valid : settings.check = .ok ()) :
    ∃ backend, (builtIn R machine settings).backend = .ok backend ∧
      ∀ request c, settings.Proper request c →
        (backend.check c (settings.shotsOf request) = .now (.ok ()) ↔
          settings.shotsOf request ≤ 1000000) ∧
        ∀ earlier,
          ((∃ result, ((builtIn R machine settings).run earlier request).result = .ok result) ↔
            settings.shotsOf request ≤ 1000000 ∧ settings.InTime machine earlier request c) ∧
          (((builtIn R machine settings).run earlier request).result =
              .error (.timedOut settings.execution.deadline) ↔
            settings.shotsOf request ≤ 1000000 ∧ ¬settings.InTime machine earlier request c) ∧
          ((∃ error : ServiceError, error.isClientError = true ∧
              ((builtIn R machine settings).run earlier request).result = .error error) ↔
            1000000 < settings.shotsOf request) := by
  have coherent := Settings.coherent_of_check valid
  refine ⟨_, backend_builtIn coherent.supported, ?_⟩
  intro request c proper
  refine ⟨check_simulator_iff coherent proper, fun earlier => ?_⟩
  by_cases few : settings.shotsOf request ≤ 1000000
  · have accepted : (simulator R machine settings).check c (settings.shotsOf request) =
        .now (.ok ()) := (check_simulator_iff coherent proper).mpr few
    rw [run_builtIn_of_proper coherent proper, result_of_accepted accepted]
    have not_many := UInt32.not_lt.mpr few
    by_cases in_time : settings.InTime machine earlier request c
    · simp [few, not_many, in_time]
    · have blameless : (ServiceError.timedOut settings.execution.deadline).isClientError = false :=
        rfl
      simp [few, not_many, in_time, blameless]
  · have many := UInt32.not_le.mp few
    rw [result_of_many_shots coherent proper many]
    refine ⟨iff_of_false (by simp) (fun both => few both.1),
      iff_of_false (by simp) (fun both => few both.1), iff_of_true ⟨_, rfl, rfl⟩ many⟩

/-- A machine that takes a microsecond for each shot. -/
def perShot : Simulator.Machine :=
  { entropy := .ofSeed 0, runTime := fun _ _ _ shots => shots.toNat }

def lavish : Settings :=
  { execution := { defaultShots := 1500000, maxShots := 2000000 },
    backend := { preference := .legacy, seed := some 7 } }

theorem proper_lavish {shots : Option UInt32}
    (within : ∀ n, shots = some n → 1 ≤ n ∧ n ≤ lavish.execution.maxShots) :
    lavish.Proper { shots } ⟨1, [], by decide, by decide⟩ := by
  have built : ({} : Description).build = .ok ⟨1, [], by decide, by decide⟩ := by
    decide +kernel
  have narrow : ({} : Description).qubits.toInt ≤ lavish.execution.maxQubits.toNat := by
    decide +kernel
  exact ⟨built, narrow, within⟩

theorem checked_settings_serve_a_million_shots_lavish :
    lavish.check = .ok () ∧
    (∃ result, ((builtIn Float perShot lavish).run 0 { shots := some 100 }).result =
      .ok result) ∧
    ∃ error : ServiceError, error.isClientError = true ∧
      ((builtIn Float perShot lavish).run 0 {}).result = .error error := by
  have valid : lavish.check = .ok () := by decide +kernel
  obtain ⟨backend, -, serves⟩ := checked_settings_serve_a_million_shots Float perShot valid
  refine ⟨valid, ?_, ?_⟩
  · have few := (serves { shots := some 100 } _ (proper_lavish (by simp; decide))).2 0
    exact few.1.mpr (by decide +kernel)
  · have many := (serves {} _ (proper_lavish (by simp))).2 0
    exact many.2.2.mpr (by decide +kernel)

/-- A request that says nothing about shots is refused under settings that pass their check. -/
theorem checked_settings_refuse_their_default :
    ¬∀ settings : Settings, settings.check = .ok () →
      ∃ backend, (builtIn Float perShot settings).backend = .ok backend ∧
        ∀ request c, settings.Proper request c →
          backend.check c (settings.shotsOf request) = .now (.ok ()) ∧
          ∀ earlier error,
            ((builtIn Float perShot settings).run earlier request).result = .error error →
            error.isClientError = false := by
  intro serves
  have valid : lavish.check = .ok () := by decide +kernel
  have coherent := Settings.coherent_of_check valid
  have proper : lavish.Proper {} ⟨1, [], by decide, by decide⟩ := proper_lavish (by simp)
  have many : 1000000 < lavish.shotsOf {} := by decide +kernel
  obtain ⟨backend, -, blameless⟩ := serves lavish valid
  have refused := (blameless _ _ proper).2 0 _ (result_of_many_shots coherent proper many 0)
  cases refused

end Service

end CircuitBench
