import CircuitBench.Proofs.Backend.Selection
import CircuitBench.Service.Basic

/-!
# What a request comes to, with a backend and without one

A request outside the limits of the settings is refused alike by every service with these
settings. Within the limits a service without a backend looks at the circuit alone, and a wrong
circuit comes before the missing backend. A service on a backend checks the options of the run
before it looks at the circuit. So the two agree on a wrong circuit unless the options are refused,
and a request for no shots is told so on a backend only.
-/

namespace CircuitBench

theorem RunOptions.check_eq_ok_iff {options : RunOptions} :
    options.check = .ok () ↔ options.shots ≠ 0 ∧ options.deadline ≠ 0 := by
  rw [check]
  by_cases no_shots : options.shots = 0
  · simp [no_shots]
  · by_cases no_time : options.deadline = 0 <;> simp [no_shots, no_time]

theorem ExecutionSettings.deadline_eq_zero_iff {s : ExecutionSettings} :
    s.deadline = 0 ↔ s.timeoutSecs = 0 := by
  have zero : s.timeoutSecs = 0 ↔ s.timeoutSecs.toNat = 0 := UInt64.toNat_inj.symm
  rw [deadline, zero]
  omega

namespace Settings

/-- The shots of a request, which are the default ones if it does not say how many. -/
def shotsOf (settings : Settings) (request : SimulateRequest) : UInt32 :=
  request.shots.getD settings.execution.defaultShots

/-- A request stays within the limits of the settings. -/
structure Admits (settings : Settings) (request : SimulateRequest) : Prop where
  shots : settings.shotsOf request ≤ settings.execution.maxShots
  qubits : request.description.qubits.toInt ≤ settings.execution.maxQubits.toNat

def runOptions (settings : Settings) (request : SimulateRequest) : RunOptions :=
  { shots := settings.shotsOf request, deadline := settings.execution.deadline }

/-- The settings give time, and the request is for some shots. -/
theorem check_runOptions_iff {settings : Settings} {request : SimulateRequest} :
    (settings.runOptions request).check = .ok () ↔
      settings.shotsOf request ≠ 0 ∧ settings.execution.timeoutSecs ≠ 0 := by
  rw [RunOptions.check_eq_ok_iff]
  exact and_congr_right fun _ => not_congr ExecutionSettings.deadline_eq_zero_iff

/-- The limit of qubits is one that the built-in simulators support. -/
structure Supported (settings : Settings) : Prop where
  pos : 1 ≤ settings.execution.maxQubits
  le : settings.execution.maxQubits ≤ Simulator.maxSupportedQubits

end Settings

namespace Execution

variable {R : Type} {backend : Backend R} {stateLimit : UInt32} {earlier : Nat} {d : Description}
  {options : RunOptions}

theorem result_ofDescription_of_check_error {fault : RequestFault}
    (refused : options.check = .error fault) :
    (ofDescription backend stateLimit earlier d options).result = .error (.request fault) := by
  rw [ofDescription, refused]
  rfl

theorem result_ofDescription_of_build_error {error : CircuitError}
    (ready : options.check = .ok ()) (wrong : d.build = .error error) :
    (ofDescription backend stateLimit earlier d options).result = .error (.circuit error) := by
  rw [ofDescription, ready, wrong]

theorem ofDescription_of_build {c : Circuit} (ready : options.check = .ok ())
    (built : d.build = .ok c) : ofDescription backend stateLimit earlier d options =
      ofCircuit backend stateLimit earlier c options := by
  rw [ofDescription, ready, built]

end Execution

namespace Service

variable {R : Type} {settings : Settings} {request : SimulateRequest} {earlier : Nat}

/-- A service without a backend, for the given reason. -/
def bare (R : Type) (settings : Settings) (reason : String) : Service R :=
  ⟨settings, .error reason⟩

/-- A service on a registry in which no candidate can be created is without a backend. -/
theorem ofRegistry_of_none {registry : Registry R}
    (none : registry.select settings.backend.preference settings.backendOptions =
      .error (.noneAvailable settings.backend.preference)) :
    ofRegistry registry settings =
      bare R settings (BackendError.noneAvailable settings.backend.preference).detail := by
  rw [ofRegistry, none]
  rfl

section Limits

/-- Beyond the limits a request is refused, and the backend does not count. -/
theorem exists_fault_of_not_admits (beyond : ¬settings.Admits request) (earlier : Nat) :
    ∃ fault, ∀ backend : Except String (Backend R),
      (⟨settings, backend⟩ : Service R).run earlier request = .refused (.request fault) := by
  by_cases shots : settings.execution.maxShots < settings.shotsOf request
  · refine ⟨.tooManyShots (settings.shotsOf request) settings.execution.maxShots, fun backend => ?_⟩
    exact if_pos shots
  · have qubits : (settings.execution.maxQubits.toNat : Int) < request.description.qubits.toInt :=
      Int.not_le.mp fun within => beyond ⟨UInt32.not_lt.mp shots, within⟩
    refine ⟨.tooManyQubits request.description.qubits settings.execution.maxQubits,
      fun backend => ?_⟩
    have wide : (⟨settings, backend⟩ : Service R).checkWidth request.description =
        .error (.request (.tooManyQubits request.description.qubits
          settings.execution.maxQubits)) := if_pos qubits
    refine (if_neg shots).trans ?_
    rw [wide]

/-- Within the limits the answer depends on the backend. -/
theorem run_of_admits (admits : settings.Admits request) (backend : Except String (Backend R)) :
    (⟨settings, backend⟩ : Service R).run earlier request =
      match backend with
      | .error reason =>
        match request.description.build with
        | .error error => .refused (.circuit error)
        | .ok _ => .refused (.unavailable reason)
      | .ok backend =>
        .ofDescription backend settings.execution.statevectorMaxQubits earlier request.description
          (settings.runOptions request) := by
  have narrow : (⟨settings, backend⟩ : Service R).checkWidth request.description = .ok () :=
    if_neg (Int.not_lt.mpr admits.qubits)
  refine (if_neg (UInt32.not_lt.mpr admits.shots)).trans ?_
  rw [narrow]
  rfl

theorem result_bare_of_build_error {reason : String} {error : CircuitError}
    (admits : settings.Admits request) (wrong : request.description.build = .error error) :
    ((bare R settings reason).run earlier request).result = .error (.circuit error) := by
  rw [bare, run_of_admits admits]
  simp only [wrong]
  rfl

theorem result_bare_of_build {reason : String} {c : Circuit} (admits : settings.Admits request)
    (built : request.description.build = .ok c) :
    ((bare R settings reason).run earlier request).result = .error (.unavailable reason) := by
  rw [bare, run_of_admits admits]
  simp only [built]
  rfl

end Limits

/-- The missing backend is reported for the circuits that are within the limits, and for no other
request. -/
theorem result_bare_eq_unavailable_iff {reason : String} :
    ((bare R settings reason).run earlier request).result = .error (.unavailable reason) ↔
      settings.Admits request ∧ ∃ c, request.description.build = .ok c := by
  by_cases admits : settings.Admits request
  · cases built : request.description.build with
    | error error => simp [result_bare_of_build_error admits built]
    | ok c => simp [result_bare_of_build admits built, admits]
  · obtain ⟨fault, refused⟩ := exists_fault_of_not_admits (R := R) admits earlier
    simp [bare, refused, Execution.refused, admits]

/-- A wrong circuit is what a service reports if there is no backend or if nothing is wrong with the
options of the run. -/
theorem result_run_eq_circuit_iff {backend : Except String (Backend R)} {error : CircuitError}
    (admits : settings.Admits request) (wrong : request.description.build = .error error) :
    ((⟨settings, backend⟩ : Service R).run earlier request).result = .error (.circuit error) ↔
      (∃ reason, backend = .error reason) ∨
        settings.shotsOf request ≠ 0 ∧ settings.execution.timeoutSecs ≠ 0 := by
  rw [← Settings.check_runOptions_iff]
  cases backend with
  | error reason => exact iff_of_true (result_bare_of_build_error admits wrong) (.inl ⟨reason, rfl⟩)
  | ok backend =>
    rw [run_of_admits admits]
    cases ready : (settings.runOptions request).check with
    | error fault =>
      rw [Execution.result_ofDescription_of_check_error ready]
      simp
    | ok =>
      rw [Execution.result_ofDescription_of_build_error ready wrong]
      simp

/-- A service has the client error of the service without a backend exactly if the request is
beyond the limits, or the circuit is wrong and nothing comes before it. -/
theorem clientError_eq_bare_iff {reason : String} {backend : Except String (Backend R)} :
    (∃ error : ServiceError, error.isClientError = true ∧
        ((bare R settings reason).run earlier request).result = .error error ∧
        ((⟨settings, backend⟩ : Service R).run earlier request).result = .error error) ↔
      ¬settings.Admits request ∨ (∃ error, request.description.build = .error error) ∧
        ((∃ reason, backend = .error reason) ∨
          settings.shotsOf request ≠ 0 ∧ settings.execution.timeoutSecs ≠ 0) := by
  by_cases admits : settings.Admits request
  · rw [or_iff_right (not_not_intro admits)]
    cases built : request.description.build with
    | ok c =>
      rw [result_bare_of_build admits built]
      constructor
      · rintro ⟨error, client, same, -⟩
        cases same
        cases client
      · rintro ⟨⟨error, wrong⟩, -⟩
        cases wrong
    | error wrong =>
      rw [result_bare_of_build_error admits built, ← result_run_eq_circuit_iff admits built]
      constructor
      · rintro ⟨error, -, same, result⟩
        cases same
        exact ⟨⟨wrong, rfl⟩, result⟩
      · rintro ⟨-, result⟩
        exact ⟨.circuit wrong, rfl, rfl, result⟩
  · obtain ⟨fault, refused⟩ := exists_fault_of_not_admits (R := R) admits earlier
    refine iff_of_true ⟨.request fault, rfl, ?_, ?_⟩ (.inl admits)
    · rw [bare, refused]
      rfl
    · rw [refused]
      rfl

section BuiltIn

variable [Chance R] {machine : Simulator.Machine}

/-- The simulator that settings with a supported limit of qubits select. -/
def simulator (R : Type) [Chance R] (machine : Simulator.Machine) (settings : Settings) :
    Backend R :=
  Simulator.backend R machine settings.backend.preference.first settings.execution.maxQubits
    settings.backend.seed

theorem backend_builtIn (supported : settings.Supported) :
    (builtIn R machine settings).backend = .ok (simulator R machine settings) := by
  have limit : Simulator.qubitLimit settings.backendOptions = .ok settings.execution.maxQubits :=
    if_pos ⟨supported.pos, supported.le⟩
  rw [builtIn, ofRegistry, Simulator.select_registry limit]
  rfl

/-- Within the limits the simulator is asked. -/
theorem run_builtIn_of_admits (supported : settings.Supported) (admits : settings.Admits request) :
    (builtIn R machine settings).run earlier request =
      .ofDescription (simulator R machine settings) settings.execution.statevectorMaxQubits
        earlier request.description (settings.runOptions request) := by
  show (⟨settings, (builtIn R machine settings).backend⟩ : Service R).run earlier request = _
  rw [backend_builtIn supported, run_of_admits admits]

/-- Under any other limit the built-in service is without a backend. -/
theorem backend_builtIn_eq_error_iff :
    (∃ reason, (builtIn R machine settings).backend = .error reason) ↔ ¬settings.Supported := by
  constructor
  · rintro ⟨reason, missing⟩ supported
    rw [backend_builtIn supported] at missing
    cases missing
  · intro unsupported
    have refused : Simulator.qubitLimit settings.backendOptions =
        .error (.qubitLimit settings.execution.maxQubits Simulator.maxSupportedQubits) :=
      if_neg fun bounds => unsupported ⟨bounds.1, bounds.2⟩
    rw [builtIn, ofRegistry_of_none (Simulator.select_registry_of_error refused)]
    exact ⟨_, rfl⟩

end BuiltIn

/-- The built-in service and a service without a backend report one client error for a request
beyond the limits of the settings and, if neither the shots nor the time are zero, for a wrong
circuit. A missing backend is reported for no other requests than those for a circuit within the
limits. A request for no shots is among them, while the built-in service refuses it. -/
theorem missing_backend_is_reported_last (R : Type) [Chance R] (machine : Simulator.Machine)
    (settings : Settings) (request : SimulateRequest) (reason : String) (earlier : Nat) :
    ((∃ error : ServiceError, error.isClientError = true ∧
        ((bare R settings reason).run earlier request).result = .error error ∧
        ((builtIn R machine settings).run earlier request).result = .error error) ↔
      ¬settings.Admits request ∨ (∃ error, request.description.build = .error error) ∧
        (¬settings.Supported ∨
          settings.shotsOf request ≠ 0 ∧ settings.execution.timeoutSecs ≠ 0)) ∧
    (((bare R settings reason).run earlier request).result = .error (.unavailable reason) ↔
      settings.Admits request ∧ ∃ c, request.description.build = .ok c) ∧
    (settings.Supported → settings.Admits request → settings.shotsOf request = 0 →
      ((builtIn R machine settings).run earlier request).result = .error (.request .noShots)) := by
  refine ⟨?_, result_bare_eq_unavailable_iff, ?_⟩
  · have missing : (∃ reason, (builtIn R machine settings).backend = .error reason) ↔
        ¬settings.Supported := backend_builtIn_eq_error_iff
    rw [← missing]
    exact clientError_eq_bare_iff
  · intro supported admits no_shots
    have refused : (settings.runOptions request).check = .error .noShots := if_pos no_shots
    rw [run_builtIn_of_admits supported admits]
    exact Execution.result_ofDescription_of_check_error refused

/-- A request for no shots breaks a rule of the settings, and still a service without a backend
reports the backend as missing. -/
theorem no_shots_are_hidden_by_missing_backend :
    ¬∀ (settings : Settings) (request : SimulateRequest) (reason : String),
      (settings.shotsOf request = 0 ∨ ¬settings.Admits request ∨
        ∃ error, request.description.build = .error error) →
      ∃ error : ServiceError, error.isClientError = true ∧
        ((bare Float settings reason).run 0 request).result = .error error ∧
        ((builtIn Float (Sampling.WordSource.ofSeed 0) settings).run 0 request).result =
          .error error := by
  intro reported
  have admits : ({} : Settings).Admits { shots := some 0 } := ⟨by decide, by decide⟩
  have built : ({} : Description).build = .ok ⟨1, [], by decide, by decide⟩ := rfl
  obtain ⟨error, client, missing, -⟩ := reported {} { shots := some 0 } "not installed" (.inl rfl)
  rw [result_bare_of_build admits built] at missing
  cases missing
  cases client

end Service

end CircuitBench
