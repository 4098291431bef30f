import CircuitBench.Assembly.Script
import CircuitBench.Backend.Registry
import CircuitBench.Service.Message

/-!
# Services

A service answers requests under fixed settings: it validates, exports and imports
circuits, and runs them on its backend. A service without a backend still does all but
the last. A description that is too wide for the settings is refused before anything is
made of it.
-/

namespace CircuitBench

/-- A service over the scalars `R`. -/
structure Service (R : Type) where
  settings : Settings
  /-- The backend, or the reason why there is none. -/
  backend : Except String (Backend R)

namespace Service

variable {R : Type}

/-- The service on the backend that the settings select from a registry. -/
def ofRegistry (registry : Registry R) (settings : Settings) : Service R :=
  { settings
    backend :=
      match registry.select settings.backend.preference settings.backendOptions with
      | .ok backend => .ok backend
      | .error error =>
        .error (if error.errorClass = .unavailable then error.detail else error.message) }

def ofBackend (backend : Backend R) (settings : Settings) : Service R :=
  ⟨settings, .ok backend⟩

/-- The service on one of the built-in simulators. -/
@[specialize] def builtIn (R : Type) [Chance R] (machine : Simulator.Machine)
    (settings : Settings) : Service R :=
  ofRegistry (Simulator.registry R machine) settings

def info (service : Service R) : Except ServiceError BackendInfo :=
  match service.backend with
  | .ok backend => .ok (.ofBackend backend)
  | .error reason => .error (.unavailable reason)

/-- Refuses descriptions that are wider than the settings allow. -/
def checkWidth (service : Service R) (d : Description) : Except ServiceError Unit :=
  let limit := service.settings.execution.maxQubits
  if (limit.toNat : Int) < d.qubits.toInt then
    .error (.request (.tooManyQubits d.qubits limit))
  else .ok ()

/-- The circuit of a description that is not too wide. -/
def build (service : Service R) (d : Description) : Except ServiceError Circuit :=
  match service.checkWidth d with
  | .error error => .error error
  | .ok () => d.build.mapError .circuit

/-- The shape of a circuit, without running it. -/
def validate (service : Service R) (d : Description) : ValidateResponse :=
  match service.build d with
  | .ok circuit => .ofCircuit circuit
  | .error error => .invalid error

def exportAssembly (service : Service R) (d : Description) :
    Except ServiceError ExportAssemblyResponse :=
  (service.build d).map fun circuit => ⟨Assembly.print circuit⟩

def exportScript (service : Service R) (d : Description) :
    Except ServiceError ExportScriptResponse :=
  match service.build d with
  | .error error => .error error
  | .ok circuit =>
    match Assembly.script circuit with
    | .error error => .error (.ofReadError error)
    | .ok script => .ok ⟨script⟩

/-- The description of the circuit of an assembly text. -/
def importAssembly (service : Service R) (request : ImportRequest) :
    Except ServiceError ImportResponse :=
  match Assembly.read service.settings.execution.maxQubits.toNat request.assembly with
  | .error error => .error (.ofReadError error)
  | .ok circuit => .ok ⟨.ofCircuit circuit⟩

/-- Runs the circuit of a request, after a number of earlier runs on the backend. A request that
asks for too many shots or qubits is refused first, and a wrong circuit is reported also if
there is no backend. -/
def run (service : Service R) (earlier : Nat) (request : SimulateRequest) : Execution R :=
  let execution := service.settings.execution
  let shots := request.shots.getD execution.defaultShots
  if execution.maxShots < shots then
    .refused (.request (.tooManyShots shots execution.maxShots))
  else
    match service.checkWidth request.description with
    | .error error => .refused error
    | .ok () =>
      match service.backend with
      | .error reason =>
        match request.description.build with
        | .error error => .refused (.circuit error)
        | .ok _ => .refused (.unavailable reason)
      | .ok backend =>
        .ofDescription backend execution.statevectorMaxQubits earlier request.description
          { shots, deadline := execution.deadline }

def simulate (service : Service R) (earlier : Nat) (request : SimulateRequest) :
    SimulateResponse R :=
  .ofResult (service.run earlier request).result

end Service

end CircuitBench
