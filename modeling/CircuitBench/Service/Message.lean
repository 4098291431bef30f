import CircuitBench.Circuit.Description
import CircuitBench.Service.Execution

/-!
# Requests and responses

The messages between a client and a service. A response to a request that can fail
carries either results or the text of an error; what does not apply is left out.
-/

namespace CircuitBench

/-- Asks for a circuit to be run. -/
structure SimulateRequest where
  description : Description := {}
  /-- The number of shots, if not the default one. -/
  shots : Option UInt32 := none

/-- The result of a run or the reason why there is none. -/
structure SimulateResponse (R : Type) where
  success : Bool
  counts : Option Histogram := none
  statevector : Option (Array (Amplitude R)) := none
  qubits : Option UInt32 := none
  depth : Option Nat := none
  gateCount : Option Nat := none
  error : Option String := none

/-- The shape of a circuit or the reason why it is none. -/
structure ValidateResponse where
  valid : Bool
  qubits : Option UInt32 := none
  depth : Option Nat := none
  gateCount : Option Nat := none
  error : Option String := none
deriving DecidableEq

structure ExportAssemblyResponse where
  assembly : String
deriving DecidableEq

structure ExportScriptResponse where
  script : String
deriving DecidableEq

structure ImportRequest where
  assembly : String
deriving DecidableEq

structure ImportResponse where
  description : Description

/-- The backend that a service works with. -/
structure BackendInfo where
  name : String
  generation : Generation
  maxQubits : UInt32
  maxShots : UInt32
  statevector : Bool
  /-- Whether runs repeat. -/
  seeded : Bool
deriving DecidableEq

namespace SimulateResponse

variable {R : Type}

def completed (result : RunResult R) : SimulateResponse R :=
  { success := true
    counts := some result.counts
    statevector := result.statevector
    qubits := some result.width
    depth := some result.depth
    gateCount := some result.gateCount }

def failed (error : ServiceError) : SimulateResponse R :=
  { success := false, error := some error.message }

def ofResult : Except ServiceError (RunResult R) → SimulateResponse R
  | .ok result => completed result
  | .error error => failed error

end SimulateResponse

namespace ValidateResponse

def ofCircuit (circuit : Circuit) : ValidateResponse :=
  { valid := true
    qubits := some circuit.width
    depth := some circuit.depth
    gateCount := some circuit.gateCount }

def invalid (error : ServiceError) : ValidateResponse :=
  { valid := false, error := some error.message }

end ValidateResponse

def BackendInfo.ofBackend {R : Type} (backend : Backend R) : BackendInfo :=
  { name := backend.name
    generation := backend.capabilities.generation
    maxQubits := backend.capabilities.maxQubits
    maxShots := backend.capabilities.maxShots
    statevector := backend.capabilities.statevector
    seeded := backend.capabilities.hasFeature "seeded" }

end CircuitBench
