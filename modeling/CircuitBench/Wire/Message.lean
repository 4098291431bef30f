import CircuitBench.Service.Message
import CircuitBench.Wire.Backend
import CircuitBench.Wire.Circuit

/-!
# Requests and responses as JSON

What does not apply to a response is left out of its object.
-/

namespace CircuitBench

open Json

instance : Wire SimulateRequest where
  encode r := .object (member "circuit_data" r.description ++ memberIfSome "shots" r.shots)
  decode? := Record.read? do
    let description ← Record.withDefault "circuit_data" {}
    let shots ← Record.withDefault "shots" none
    return { description, shots }

instance : Wire (SimulateResponse Float) where
  encode r :=
    .object (member "success" r.success ++ memberIfSome "counts" r.counts ++
      memberIfSome "statevector" r.statevector ++ memberIfSome "num_qubits" r.qubits ++
      memberIfSome "depth" r.depth ++ memberIfSome "gate_count" r.gateCount ++
      memberIfSome "error" r.error)
  decode? := Record.read? do
    let success ← Record.required "success"
    let counts ← Record.withDefault "counts" none
    let statevector ← Record.withDefault "statevector" none
    let qubits ← Record.withDefault "num_qubits" none
    let depth ← Record.withDefault "depth" none
    let gateCount ← Record.withDefault "gate_count" none
    let error ← Record.withDefault "error" none
    return { success, counts, statevector, qubits, depth, gateCount, error }

instance : Wire ValidateResponse where
  encode r :=
    .object (member "valid" r.valid ++ memberIfSome "qubit_count" r.qubits ++
      memberIfSome "depth" r.depth ++ memberIfSome "gate_count" r.gateCount ++
      memberIfSome "error" r.error)
  decode? := Record.read? do
    let valid ← Record.required "valid"
    let qubits ← Record.withDefault "qubit_count" none
    let depth ← Record.withDefault "depth" none
    let gateCount ← Record.withDefault "gate_count" none
    let error ← Record.withDefault "error" none
    return { valid, qubits, depth, gateCount, error }

instance : Wire ExportAssemblyResponse where
  encode r := .object (member "qasm" r.assembly)
  decode? := Record.read? do return { assembly := ← Record.required "qasm" }

instance : Wire ExportScriptResponse where
  encode r := .object (member "code" r.script)
  decode? := Record.read? do return { script := ← Record.required "code" }

instance : Wire ImportRequest where
  encode r := .object (member "qasm" r.assembly)
  decode? := Record.read? do return { assembly := ← Record.required "qasm" }

instance : Wire ImportResponse where
  encode r := .object (member "circuit_data" r.description)
  decode? := Record.read? do return { description := ← Record.required "circuit_data" }

def BackendInfo.toJson (i : BackendInfo) : Json :=
  .object (member "name" i.name ++ member "generation" i.generation.name ++
    member "max_qubits" i.maxQubits ++ member "max_shots" i.maxShots ++
    member "statevector" i.statevector ++ member "seeded" i.seeded)

end CircuitBench
