import CircuitBench.Json.Record
import CircuitBench.Circuit.Description

/-!
# Circuits as JSON

The forms in which descriptions, placements and circuits are sent. A description may
leave out any part of itself; a placement has to be complete.
-/

namespace CircuitBench

open Json

instance : Wire Gate where
  encode gate := .string gate.typeName
  decode? := variant? Gate.ofTypeName?

instance : Wire Entry where
  encode entry :=
    .object (member "type" entry.type ++ member "qubits" entry.qubits ++
      member "params" entry.params)
  decode? := Record.read? do
    let type ← Record.withDefault "type" ""
    let qubits ← Record.withDefault "qubits" []
    let params ← Record.withDefault "params" []
    return { type, qubits, params }

instance : Wire Description where
  encode d := .object (member "qubits" d.qubits ++ member "gates" d.entries)
  decode? := Record.read? do
    let qubits ← Record.withDefault "qubits" 1
    let entries ← Record.withDefault "gates" []
    return { qubits, entries }

instance : Wire Placement where
  encode p :=
    .object (member "kind" p.gate ++ member "qubits" p.qubits ++ member "params" p.params)
  decode? := Record.read? do
    let gate ← Record.required "kind"
    let qubits ← Record.required "qubits"
    let params ← Record.required "params"
    return { gate, qubits, params }

/-- The JSON form of a circuit, which is only written. -/
def Circuit.toJson (c : Circuit) : Json :=
  .object (member "num_qubits" c.width ++ member "ops" (c.ops.map Placement.ofOperation))

end CircuitBench
