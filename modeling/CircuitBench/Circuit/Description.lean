import CircuitBench.Circuit.Basic
import CircuitBench.Power

/-!
# Structural descriptions

A description is what clients submit: a number of qubits and a list of gate entries,
all of it unchecked. An entry whose type is not in the catalog is passed over, so that
clients that know further gates still get a circuit back; every other entry has to be
right.

The indices of all recognised entries are read before any other rule is tried. A wrong
index is reported at the entry's place among all entries, any other fault at its place
among the recognised ones.
-/

namespace CircuitBench

/-- One gate entry of a description. -/
structure Entry where
  type : String := ""
  qubits : List Int64 := []
  params : List Float := []

/-- A circuit as a client describes it. -/
structure Description where
  qubits : Int64 := 1
  entries : List Entry := []

namespace Entry

def gate? (entry : Entry) : Option Gate :=
  Gate.ofName? entry.type

def index? (qubit : Int64) : Option UInt32 :=
  if 0 ≤ qubit.toInt ∧ qubit.toInt < 2 ^ 32 then some (UInt32.ofNat qubit.toInt.toNat) else none

/-- The indices of an entry at `position`, or the first number that is no index. -/
def indices (gate : Gate) (position : Nat) : List Int64 → Except CircuitError (List UInt32)
  | [] => .ok []
  | qubit :: rest =>
    match index? qubit with
    | none => .error (.index gate position qubit)
    | some index =>
      match indices gate position rest with
      | .error e => .error e
      | .ok found => .ok (index :: found)

def ofOperation (op : Operation) : Entry :=
  { type := op.gate.typeName
    qubits := op.qubits.map fun q => Int64.ofNat q.toNat
    params := [] }

end Entry

namespace Description

/-- The placements of the recognised entries, the first entry being at `position`. -/
def placements : (position : Nat) → List Entry → Except CircuitError (List Placement)
  | _, [] => .ok []
  | position, entry :: rest =>
    match entry.gate? with
    | none => placements (position + 1) rest
    | some gate =>
      match Entry.indices gate position entry.qubits with
      | .error e => .error e
      | .ok qubits =>
        match placements (position + 1) rest with
        | .error e => .error e
        | .ok found => .ok (⟨gate, qubits, entry.params⟩ :: found)

/-- The number of qubits of a description, if a circuit can have that many. -/
def width? (d : Description) : Option UInt32 :=
  if 1 ≤ d.qubits.toInt ∧ d.qubits.toInt < 2 ^ 32 then some (UInt32.ofNat d.qubits.toInt.toNat)
  else none

/-- The circuit that a description stands for. -/
def build (d : Description) : Except CircuitError Circuit :=
  match d.width? with
  | none => .error (.qubitCount d.qubits)
  | some width =>
    match placements 0 d.entries with
    | .error e => .error e
    | .ok found => Circuit.ofPlacements width found

/-- The description of a circuit, with the type names of the catalog. -/
def ofCircuit (c : Circuit) : Description :=
  { qubits := Int64.ofNat c.width.toNat
    entries := c.ops.map Entry.ofOperation }

end Description

end CircuitBench
