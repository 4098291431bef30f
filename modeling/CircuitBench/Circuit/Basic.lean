import CircuitBench.Gate

/-!
# Circuits

A circuit has between one and `2 ^ 32 - 1` qubits and a list of operations that fit on
them. That they fit is part of the type, so whatever runs or prints a circuit has
nothing left to check.

What a client places is checked one placement after the other, and the first fault of
the first faulty placement is reported. The rules of a placement are tried in a fixed
order: number of qubits, number of parameters, range, distinct qubits.
-/

namespace CircuitBench

/-- A gate applied to qubits. -/
inductive Operation where
  | single (gate : SingleGate) (target : UInt32)
  | cnot (control target : UInt32)
deriving DecidableEq, Repr

namespace Operation

def gate : Operation → Gate
  | single gate _ => .single gate
  | cnot _ _ => .cnot

/-- The qubits of an operation; the control of a controlled X comes before its target. -/
def qubits : Operation → List UInt32
  | single _ target => [target]
  | cnot control target => [control, target]

@[simp] theorem gate_single (g : SingleGate) (q : UInt32) : (single g q).gate = .single g := rfl
@[simp] theorem gate_cnot (c t : UInt32) : (cnot c t).gate = .cnot := rfl
@[simp] theorem qubits_single (g : SingleGate) (q : UInt32) : (single g q).qubits = [q] := rfl
@[simp] theorem qubits_cnot (c t : UInt32) : (cnot c t).qubits = [c, t] := rfl

@[simp] theorem length_qubits (op : Operation) : op.qubits.length = op.gate.arity := by
  cases op <;> rfl

/-- An operation fits on `width` qubits if they include all of its own, which are distinct. -/
def Fits (width : Nat) (op : Operation) : Prop :=
  (∀ q ∈ op.qubits, q.toNat < width) ∧ op.qubits.Nodup

instance (width : Nat) (op : Operation) : Decidable (op.Fits width) :=
  @instDecidableAnd _ _ (List.decidableBAll (·.toNat < width) op.qubits) op.qubits.nodupDecidable

@[simp] theorem fits_single {width : Nat} {g : SingleGate} {q : UInt32} :
    (single g q).Fits width ↔ q.toNat < width := by
  simp [Fits]

@[simp] theorem fits_cnot {width : Nat} {c t : UInt32} :
    (cnot c t).Fits width ↔ c.toNat < width ∧ t.toNat < width ∧ c ≠ t := by
  simp [Fits, and_assoc]

end Operation

/-- A gate with operands as a client gives them, before any rule is checked. -/
structure Placement where
  gate : Gate
  qubits : List UInt32
  params : List Float

/-- A circuit. -/
structure Circuit where
  width : UInt32
  ops : List Operation
  width_pos : 0 < width.toNat
  fits : ∀ op ∈ ops, op.Fits width.toNat

namespace Circuit

theorem ext_iff {c d : Circuit} : c = d ↔ c.width = d.width ∧ c.ops = d.ops := by
  cases c
  cases d
  simp

instance : DecidableEq Circuit := fun c d =>
  if h : c.width = d.width ∧ c.ops = d.ops then isTrue (ext_iff.2 h)
  else isFalse fun e => h (ext_iff.1 e)

/-- The number of gate operations. The final measurements are not counted. -/
def gateCount (c : Circuit) : Nat :=
  c.ops.length

end Circuit

/-- What can be wrong with one placement. -/
inductive PlacementFault where
  /-- The number of qubits is not the arity of the gate. -/
  | arity (got : Nat)
  /-- The number of parameters is not the one the gate takes. -/
  | parameters (got : Nat)
  /-- A qubit is not one of the circuit's. -/
  | range (qubit width : UInt32)
  /-- Control and target are the same qubit. -/
  | repeated (qubit : UInt32)
deriving DecidableEq, Repr

/-- Why a circuit is refused. -/
inductive CircuitError where
  /-- No qubit at all. -/
  | empty
  /-- A description asks for a number of qubits outside `1` to `2 ^ 32 - 1`. -/
  | qubitCount (qubits : Int64)
  /-- A description names a qubit by a number that is no index of 32 bits. -/
  | index (gate : Gate) (position : Nat) (qubit : Int64)
  /-- A placement breaks a rule. -/
  | placement (gate : Gate) (position : Nat) (fault : PlacementFault)
deriving DecidableEq, Repr

namespace CircuitError

def reason : CircuitError → String
  | empty => "circuit must have at least 1 qubit"
  | qubitCount qubits => "qubit count must be at least 1, got " ++ toString qubits.toInt
  | index gate position qubit =>
    "gate " ++ gate.typeName ++ " at position " ++ toString position ++
      " has invalid qubit index " ++ toString qubit.toInt
  | placement gate position fault =>
    "gate " ++ gate.typeName ++ " at position " ++ toString position ++
      match fault with
      | .arity got =>
        " requires " ++ toString gate.arity ++ " qubit(s), got " ++ toString got
      | .parameters got =>
        " takes " ++ toString gate.parameterCount ++ " parameter(s), got " ++ toString got
      | .range qubit width =>
        " targets qubit " ++ toString qubit.toNat ++ " but the circuit has " ++
          toString width.toNat ++ " qubit(s)"
      | .repeated qubit =>
        " uses qubit " ++ toString qubit.toNat ++ " as both control and target"

def heading : String := "Invalid circuit: "

def message (e : CircuitError) : String :=
  heading ++ e.reason

end CircuitError

namespace Placement

/-- The operation that a placement stands for on `width` qubits, if it keeps the rules. -/
def place (p : Placement) (width : UInt32) :
    Except PlacementFault { op : Operation // op.Fits width.toNat } :=
  match p.gate, p.qubits with
  | .single gate, [target] =>
    if p.params ≠ [] then .error (.parameters p.params.length)
    else if h : target < width then .ok ⟨.single gate target, Operation.fits_single.2 h⟩
    else .error (.range target width)
  | .cnot, [control, target] =>
    if p.params ≠ [] then .error (.parameters p.params.length)
    else if hc : control < width then
      if ht : target < width then
        if hne : control = target then .error (.repeated control)
        else .ok ⟨.cnot control target, Operation.fits_cnot.2 ⟨hc, ht, hne⟩⟩
      else .error (.range target width)
    else .error (.range control width)
  | _, qubits => .error (.arity qubits.length)

def ofOperation (op : Operation) : Placement :=
  ⟨op.gate, op.qubits, []⟩

@[simp] theorem place_ofOperation {op : Operation} {width : UInt32} (h : op.Fits width.toNat) :
    (ofOperation op).place width = .ok ⟨op, h⟩ := by
  cases op with
  | single gate target =>
    have : target < width := Operation.fits_single.1 h
    simp [ofOperation, place, this]
  | cnot control target =>
    obtain ⟨hc, ht, hne⟩ := Operation.fits_cnot.1 h
    have hc : control < width := hc
    have ht : target < width := ht
    simp [ofOperation, place, hc, ht, hne]

end Placement

namespace Circuit

/-- The operations of placements on `width` qubits, the first of them at `position`. -/
def placeAll (width : UInt32) : (position : Nat) → List Placement →
    Except CircuitError { ops : List Operation // ∀ op ∈ ops, op.Fits width.toNat }
  | _, [] => .ok ⟨[], by simp⟩
  | position, p :: rest =>
    match p.place width with
    | .error fault => .error (.placement p.gate position fault)
    | .ok op =>
      match placeAll width (position + 1) rest with
      | .error e => .error e
      | .ok ops => .ok ⟨op.1 :: ops.1, by simpa using ⟨op.2, ops.2⟩⟩

def ofPlacements (width : UInt32) (placements : List Placement) : Except CircuitError Circuit :=
  if pos : 0 < width.toNat then
    match placeAll width 0 placements with
    | .error e => .error e
    | .ok ops => .ok ⟨width, ops.1, pos, ops.2⟩
  else .error .empty

theorem placeAll_ofOperation {width : UInt32} {ops : List Operation}
    (h : ∀ op ∈ ops, op.Fits width.toNat) (position : Nat) :
    placeAll width position (ops.map Placement.ofOperation) = .ok ⟨ops, h⟩ := by
  induction ops generalizing position with
  | nil => rfl
  | cons op rest ih =>
    simp only [List.map_cons, placeAll, Placement.place_ofOperation (h op (by simp)),
      ih fun op m => h op (List.mem_cons_of_mem _ m)]

/-- A circuit is the circuit of its own placements. -/
theorem ofPlacements_ofOperation (c : Circuit) :
    ofPlacements c.width (c.ops.map Placement.ofOperation) = .ok c := by
  simp [ofPlacements, c.width_pos, placeAll_ofOperation c.fits]

end Circuit

end CircuitBench
