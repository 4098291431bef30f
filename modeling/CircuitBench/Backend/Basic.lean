import CircuitBench.Backend.Error
import CircuitBench.Backend.Response
import CircuitBench.Circuit.Basic
import CircuitBench.Histogram
import CircuitBench.State.Amplitude

/-!
# Backends

A backend says what it is capable of, judges whether it accepts a circuit and a number
of shots, runs circuits, and may hand out the exact state of a circuit. What a run
returns may depend on how many runs the backend has begun before, so a backend is a
value without hidden state.
-/

namespace CircuitBench

/-- What a backend is capable of. -/
structure Capabilities where
  name : String
  generation : Generation
  maxQubits : UInt32
  maxShots : UInt32
  /-- Whether the exact state of a circuit can be had. -/
  statevector : Bool
  features : List String
deriving DecidableEq, Repr

namespace Capabilities

/-- The capabilities of a simulator: a million shots and exact states. -/
def simulator (name : String) (generation : Generation) (maxQubits : UInt32) : Capabilities :=
  { name, generation, maxQubits, maxShots := 1000000, statevector := true, features := [] }

def withMaxShots (c : Capabilities) (maxShots : UInt32) : Capabilities :=
  { c with maxShots }

/-- The capabilities with one more feature, behind those that are there. -/
def withFeature (c : Capabilities) (feature : String) : Capabilities :=
  { c with features := c.features ++ [feature] }

def hasFeature (c : Capabilities) (feature : String) : Bool :=
  c.features.contains feature

@[simp] theorem hasFeature_withFeature (c : Capabilities) (feature : String) :
    (c.withFeature feature).hasFeature feature = true := by
  simp [withFeature, hasFeature]

/-- Whether a circuit and a number of shots lie within the limits of the backend called `name`.
The qubits are judged before the shots. -/
def accept (c : Capabilities) (name : String) (circuit : Circuit) (shots : UInt32) :
    Except BackendError Unit :=
  if c.maxQubits < circuit.width then .error (.tooManyQubits circuit.width name c.maxQubits)
  else if shots = 0 ∨ c.maxShots < shots then .error (.shotsOutOfRange shots c.maxShots)
  else .ok ()

/-- Accepted is what stays within both limits. -/
theorem accept_eq_ok_iff {c : Capabilities} {name : String} {circuit : Circuit} {shots : UInt32} :
    c.accept name circuit shots = .ok () ↔
      circuit.width ≤ c.maxQubits ∧ shots ≠ 0 ∧ shots ≤ c.maxShots := by
  simp only [accept, UInt32.lt_iff_toNat_lt, UInt32.le_iff_toNat_le]
  grind

end Capabilities

/-- How a backend is to be set up. -/
structure BackendOptions where
  name : String
  maxQubits : Option UInt32 := none
  /-- The seed that makes runs repeatable. -/
  seed : Option UInt64 := none
deriving DecidableEq, Repr

/-- A simulation backend over the scalars `R`. -/
structure Backend (R : Type) where
  name : String
  capabilities : Capabilities
  /-- Whether the backend takes a circuit and a number of shots. -/
  check : Circuit → (shots : UInt32) → Response (Except BackendError Unit) :=
    fun circuit shots => .now (capabilities.accept name circuit shots)
  /-- Runs a circuit, after a number of earlier runs. -/
  run : (earlier : Nat) → Circuit → (shots : UInt32) → Response (Except BackendError Histogram)
  /-- The exact state of a circuit. -/
  statevector : Circuit → Response (Except BackendError (Array (Amplitude R))) :=
    fun _ => .now (.error (.noStatevector name))

end CircuitBench
