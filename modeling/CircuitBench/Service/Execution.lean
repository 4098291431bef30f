import CircuitBench.Backend.Basic
import CircuitBench.Circuit.Description
import CircuitBench.Circuit.Level
import CircuitBench.Service.Error

/-!
# Executions

An execution builds the circuit of a description and runs it on a backend before a
deadline. It goes through phases: from idle to building, from there to running or to
failure, and from running to completion, to a timeout or to failure.

The deadline is for everything that the backend does: its check, the run, and for small
circuits the exact state. A state that cannot be had does not make an execution fail.
-/

namespace CircuitBench

/-- The phases of an execution. -/
inductive Phase where
  | idle
  | building
  | running
  | completed
  | timedOut
  | failed
deriving DecidableEq, Repr

namespace Phase

def all : List Phase :=
  [idle, building, running, completed, timedOut, failed]

def name : Phase → String
  | idle => "idle"
  | building => "building"
  | running => "running"
  | completed => "completed"
  | timedOut => "timed_out"
  | failed => "failed"

/-- Whether an execution ends in a phase. -/
def isTerminal : Phase → Bool
  | completed | timedOut | failed => true
  | idle | building | running => false

end Phase

/-- What one execution is asked to do besides its circuit. -/
structure RunOptions where
  shots : UInt32 := 1024
  /-- The time it may take, in microseconds. -/
  deadline : Nat := 30000000
deriving DecidableEq, Repr

def RunOptions.check (options : RunOptions) : Except RequestFault Unit :=
  if options.shots = 0 then .error .noShots
  else if options.deadline = 0 then .error .noTime
  else .ok ()

/-- What a completed execution has produced. -/
structure RunResult (R : Type) where
  counts : Histogram
  /-- The exact state, for small circuits on backends that have it. -/
  statevector : Option (Array (Amplitude R))
  width : UInt32
  depth : Nat
  gateCount : Nat

/-- An execution that has come to its end. -/
structure Execution (R : Type) where
  /-- The phases it went through, in order. -/
  phases : List Phase
  /-- Whether the backend was told to run. -/
  began : Bool
  result : Except ServiceError (RunResult R)

namespace Execution

variable {R : Type}

/-- An execution that is refused before it has done anything. -/
def refused (error : ServiceError) : Execution R :=
  ⟨[.idle], false, .error error⟩

/-- The counts of a circuit, and its state if it has at most `stateLimit` qubits. -/
def consult (backend : Backend R) (stateLimit : UInt32) (earlier : Nat) (circuit : Circuit)
    (shots : UInt32) :
    Response (Except BackendError (Histogram × Option (Array (Amplitude R)))) :=
  (backend.check circuit shots).andThen fun
    | .error error => .now (.error error)
    | .ok () => (backend.run earlier circuit shots).andThen fun
      | .error error => .now (.error error)
      | .ok counts =>
        if circuit.width ≤ stateLimit then
          (backend.statevector circuit).andThen fun state => .now (.ok (counts, state.toOption))
        else .now (.ok (counts, none))

/-- Whether a backend gets as far as to begin the run. -/
def begins (backend : Backend R) (circuit : Circuit) (options : RunOptions) : Bool :=
  match (backend.check circuit options.shots).within options.deadline with
  | some (.ok ()) => true
  | _ => false

/-- Runs a circuit that has been built. -/
def ofCircuit (backend : Backend R) (stateLimit : UInt32) (earlier : Nat) (circuit : Circuit)
    (options : RunOptions) : Execution R :=
  let began := begins backend circuit options
  match (consult backend stateLimit earlier circuit options.shots).within options.deadline with
  | none =>
    ⟨[.idle, .building, .running, .timedOut], began, .error (.timedOut options.deadline)⟩
  | some (.error error) =>
    ⟨[.idle, .building, .running, .failed], began, .error (.ofBackendError error)⟩
  | some (.ok (counts, statevector)) =>
    ⟨[.idle, .building, .running, .completed], began,
      .ok { counts, statevector, width := circuit.width, depth := circuit.depth,
            gateCount := circuit.gateCount }⟩

/-- Builds the circuit of a description and runs it, after a number of earlier runs on the same
backend. -/
def ofDescription (backend : Backend R) (stateLimit : UInt32) (earlier : Nat) (d : Description)
    (options : RunOptions) : Execution R :=
  match options.check with
  | .error fault => refused (.request fault)
  | .ok () =>
    match d.build with
    | .error error => ⟨[.idle, .building, .failed], false, .error (.circuit error)⟩
    | .ok circuit => ofCircuit backend stateLimit earlier circuit options

end Execution

end CircuitBench
