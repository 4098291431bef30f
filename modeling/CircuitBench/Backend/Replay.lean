import CircuitBench.Backend.Basic

/-!
# Replaying backends

A replaying backend gives recorded answers, one for each run in the order of the runs,
and the last of them again and again. It accepts what its capabilities say, but its runs
do not check anything. It stands in for a device where the behaviour around a device is
of interest.
-/

namespace CircuitBench

/-- The recorded answer to a run. -/
inductive Replay.Act where
  | counts (counts : Histogram)
  | fail (error : BackendError)
  /-- The run never comes back. -/
  | hang

/-- The answers of a replaying backend. -/
structure Replay (R : Type) where
  capabilities : Capabilities
  acts : List Replay.Act
  /-- The recorded state, if states can be asked for. -/
  statevector : Option (Except BackendError (Array (Amplitude R))) := none

namespace Replay

variable {R : Type}

def Act.respond : Act → Response (Except BackendError Histogram)
  | counts histogram => .now (.ok histogram)
  | fail error => .now (.error error)
  | hang => .never

/-- The act of a run with a number of runs before it. -/
def act (replay : Replay R) (earlier : Nat) : Act :=
  (replay.acts[earlier]?.or replay.acts.getLast?).getD .hang

def backend (replay : Replay R) : Backend R :=
  let name := replay.capabilities.name
  { name
    capabilities := replay.capabilities
    run := fun earlier _ _ => (replay.act earlier).respond
    statevector := fun _ => .now (replay.statevector.getD (.error (.noStatevector name))) }

end Replay

end CircuitBench
