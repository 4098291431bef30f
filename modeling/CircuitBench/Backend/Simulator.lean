import CircuitBench.Backend.Registry
import CircuitBench.Sampling.Keystream
import CircuitBench.Sampling.Tally
import CircuitBench.State.Vector

/-!
# The simulator

The built-in simulator computes the exact state of a circuit and draws shots from it. It
is offered through both generations of interface, which draw the same outcomes from the
same random words: the execute interface counts them, and the sampling interface makes
frequencies of the counts and counts of the frequencies.

What a simulator does not determine itself is left to the machine that it runs on: the random
words and the time. A seed makes every run draw the same words, and without a seed the words come
from elsewhere. A circuit is judged at once, but the shots and the state are computed aside, and
their answers come after any time, so that a deadline can pass before.
-/

namespace CircuitBench.Simulator

open Sampling

/-- The qubit limit if none is asked for. -/
def defaultMaxQubits : UInt32 := 24

def maxSupportedQubits : UInt32 := 28

/-- The registered name of a generation. -/
def nameOf : Generation → String
  | .sampling => "sampler"
  | .legacyExecute => "legacy-execute"

/-- What a simulator finds on the system that it runs on. -/
structure Machine where
  /-- The words that a seed gives. -/
  seeded : UInt64 → WordSource := .ofSeed
  /-- The words of runs without a seed. -/
  entropy : WordSource
  /-- The microseconds that a run takes. -/
  runTime : Generation → (earlier : Nat) → Circuit → (shots : UInt32) → Nat := fun _ _ _ _ => 0
  /-- The microseconds that an exact state takes. -/
  stateTime : Generation → Circuit → Nat := fun _ _ => 0

namespace Machine

/-- A machine of which only the words are told answers at once. -/
instance : Coe WordSource Machine := ⟨fun entropy => { entropy }⟩

/-- The words that a simulator draws from: those of its seed, if it has one. -/
def wordsOf (machine : Machine) (seed : Option UInt64) : WordSource :=
  (seed.map machine.seeded).getD machine.entropy

end Machine

/-- The response to a call that is judged first: a refusal comes at once, and what is accepted is
answered after the time that it takes. -/
@[specialize] def respond {α : Type} (judgement : Except BackendError Unit) (time : Nat)
    (compute : Unit → α) : Response (Except BackendError α) :=
  match judgement with
  | .error error => .now (.error error)
  | .ok () => .answer time (.ok (compute ()))

section

variable (R : Type) [Chance R]

/-- The outcomes of the shots of a circuit. -/
@[specialize] def outcomes (words : WordSource) (circuit : Circuit) (shots : UInt32) : List Nat :=
  Sampling.outcomes (circuit.finalState R).probabilities (words.words shots.toNat)

/-- The observed outcomes of the shots of a circuit with their counts. -/
@[specialize] def observations (words : WordSource) (circuit : Circuit) (shots : UInt32) :
    List (Nat × Nat) :=
  observed (2 ^ circuit.width.toNat) (outcomes R words circuit shots)

/-- The shares of the outcomes in the shots, as the sampling interface returns them. -/
@[specialize] def sample (words : WordSource) (circuit : Circuit) (shots : UInt32) :
    List (Nat × R) :=
  frequencies shots.toNat (observations R words circuit shots)

/-- The counts of the outcomes, as the execute interface returns them. -/
@[specialize] def execute (words : WordSource) (circuit : Circuit) (shots : UInt32) : Histogram :=
  exactCounts circuit.width.toNat (observations R words circuit shots)

/-- The histogram that a generation makes of the shots of a circuit. -/
@[specialize] def counts (generation : Generation) (words : WordSource) (circuit : Circuit)
    (shots : UInt32) : Histogram :=
  match generation with
  | .sampling =>
    quantizedCounts circuit.width.toNat shots.toNat (sample R words circuit shots)
  | .legacyExecute => execute R words circuit shots

/-- The capabilities of a simulator, which tell whether it has a seed. -/
def capabilities (generation : Generation) (maxQubits : UInt32) (seed : Option UInt64) :
    Capabilities :=
  let capabilities := Capabilities.simulator (nameOf generation) generation maxQubits
  if seed.isSome then capabilities.withFeature "seeded" else capabilities

/-- A simulator with a qubit limit, with or without a seed. -/
@[specialize] def backend (machine : Machine) (generation : Generation) (maxQubits : UInt32)
    (seed : Option UInt64) : Backend R :=
  let capabilities := capabilities generation maxQubits seed
  let accept := capabilities.accept (nameOf generation)
  { name := nameOf generation
    capabilities
    run := fun earlier circuit shots =>
      respond (accept circuit shots) (machine.runTime generation earlier circuit shots)
        fun _ => counts R generation (machine.wordsOf seed) circuit shots
    statevector := fun circuit =>
      respond (accept circuit 1) (machine.stateTime generation circuit)
        fun _ => (circuit.finalState R).toArray }

/-- A simulator with the default limit and no seed. -/
@[specialize] def standard (machine : Machine) (generation : Generation) : Backend R :=
  backend R machine generation defaultMaxQubits none

/-- The qubit limit for options, if it is one that the simulator supports. -/
def qubitLimit (options : BackendOptions) : Except BackendError UInt32 :=
  match options.maxQubits with
  | none => .ok defaultMaxQubits
  | some limit =>
    if 1 ≤ limit ∧ limit ≤ maxSupportedQubits then .ok limit
    else .error (.qubitLimit limit maxSupportedQubits)

@[specialize] def create (machine : Machine) (generation : Generation)
    (options : BackendOptions) : Except BackendError (Backend R) :=
  (qubitLimit options).map fun limit => backend R machine generation limit options.seed

@[specialize] def registry (machine : Machine) : Registry R :=
  Generation.preferenceOrder.foldl
    (fun registry generation =>
      registry.register (nameOf generation) generation (create R machine generation))
    .empty

end

end CircuitBench.Simulator
