import CircuitBench.Assembly.Reader
import CircuitBench.Backend.Error
import CircuitBench.Binary64.Shortest
import CircuitBench.Settings

/-!
# Service errors

Every operation of a service fails with an error of one of a few classes. The class
tells whether the client has to change the request or whether the service is at fault.
The same fault has the same class wherever it comes from: a wrong circuit is a wrong
circuit in a description and in assembly text alike, and asking a backend for more than
it offers is a wrong request.
-/

namespace CircuitBench

/-- Why a request is refused for what it asks. -/
inductive RequestFault where
  | tooManyShots (shots limit : UInt32)
  | tooManyQubits (qubits : Int64) (limit : UInt32)
  | noShots
  | noTime
  /-- The request exceeds what the backend is capable of. -/
  | beyondBackend (error : BackendError)
deriving DecidableEq, Repr

def RequestFault.detail : RequestFault → String
  | tooManyShots shots limit =>
    "shots must be at most " ++ toString limit.toNat ++ ", got " ++ toString shots.toNat
  | tooManyQubits qubits limit =>
    "circuit uses " ++ toString qubits.toInt ++ " qubits, limit is " ++ toString limit.toNat
  | noShots => "shots must be positive"
  | noTime => "timeout must be positive"
  | beyondBackend error => error.message

/-- Why an operation of a service fails. -/
inductive ServiceError where
  | circuit (error : CircuitError)
  | assembly (error : Assembly.ReadError)
  | request (fault : RequestFault)
  | simulation (error : BackendError)
  /-- No answer came within so many microseconds. -/
  | timedOut (micros : Nat)
  /-- There is no backend, for the given reason. -/
  | unavailable (reason : String)
  | settings (error : SettingsError)
deriving DecidableEq, Repr

inductive ServiceError.Class where
  | circuit
  | assembly
  | request
  | simulation
  | timedOut
  | unavailable
  | settings
deriving DecidableEq, Repr

namespace ServiceError

/-- Whether errors of a class are for the client to mend. -/
def Class.isClientError : Class → Bool
  | circuit | assembly | request => true
  | simulation | timedOut | unavailable | settings => false

def errorClass : ServiceError → Class
  | circuit _ => .circuit
  | assembly _ => .assembly
  | request _ => .request
  | simulation _ => .simulation
  | timedOut _ => .timedOut
  | unavailable _ => .unavailable
  | settings _ => .settings

def isClientError (e : ServiceError) : Bool :=
  e.errorClass.isClientError

/-- A time as a decimal number of seconds. -/
def seconds (micros : Nat) : String :=
  let whole := (UInt64.ofNat (micros / 1000000)).toFloat
  let nanos := (UInt64.ofNat (micros % 1000000 * 1000)).toFloat
  Binary64.text .plain (whole + nanos / 1000000000.0)

def message : ServiceError → String
  | circuit error => error.message
  | assembly error => error.message
  | request fault => "Invalid request: " ++ fault.detail
  | simulation error => "Simulation error: " ++ error.message
  | timedOut micros => "Simulation timeout after " ++ seconds micros ++ "s"
  | unavailable reason => "Backend not available: " ++ reason
  | settings error => error.message

def ofReadError : Assembly.ReadError → ServiceError
  | .circuit error => circuit error
  | error => assembly error

def ofBackendError (error : BackendError) : ServiceError :=
  match error.errorClass with
  | .unavailable => unavailable error.detail
  | .circuitTooLarge | .invalidShots => request (.beyondBackend error)
  | .unsupported | .configuration | .internal => simulation error

end ServiceError

end CircuitBench
