import CircuitBench.Backend.Generation

/-!
# Backend errors

A backend error has a class, which decides how a caller deals with it, and a detail. The
library's own errors carry what went wrong; a backend from elsewhere reports a class and
a detail in words of its own.
-/

namespace CircuitBench

/-- The classes of backend errors. -/
inductive BackendError.Class where
  /-- There is no backend to work with. -/
  | unavailable
  /-- The circuit has more qubits than the backend handles. -/
  | circuitTooLarge
  /-- The number of shots is not one that the backend takes. -/
  | invalidShots
  /-- The backend does not offer what is asked of it. -/
  | unsupported
  /-- The backend cannot be set up as asked. -/
  | configuration
  /-- The backend failed at its work. -/
  | internal
deriving DecidableEq, Repr

/-- Why a backend cannot be had or does not deliver. -/
inductive BackendError where
  | tooManyQubits (qubits : UInt32) (backend : String) (limit : UInt32)
  | shotsOutOfRange (shots limit : UInt32)
  | noStatevector (backend : String)
  /-- The qubit limit asked for is not from `1` to the most the simulator supports. -/
  | qubitLimit (asked most : UInt32)
  | unknownPreference (text : String)
  | unknownName (name : String)
  /-- No backend of the preferred generations could be created. -/
  | noneAvailable (preference : Preference)
  /-- An error in the words of the backend that reports it. -/
  | reported (errorClass : BackendError.Class) (detail : String)
deriving DecidableEq, Repr

namespace BackendError

/-- What messages of a class begin with. -/
def Class.heading : Class → String
  | unavailable => "Backend not available: "
  | circuitTooLarge => "Circuit exceeds backend capabilities: "
  | invalidShots => "Invalid shots: "
  | unsupported => "Unsupported feature: "
  | configuration => "Configuration error: "
  | internal => "Backend error: "

def errorClass : BackendError → Class
  | tooManyQubits .. => .circuitTooLarge
  | shotsOutOfRange .. => .invalidShots
  | noStatevector _ => .unsupported
  | qubitLimit .. => .configuration
  | unknownPreference _ => .configuration
  | unknownName _ => .unavailable
  | noneAvailable _ => .unavailable
  | reported errorClass _ => errorClass

/-- What went wrong, without the heading of the class. -/
def detail : BackendError → String
  | tooManyQubits qubits backend limit =>
    "circuit has " ++ toString qubits.toNat ++ " qubits, " ++ backend ++ " supports at most " ++
      toString limit.toNat
  | shotsOutOfRange shots limit =>
    "shots must be between 1 and " ++ toString limit.toNat ++ ", got " ++ toString shots.toNat
  | noStatevector backend => backend ++ " does not expose a statevector"
  | qubitLimit asked most =>
    "max_qubits must be between 1 and " ++ toString most.toNat ++ ", got " ++
      toString asked.toNat
  | unknownPreference text =>
    "unknown backend preference '" ++ text ++ "' (expected auto, sampling or legacy)"
  | unknownName name => "No backend registered with name '" ++ name ++ "'"
  | noneAvailable preference =>
    "no simulation capability available for preference '" ++ preference.name ++ "'"
  | reported _ detail => detail

def message (e : BackendError) : String :=
  e.errorClass.heading ++ e.detail

end BackendError

/-- The preference that a user writes down, or the complaint about it, which quotes the text in
the form in which it was compared. -/
def Preference.ofText (text : String) : Except BackendError Preference :=
  match ofText? text with
  | some preference => .ok preference
  | none => .error (.unknownPreference (Text.foldName text))

end CircuitBench
