import CircuitBench.Backend.Simulator
import CircuitBench.Text.Numeral

/-!
# Settings

Settings bound what a request may ask for, say which backend to use, and say how to
log. They have defaults, are read from a text whose format is left open here, can be
overridden by variables of the environment, and are checked before a service works with
them. A variable that is not written as its setting demands is passed over.
-/

namespace CircuitBench

/-- Limits and defaults of simulations. -/
structure ExecutionSettings where
  /-- The shots of a request that does not say how many. -/
  defaultShots : UInt32 := 1024
  /-- The most shots a request may ask for. -/
  maxShots : UInt32 := 100000
  /-- The time that one simulation may take, in seconds. -/
  timeoutSecs : UInt64 := 30
  /-- The most qubits for which a result comes with the exact state. -/
  statevectorMaxQubits : UInt32 := 10
  /-- The most qubits a circuit may have. -/
  maxQubits : UInt32 := 20
deriving DecidableEq, Repr

/-- Which backend to use. -/
structure BackendSettings where
  preference : Preference := .auto
  seed : Option UInt64 := none
deriving DecidableEq, Repr

/-- How to log. -/
structure LogSettings where
  level : String := "warn"
  format : String := "console"
deriving DecidableEq, Repr

structure Settings where
  execution : ExecutionSettings := {}
  backend : BackendSettings := {}
  logging : LogSettings := {}
deriving DecidableEq, Repr

instance : Inhabited Settings := ⟨{}⟩

inductive LogFormat where
  | console
  | json
deriving DecidableEq, Repr

/-- Why settings cannot be worked with. -/
inductive SettingsFault where
  /-- No request could ask for any shot. -/
  | noShots
  | defaultShots (got limit : UInt32)
  | noTime
  | maxQubits (got most : UInt32)
  | logLevel (text : String)
  | logFormat (text : String)
deriving DecidableEq, Repr

namespace LogFormat

def name : LogFormat → String
  | console => "console"
  | json => "json"

/-- The format that is used if none is chosen. -/
def standard : LogFormat := console

def ofName (name : String) : Except SettingsFault LogFormat :=
  match [console, json].find? (·.name = name) with
  | some format => .ok format
  | none => .error (.logFormat name)

end LogFormat

/-- The levels of a log, from the most to the least detailed. -/
def logLevels : List String :=
  ["trace", "debug", "info", "warn", "error"]

def SettingsFault.message : SettingsFault → String
  | noShots => "max_shots must be greater than 0"
  | defaultShots got limit =>
    "default_shots must be between 1 and max_shots (" ++ toString limit.toNat ++ "), got " ++
      toString got.toNat
  | noTime => "timeout_secs must be greater than 0"
  | maxQubits got most =>
    "max_qubits must be between 1 and " ++ toString most.toNat ++ ", got " ++ toString got.toNat
  | logLevel text => "Invalid log level: " ++ text
  | logFormat text => "Invalid log format: " ++ text

namespace ExecutionSettings

/-- The time that one simulation may take, in microseconds. -/
def deadline (s : ExecutionSettings) : Nat :=
  s.timeoutSecs.toNat * 1000000

def check (s : ExecutionSettings) : Except SettingsFault Unit :=
  if s.maxShots = 0 then .error .noShots
  else if s.defaultShots = 0 ∨ s.maxShots < s.defaultShots then
    .error (.defaultShots s.defaultShots s.maxShots)
  else if s.timeoutSecs = 0 then .error .noTime
  else if s.maxQubits = 0 ∨ Simulator.maxSupportedQubits < s.maxQubits then
    .error (.maxQubits s.maxQubits Simulator.maxSupportedQubits)
  else .ok ()

end ExecutionSettings

def LogSettings.check (s : LogSettings) : Except SettingsFault Unit :=
  if s.level ∉ logLevels then .error (.logLevel s.level)
  else (LogFormat.ofName s.format).map fun _ => ()

namespace Settings

/-- Checks all settings; of several faults the one of the first setting counts. -/
def check (s : Settings) : Except SettingsFault Unit :=
  match s.execution.check with
  | .error fault => .error fault
  | .ok () => s.logging.check

def backendOptions (s : Settings) : BackendOptions :=
  { name := "qplay", maxQubits := some s.execution.maxQubits, seed := s.backend.seed }

end Settings

section Override

def Settings.variableNames : List String :=
  ["QPLAY_DEFAULT_SHOTS", "QPLAY_MAX_SHOTS", "QPLAY_TIMEOUT_SECS",
    "QPLAY_STATEVECTOR_MAX_QUBITS", "QPLAY_MAX_QUBITS", "QPLAY_BACKEND", "QPLAY_SEED",
    "QPLAY_LOG_LEVEL", "QPLAY_LOG_FORMAT"]

def variable32? (value : Option String) : Option UInt32 :=
  (value.bind (Text.readUnsigned? 32 ·.toList)).map UInt32.ofNat

def variable64? (value : Option String) : Option UInt64 :=
  (value.bind (Text.readUnsigned? 64 ·.toList)).map UInt64.ofNat

/-- The settings with those replaced that a variable sets. Of all variables `lookup` is asked for
those in `variableNames` only. -/
def Settings.override (lookup : String → Option String) (s : Settings) : Settings :=
  let number32 (name : String) (old : UInt32) := (variable32? (lookup name)).getD old
  { execution :=
      { defaultShots := number32 "QPLAY_DEFAULT_SHOTS" s.execution.defaultShots
        maxShots := number32 "QPLAY_MAX_SHOTS" s.execution.maxShots
        timeoutSecs :=
          (variable64? (lookup "QPLAY_TIMEOUT_SECS")).getD s.execution.timeoutSecs
        statevectorMaxQubits :=
          number32 "QPLAY_STATEVECTOR_MAX_QUBITS" s.execution.statevectorMaxQubits
        maxQubits := number32 "QPLAY_MAX_QUBITS" s.execution.maxQubits }
    backend :=
      { preference :=
          ((lookup "QPLAY_BACKEND").bind Preference.ofText?).getD s.backend.preference
        seed := (variable64? (lookup "QPLAY_SEED")).or s.backend.seed }
    logging :=
      { level := (lookup "QPLAY_LOG_LEVEL").getD s.logging.level
        format := (lookup "QPLAY_LOG_FORMAT").getD s.logging.format } }

/-- Without variables nothing is overridden. -/
@[simp] theorem Settings.override_none (s : Settings) : s.override (fun _ => none) = s := by
  simp [Settings.override, variable32?, variable64?]

end Override

/-- Why settings cannot be loaded. -/
inductive SettingsError where
  /-- The file cannot be read. -/
  | file (path reason : String)
  /-- The text is no record of settings. -/
  | form (reason : String)
  /-- The settings do not pass their check. -/
  | values (fault : SettingsFault)
deriving DecidableEq, Repr

namespace SettingsError

def fileHeading : String := "IO error: "

def formHeading : String := "Parse error: "

def valuesHeading : String := "Validation error: "

def message : SettingsError → String
  | file path reason => fileHeading ++ path ++ ": " ++ reason
  | form reason => formHeading ++ reason
  | values fault => valuesHeading ++ fault.message

end SettingsError

namespace Settings

/-- Settings that pass their check, or the fault as an error. -/
def checked (s : Settings) : Except SettingsError Settings :=
  match s.check with
  | .ok () => .ok s
  | .error fault => .error (.values fault)

variable (decode : String → Except String Settings)

/-- The settings that `decode` reads from a text, if they pass their check. -/
def decoded (text : String) : Except SettingsError Settings :=
  match decode text with
  | .ok settings => settings.checked
  | .error reason => .error (.form reason)

/-- The settings of a text, or the defaults if there is none, with those replaced that a variable
sets. They are checked before and after. -/
def load (lookup : String → Option String) (text? : Option String) :
    Except SettingsError Settings := do
  let settings ←
    match text? with
    | some text => decoded decode text
    | none => .ok {}
  (settings.override lookup).checked

end Settings

end CircuitBench
