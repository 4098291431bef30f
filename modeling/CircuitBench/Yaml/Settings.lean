import CircuitBench.Settings
import CircuitBench.Yaml.Field
import CircuitBench.Yaml.Reader

/-!
# Settings in YAML

A settings file is a mapping of sections, each of them a mapping of settings. Sections
and settings may be left out, and those that are not known are passed over.
-/

namespace CircuitBench

namespace Yaml

def uint32? (node : Yaml) : Option UInt32 :=
  (natural? 32 node).map UInt32.ofNat

def uint64? (node : Yaml) : Option UInt64 :=
  (natural? 64 node).map UInt64.ofNat

def executionSettings? (node : Yaml) : Option ExecutionSettings := do
  let standard : ExecutionSettings := {}
  let entries ← node.entries?
  let defaultShots ← field entries "default_shots" uint32? standard.defaultShots
  let maxShots ← field entries "max_shots" uint32? standard.maxShots
  let timeoutSecs ← field entries "timeout_secs" uint64? standard.timeoutSecs
  let statevectorMaxQubits ←
    field entries "statevector_max_qubits" uint32? standard.statevectorMaxQubits
  let maxQubits ← field entries "max_qubits" uint32? standard.maxQubits
  return { defaultShots, maxShots, timeoutSecs, statevectorMaxQubits, maxQubits }

def backendSettings? (node : Yaml) : Option BackendSettings := do
  let standard : BackendSettings := {}
  let entries ← node.entries?
  let preference ←
    field entries "preference" (fun node => node.text?.bind Preference.ofName?)
      standard.preference
  let seed ← field entries "seed" (optional? uint64?) standard.seed
  return { preference, seed }

def logSettings? (node : Yaml) : Option LogSettings := do
  let standard : LogSettings := {}
  let entries ← node.entries?
  let level ← field entries "level" text? standard.level
  let format ← field entries "format" text? standard.format
  return { level, format }

def settings? (node : Yaml) : Option Settings := do
  let entries ← node.entries?
  let execution ← field entries "execution" executionSettings? {}
  let backend ← field entries "backend" backendSettings? {}
  let logging ← field entries "logging" logSettings? {}
  return { execution, backend, logging }

def readSettings (text : String) : Except String Settings :=
  match (read? text.toList).bind settings? with
  | some settings => .ok settings
  | none => .error "not a record of settings"

end Yaml

/-- The settings of a text in YAML, if they pass their check. -/
def Settings.ofText (text : String) : Except SettingsError Settings :=
  Settings.decoded Yaml.readSettings text

end CircuitBench
