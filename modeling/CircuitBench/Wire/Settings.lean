import CircuitBench.Settings
import CircuitBench.Wire.Backend

/-!
# Settings as JSON

Every setting and every section may be left out. What is written is complete, and a
missing seed is written as `null`.
-/

namespace CircuitBench

open Json

instance : Wire ExecutionSettings where
  encode s :=
    .object (member "default_shots" s.defaultShots ++ member "max_shots" s.maxShots ++
      member "timeout_secs" s.timeoutSecs ++
      member "statevector_max_qubits" s.statevectorMaxQubits ++
      member "max_qubits" s.maxQubits)
  decode? := Record.read? do
    let standard : ExecutionSettings := {}
    let defaultShots ← Record.withDefault "default_shots" standard.defaultShots
    let maxShots ← Record.withDefault "max_shots" standard.maxShots
    let timeoutSecs ← Record.withDefault "timeout_secs" standard.timeoutSecs
    let statevectorMaxQubits ←
      Record.withDefault "statevector_max_qubits" standard.statevectorMaxQubits
    let maxQubits ← Record.withDefault "max_qubits" standard.maxQubits
    return { defaultShots, maxShots, timeoutSecs, statevectorMaxQubits, maxQubits }

instance : Wire BackendSettings where
  encode s := .object (member "preference" s.preference ++ member "seed" s.seed)
  decode? := Record.read? do
    let standard : BackendSettings := {}
    let preference ← Record.withDefault "preference" standard.preference
    let seed ← Record.withDefault "seed" standard.seed
    return { preference, seed }

instance : Wire LogSettings where
  encode s := .object (member "level" s.level ++ member "format" s.format)
  decode? := Record.read? do
    let standard : LogSettings := {}
    let level ← Record.withDefault "level" standard.level
    let format ← Record.withDefault "format" standard.format
    return { level, format }

instance : Wire Settings where
  encode s :=
    .object (member "execution" s.execution ++ member "backend" s.backend ++
      member "logging" s.logging)
  decode? := Record.read? do
    let execution ← Record.withDefault "execution" {}
    let backend ← Record.withDefault "backend" {}
    let logging ← Record.withDefault "logging" {}
    return { execution, backend, logging }

end CircuitBench
