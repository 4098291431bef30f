import CircuitBench.Backend.Basic
import CircuitBench.Json.Record

/-!
# Backends and their results as JSON

A histogram is an object with a member for each bitstring, and an amplitude an object
with its two parts.
-/

namespace CircuitBench

open Json

namespace Histogram

def ofFields? : List (String × Json) → Histogram → Option Histogram
  | [], h => some h
  | (name, value) :: rest, h =>
    match decode? value with
    | some count => ofFields? rest (Dictionary.insert h name count)
    | none => none

end Histogram

instance : Wire Histogram where
  encode h := .object (h.entries.map fun (key, count) => (key, encode count))
  decode?
    | .object fields => Histogram.ofFields? fields .empty
    | _ => none

instance : Wire (Amplitude Float) where
  encode a := .object (member "real" a.re ++ member "imag" a.im)
  decode? := Record.read? do
    let re ← Record.required "real"
    let im ← Record.required "imag"
    return { re, im }

instance {α : Type} [Wire α] : Wire (Array α) where
  encode items := encode items.toList
  decode? value := (decode? value : Option (List α)).map List.toArray

instance : Wire Generation where
  encode g := .string g.key
  decode? := variant? Generation.ofKey?

instance : Wire Preference where
  encode p := .string p.name
  decode? := variant? Preference.ofName?

instance : Wire Capabilities where
  encode c :=
    .object (member "name" c.name ++ member "generation" c.generation ++
      member "max_qubits" c.maxQubits ++ member "max_shots" c.maxShots ++
      member "statevector" c.statevector ++
      memberIfSome "features" (if c.features.isEmpty then none else some c.features))
  decode? := Record.read? do
    let name ← Record.required "name"
    let generation ← Record.required "generation"
    let maxQubits ← Record.required "max_qubits"
    let maxShots ← Record.required "max_shots"
    let statevector ← Record.required "statevector"
    let features ← Record.withDefault "features" []
    return { name, generation, maxQubits, maxShots, statevector, features }

instance : Wire BackendOptions where
  encode o :=
    .object (member "name" o.name ++ memberIfSome "max_qubits" o.maxQubits ++
      memberIfSome "seed" o.seed)
  decode? := Record.read? do
    let name ← Record.required "name"
    let maxQubits ← Record.withDefault "max_qubits" none
    let seed ← Record.withDefault "seed" none
    return { name, maxQubits, seed }

end CircuitBench
