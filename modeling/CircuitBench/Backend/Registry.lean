import CircuitBench.Backend.Basic
import CircuitBench.Dictionary

/-!
# Registries of backends

A registry knows backends by name: the generation of each and how it is created. A name
that is registered again stands for the later backend. To select a backend is to try the
preferred generations in order, and within a generation the names in ascending order;
the first backend that can be created is it, and those that cannot be are passed over.
-/

namespace CircuitBench

/-- A backend that can be created. -/
structure Registration (R : Type) where
  generation : Generation
  create : BackendOptions → Except BackendError (Backend R)

/-- Backends by name. -/
abbrev Registry (R : Type) := Dictionary (Registration R)

namespace Registry

variable {R : Type}

/-- The registry with one more backend, which replaces one of the same name. -/
def register (registry : Registry R) (name : String) (generation : Generation)
    (create : BackendOptions → Except BackendError (Backend R)) : Registry R :=
  registry.insert name ⟨generation, create⟩

def create (registry : Registry R) (name : String) (options : BackendOptions) :
    Except BackendError (Backend R) :=
  match registry.get? name with
  | some registration => registration.create options
  | none => .error (.unknownName name)

/-- The registrations of a generation, in ascending order of their names. -/
def ofGeneration (registry : Registry R) (generation : Generation) : List (Registration R) :=
  (registry.entries.map (·.2)).filter (·.generation = generation)

/-- The registrations of the preferred generations, in the order in which they are tried. -/
def candidates (registry : Registry R) (preference : Preference) : List (Registration R) :=
  preference.generations.flatMap registry.ofGeneration

/-- The backend of the first candidate that can be created. -/
def select (registry : Registry R) (preference : Preference) (options : BackendOptions) :
    Except BackendError (Backend R) :=
  match (registry.candidates preference).findSome? fun c => (c.create options).toOption with
  | some backend => .ok backend
  | none => .error (.noneAvailable preference)

/-- The names and generations of all backends, in ascending order of the names. -/
def available (registry : Registry R) : List (String × Generation) :=
  registry.entries.map fun (name, registration) => (name, registration.generation)

def hasGeneration (registry : Registry R) (generation : Generation) : Bool :=
  registry.entries.any fun (_, registration) => registration.generation = generation

end Registry

end CircuitBench
