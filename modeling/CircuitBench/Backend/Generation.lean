import CircuitBench.Text.Blank

/-!
# Interface generations and preferences

A simulator can be offered through two generations of interface: the sampling
interface, which returns frequencies, and the older execute interface, which returns
counts. A preference says which generations are looked for, and in which order.
-/

namespace CircuitBench

/-- A generation of the simulation interface. -/
inductive Generation where
  | sampling
  | legacyExecute
deriving DecidableEq, Repr

namespace Generation

/-- The generations, the preferred one first. -/
def preferenceOrder : List Generation :=
  [sampling, legacyExecute]

/-- The name in messages and listings. -/
def name : Generation → String
  | sampling => "sampling"
  | legacyExecute => "legacy-execute"

/-- The name in records. -/
def key : Generation → String
  | sampling => "sampling"
  | legacyExecute => "legacy_execute"

def ofKey? (key : String) : Option Generation :=
  preferenceOrder.find? (·.key = key)

@[simp] theorem ofKey?_key (g : Generation) : ofKey? g.key = some g := by
  cases g <;> decide

end Generation

/-- Which generations are to be tried. -/
inductive Preference where
  /-- The newest generation that works. -/
  | auto
  | sampling
  | legacy
deriving DecidableEq, Repr

namespace Preference

instance : Inhabited Preference := ⟨auto⟩

def all : List Preference :=
  [auto, sampling, legacy]

def name : Preference → String
  | auto => "auto"
  | sampling => "sampling"
  | legacy => "legacy"

def ofName? (name : String) : Option Preference :=
  all.find? (·.name = name)

@[simp] theorem ofName?_name (p : Preference) : ofName? p.name = some p := by
  cases p <;> decide

/-- The generations to be tried, in order. -/
def generations : Preference → List Generation
  | auto => Generation.preferenceOrder
  | sampling => [.sampling]
  | legacy => [.legacyExecute]

/-- The preference that a user writes down, in capital or small letters and with blanks around
it. Two of the preferences go by a second name. -/
def ofText? (text : String) : Option Preference :=
  match Text.foldName text with
  | "auto" => some auto
  | "sampling" | "sampler" => some sampling
  | "legacy" | "execute" => some legacy
  | _ => none

end Preference

end CircuitBench
