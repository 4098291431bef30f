import CircuitBench.Text.Blank

/-!
# The gate catalog

Six gates act on one qubit and one on two. Every gate has a mnemonic, used in assembly
text, and a type name, used in structural descriptions. Either name finds the gate, in
capital or small letters and with blanks around it, and `cnot` is the only type name
that is not the mnemonic in capitals.
-/

namespace CircuitBench

/-- The gates on one qubit: Hadamard, the three Pauli gates, and the phase gates by a quarter
and by an eighth of a turn. -/
inductive SingleGate where
  | h
  | x
  | y
  | z
  | s
  | t
deriving DecidableEq, Repr

/-- The gates of the catalog. The controlled X acts on a control and a target. -/
inductive Gate where
  | single (gate : SingleGate)
  | cnot
deriving DecidableEq, Repr

namespace Gate

/-- Every gate, in catalog order. -/
def catalog : List Gate :=
  [.single .h, .single .x, .single .y, .single .z, .single .s, .single .t, .cnot]

def position (gate : Gate) : Nat :=
  catalog.idxOf gate

def arity : Gate → Nat
  | single _ => 1
  | cnot => 2

/-- The number of numeric parameters a gate takes: none of them takes any. -/
def parameterCount : Gate → Nat
  | single _ => 0
  | cnot => 0

/-- The name of a gate in assembly text. -/
def mnemonic : Gate → String
  | single .h => "h"
  | single .x => "x"
  | single .y => "y"
  | single .z => "z"
  | single .s => "s"
  | single .t => "t"
  | cnot => "cx"

/-- The name of a gate in structural descriptions and in messages. -/
def typeName : Gate → String
  | single .h => "H"
  | single .x => "X"
  | single .y => "Y"
  | single .z => "Z"
  | single .s => "S"
  | single .t => "T"
  | cnot => "CNOT"

/-- The gate of a name, which may be either of its two names. -/
def ofName? (name : String) : Option Gate :=
  let folded := Text.foldName name
  if folded = "cnot" then some cnot else catalog.find? fun gate => gate.mnemonic = folded

/-- The gate of exactly this type name. -/
def ofTypeName? (name : String) : Option Gate :=
  catalog.find? fun gate => gate.typeName = name

@[simp] theorem ofName?_mnemonic (gate : Gate) : ofName? gate.mnemonic = some gate := by
  cases gate with
  | single gate => cases gate <;> decide +kernel
  | cnot => decide +kernel

@[simp] theorem ofName?_typeName (gate : Gate) : ofName? gate.typeName = some gate := by
  cases gate with
  | single gate => cases gate <;> decide +kernel
  | cnot => decide +kernel

@[simp] theorem ofTypeName?_typeName (gate : Gate) : ofTypeName? gate.typeName = some gate := by
  cases gate with
  | single gate => cases gate <;> decide +kernel
  | cnot => decide +kernel

end Gate

end CircuitBench
