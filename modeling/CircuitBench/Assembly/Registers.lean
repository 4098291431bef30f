import CircuitBench.Assembly.Statement

/-!
# Registers

The quantum registers of a text are laid side by side in the order of their
declarations, so that each qubit of a register has one index among all qubits. A
register begins where the ones before it end.
-/

namespace CircuitBench.Assembly

/-- The declared registers with their sizes, in order of declaration. -/
abbrev Registers := List (String × Nat)

/-- Why a declaration or an operand is refused. -/
inductive RegisterFault where
  | declaredTwice (name : String)
  /-- The qubits could no longer be indexed by 32 bits. -/
  | tooLarge (name : String)
  /-- There would be more qubits than allowed. -/
  | overLimit (name : String) (total limit : Nat)
  /-- An operand although there are no registers at all. -/
  | noRegisters
  | undeclared (name : String)
  | indexOutOfRange (index : Nat) (name : String) (size : Nat)
deriving DecidableEq, Repr

namespace RegisterFault

def message : RegisterFault → String
  | declaredTwice name => "register `" ++ name ++ "` is declared twice"
  | tooLarge name => "register `" ++ name ++ "` is too large"
  | overLimit name total limit =>
    "register `" ++ name ++ "` brings the total to " ++ toString total ++ " qubits, limit is " ++
      toString limit
  | noRegisters => "gate applied before any quantum register is declared"
  | undeclared name => "undeclared register `" ++ name ++ "`"
  | indexOutOfRange index name size =>
    "index " ++ toString index ++ " out of range for register `" ++ name ++ "` of size " ++
      toString size

end RegisterFault

namespace Registers

/-- The number of qubits in all registers. -/
def total : Registers → Nat
  | [] => 0
  | (_, size) :: rest => size + total rest

def declares (registers : Registers) (name : String) : Bool :=
  registers.any (·.1 = name)

/-- Where a register begins, and its size, if `start` qubits come before all registers. -/
def locateFrom (start : Nat) (name : String) : Registers → Option (Nat × Nat)
  | [] => none
  | (other, size) :: rest =>
    if other = name then some (start, size) else locateFrom (start + size) name rest

def locate? (registers : Registers) (name : String) : Option (Nat × Nat) :=
  locateFrom 0 name registers

/-- The registers with one more. A name is declared once, an index has 32 bits, and the
number of qubits stays within the limit; the rules are tried in this order. -/
def declare (registers : Registers) (limit : Nat) (name : String) (size : Nat) :
    Except RegisterFault Registers :=
  let total := registers.total + size
  if registers.declares name then .error (.declaredTwice name)
  else if 2 ^ 32 ≤ total then .error (.tooLarge name)
  else if limit < total then .error (.overLimit name total limit)
  else .ok (registers ++ [(name, size)])

/-- The index among all qubits that an operand stands for. -/
def resolve (registers : Registers) (operand : Operand) : Except RegisterFault UInt32 :=
  match registers.locate? operand.register with
  | some (offset, size) =>
    if operand.index < size then .ok (UInt32.ofNat (offset + operand.index))
    else .error (.indexOutOfRange operand.index operand.register size)
  | none =>
    if registers.isEmpty then .error .noRegisters else .error (.undeclared operand.register)

/-- The indices of several operands, or the fault of the first that has one. -/
def resolveAll (registers : Registers) : List Operand → Except RegisterFault (List UInt32)
  | [] => .ok []
  | operand :: rest =>
    match registers.resolve operand with
    | .error fault => .error fault
    | .ok qubit =>
      match resolveAll registers rest with
      | .error fault => .error fault
      | .ok qubits => .ok (qubit :: qubits)

@[simp] theorem total_nil : total [] = 0 := rfl

@[simp] theorem total_append (r s : Registers) : total (r ++ s) = r.total + s.total := by
  induction r with
  | nil => exact (Nat.zero_add s.total).symm
  | cons register rest ih =>
    rw [List.cons_append, total, total, ih, Nat.add_assoc]

@[simp] theorem total_singleton (name : String) (size : Nat) : total [(name, size)] = size := rfl

/-- A declaration adds its size to the number of qubits, which stays within the limit. -/
theorem total_declare {registers after : Registers} {limit : Nat} {name : String} {size : Nat}
    (h : registers.declare limit name size = .ok after) :
    after.total = registers.total + size ∧ after.total < 2 ^ 32 ∧ after.total ≤ limit := by
  unfold declare at h
  dsimp only at h
  split at h
  · cases h
  split at h
  · cases h
  split at h
  · cases h
  · cases h
    have grown : total (registers ++ [(name, size)]) = registers.total + size := by simp
    exact ⟨grown, by omega, by omega⟩

end Registers

end CircuitBench.Assembly
