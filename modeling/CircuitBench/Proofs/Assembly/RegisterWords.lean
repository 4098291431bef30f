import CircuitBench.Proofs.Assembly.RegisterLayout
import Mathlib

/-!
# Registers in words

A table of registers as a machine keeps it. Where a register begins, its size and the number of all
qubits are words of 32 bits. The numbers of a statement are words of 64 bits, which are narrowed
before anything is done with them, and sizes are added up with a check. As long as all qubits fit
into 32 bits, which each declaration sees to, such a table takes and refuses what registers with
sizes that are natural numbers do, and for the same reasons.
-/

namespace CircuitBench.Assembly

section Words

/-- A word of 64 bits as one of 32 bits; none if it does not fit. -/
def narrow? (n : UInt64) : Option UInt32 :=
  if n ≤ 0xffffffff then some n.toUInt32 else none

/-- The sum of two words; none if it wraps around. -/
def add? (a b : UInt32) : Option UInt32 :=
  if a ≤ a + b then some (a + b) else none

theorem narrow?_eq (n : UInt64) :
    narrow? n = if n.toNat < 2 ^ 32 then some (UInt32.ofNat n.toNat) else none := by
  have fits : n ≤ 0xffffffff ↔ n.toNat < 2 ^ 32 := by
    rw [UInt64.le_iff_toNat_le]
    change n.toNat ≤ 4294967295 ↔ n.toNat < 4294967296
    omega
  simp only [narrow?, fits]
  rfl

/-- A word passes the comparison with a size of 32 bits if the number does. -/
theorem narrow?_filter_lt {size : Nat} (small : size < 2 ^ 32) (index : UInt64) :
    (narrow? index).filter (· < UInt32.ofNat size) =
      if index.toNat < size then some (UInt32.ofNat index.toNat) else none := by
  rw [narrow?_eq]
  by_cases fits : index.toNat < 2 ^ 32
  · have less : UInt32.ofNat index.toNat < UInt32.ofNat size ↔ index.toNat < size := by
      rw [UInt32.lt_iff_toNat_lt, UInt32.toNat_ofNat_of_lt' fits, UInt32.toNat_ofNat_of_lt' small]
    rw [if_pos fits, Option.filter_some]
    simp only [less, decide_eq_true_eq]
  · rw [if_neg fits, if_neg (by omega), Option.filter_none]

theorem add?_ofNat {m n : Nat} (first : m < 2 ^ 32) (second : n < 2 ^ 32) :
    add? (UInt32.ofNat m) (UInt32.ofNat n) =
      if m + n < 2 ^ 32 then some (UInt32.ofNat (m + n)) else none := by
  have sum : UInt32.ofNat m + UInt32.ofNat n = UInt32.ofNat (m + n) := (UInt32.ofNat_add m n).symm
  have fits : UInt32.ofNat m ≤ UInt32.ofNat (m + n) ↔ m + n < 2 ^ 32 := by
    rw [UInt32.le_iff_toNat_le, UInt32.toNat_ofNat_of_lt' first, UInt32.toNat_ofNat']
    omega
  simp only [add?, sum, fits]

end Words

/-- Registers with the places where they begin, and the number of all qubits. -/
structure WordTable where
  entries : List (String × UInt32 × UInt32)
  count : UInt32
deriving DecidableEq, Repr

namespace WordTable

/-- The size of one more register and the number of qubits with it; none if one of them does not fit
into 32 bits. -/
def extend? (table : WordTable) (size : UInt64) : Option (UInt32 × UInt32) := do
  let size ← narrow? size
  let total ← add? table.count size
  return (size, total)

def declare (table : WordTable) (limit : UInt32) (name : String) (size : UInt64) :
    Except RegisterFault WordTable :=
  if table.entries.any (·.1 = name) then .error (.declaredTwice name)
  else
    match table.extend? size with
    | none => .error (.tooLarge name)
    | some (size, total) =>
      if limit < total then .error (.overLimit name total.toNat limit.toNat)
      else .ok ⟨table.entries ++ [(name, table.count, size)], total⟩

def resolve (table : WordTable) (name : String) (index : UInt64) : Except RegisterFault UInt32 :=
  match table.entries.lookup name with
  | some (offset, size) =>
    match (narrow? index).filter (· < size) with
    | some index => .ok (offset + index)
    | none => .error (.indexOutOfRange index.toNat name size.toNat)
  | none => if table.entries.isEmpty then .error .noRegisters else .error (.undeclared name)

end WordTable

namespace Registers

def entriesFrom (start : Nat) : Registers → List (String × UInt32 × UInt32)
  | [] => []
  | (name, size) :: rest =>
    (name, UInt32.ofNat start, UInt32.ofNat size) :: entriesFrom (start + size) rest

def inWords (registers : Registers) : WordTable :=
  ⟨registers.entriesFrom 0, UInt32.ofNat registers.total⟩

variable {registers : Registers} {name : String} {start : Nat}

theorem any_entriesFrom :
    (registers.entriesFrom start).any (·.1 = name) = registers.declares name := by
  induction registers generalizing start with
  | nil => rfl
  | cons register rest ih => exact congrArg (decide (register.1 = name) || ·) ih

theorem isEmpty_entriesFrom : (registers.entriesFrom start).isEmpty = registers.isEmpty := by
  cases registers <;> rfl

theorem lookup_entriesFrom :
    (registers.entriesFrom start).lookup name =
      (locateFrom start name registers).map fun (offset, size) =>
        (UInt32.ofNat offset, UInt32.ofNat size) := by
  induction registers generalizing start with
  | nil => rfl
  | cons register rest ih =>
    obtain ⟨other, size⟩ := register
    rw [entriesFrom, locateFrom]
    by_cases same : other = name
    · subst same
      rw [List.lookup_cons_self, if_pos rfl]
      rfl
    · rw [if_neg same, ← ih, List.lookup_cons, beq_false_of_ne (Ne.symm same)]

theorem entriesFrom_append (more : Registers) :
    entriesFrom start (registers ++ more) =
      entriesFrom start registers ++ entriesFrom (start + registers.total) more := by
  induction registers generalizing start with
  | nil => rfl
  | cons register rest ih =>
    rw [List.cons_append, entriesFrom, entriesFrom, ih, total, Nat.add_assoc]
    rfl

theorem inWords_append_singleton (size : Nat) :
    (registers ++ [(name, size)]).inWords =
      ⟨registers.inWords.entries ++ [(name, registers.inWords.count, UInt32.ofNat size)],
        UInt32.ofNat (registers.total + size)⟩ := by
  rw [inWords, entriesFrom_append, total_append, Nat.zero_add]
  rfl

variable (small : registers.total < 2 ^ 32)

include small

/-- A size is added to the number of qubits if the sum fits into 32 bits. -/
theorem extend?_inWords (size : UInt64) :
    registers.inWords.extend? size =
      if registers.total + size.toNat < 2 ^ 32 then
        some (UInt32.ofNat size.toNat, UInt32.ofNat (registers.total + size.toNat))
      else none := by
  rw [WordTable.extend?, narrow?_eq]
  by_cases fits : size.toNat < 2 ^ 32
  · have sum := add?_ofNat small fits
    rw [if_pos fits]
    change (add? (UInt32.ofNat registers.total) (UInt32.ofNat size.toNat)).bind _ = _
    rw [sum]
    split_ifs <;> rfl
  · rw [if_neg fits, if_neg (by omega)]
    rfl

/-- A table takes a register or refuses it as the registers do. -/
theorem declare_inWords (limit : UInt32) (name : String) (size : UInt64) :
    registers.inWords.declare limit name size =
      (registers.declare limit.toNat name size.toNat).map inWords := by
  have declared : registers.inWords.entries.any (·.1 = name) = registers.declares name :=
    any_entriesFrom
  rw [WordTable.declare, declare, declared, extend?_inWords small]
  by_cases twice : registers.declares name = true
  · rw [if_pos twice, if_pos twice]
    rfl
  rw [if_neg twice, if_neg twice]
  by_cases fits : registers.total + size.toNat < 2 ^ 32
  · have exact : (UInt32.ofNat (registers.total + size.toNat)).toNat =
        registers.total + size.toNat := UInt32.toNat_ofNat_of_lt' fits
    simp only [if_pos fits, if_neg (Nat.not_le.mpr fits), UInt32.lt_iff_toNat_lt, exact]
    split_ifs with beyond
    · rfl
    · rw [Except.map, inWords_append_singleton]
  · simp only [if_neg fits, if_pos (Nat.not_lt.mp fits)]
    rfl

/-- An element of a table is the one of the registers. -/
theorem resolve_inWords (name : String) (index : UInt64) :
    registers.inWords.resolve name index = registers.resolve ⟨name, index.toNat⟩ := by
  have found : registers.inWords.entries.lookup name = _ := lookup_entriesFrom
  rw [WordTable.resolve, resolve, found, ← locate?]
  cases located : registers.locate? name with
  | none =>
    rw [Option.map_none, inWords, isEmpty_entriesFrom]
  | some place =>
    obtain ⟨offset, size⟩ := place
    have below := offset_add_size_le located
    have fits : size < 2 ^ 32 := Nat.lt_of_le_of_lt (Nat.le_of_add_left_le below) small
    simp only [Option.map_some, narrow?_filter_lt fits]
    by_cases inside : index.toNat < size
    · rw [if_pos inside, if_pos inside, UInt32.ofNat_add]
    · rw [if_neg inside, if_neg inside, UInt32.toNat_ofNat_of_lt' fits]

end Registers

end CircuitBench.Assembly
