import CircuitBench.Proofs.Assembly.Reader
import Mathlib

/-!
# Registers side by side

A register begins where those in front of it end. So it lies in front of all qubits that are
declared later, and a later declaration moves none of its qubits. If no name occurs twice and the
total fits into 32 bits, no two registers share a qubit, every qubit belongs to one of them, and
the index of a qubit is an exact sum.
-/

namespace CircuitBench.Assembly.Registers

theorem total_eq_sum (registers : Registers) :
    registers.total = (registers.map Prod.snd).sum := by
  induction registers with
  | nil => rfl
  | cons register rest ih => rw [total, ih, List.map_cons, List.sum_cons]

theorem declares_eq_true_iff {registers : Registers} {name : String} :
    registers.declares name = true ↔ name ∈ registers.map Prod.fst := by
  simp [declares]

section Locate

variable {registers : Registers} {name other : String} {start offset size : Nat}

theorem locateFrom_eq_some_iff : locateFrom start name registers = some (offset, size) ↔
    ∃ front behind, registers = front ++ (name, size) :: behind ∧
      name ∉ front.map Prod.fst ∧ offset = start + front.total := by
  induction registers generalizing start with
  | nil => simp [locateFrom]
  | cons register rest ih =>
    obtain ⟨first, width⟩ := register
    rw [locateFrom]
    split_ifs with same
    · subst same
      constructor
      · intro here
        obtain ⟨rfl, rfl⟩ := Prod.mk.inj (Option.some.inj here)
        exact ⟨[], rest, rfl, List.not_mem_nil, rfl⟩
      · rintro ⟨front, behind, whole, fresh, rfl⟩
        cases front with
        | nil =>
          obtain ⟨here, -⟩ := List.cons.inj whole
          rw [(Prod.mk.inj here).2]
          rfl
        | cons head front =>
          obtain ⟨here, -⟩ := List.cons.inj whole
          exact absurd (here ▸ List.mem_cons_self) fresh
    · rw [ih]
      constructor
      · rintro ⟨front, behind, rfl, fresh, rfl⟩
        refine ⟨(first, width) :: front, behind, rfl, ?_, by rw [total]; omega⟩
        exact fun member => (List.mem_cons.mp member).elim (fun e => same e.symm) fresh
      · rintro ⟨front, behind, whole, fresh, rfl⟩
        cases front with
        | nil => exact absurd (Prod.mk.inj (List.cons.inj whole).1).1 same
        | cons head front =>
          obtain ⟨rfl, rfl⟩ := List.cons.inj whole
          refine ⟨front, behind, rfl, fun member => fresh (.tail _ member), ?_⟩
          rw [total]
          omega

/-- A register begins where the registers in front of it end. -/
theorem locate?_eq_some_iff : registers.locate? name = some (offset, size) ↔
    ∃ front behind, registers = front ++ (name, size) :: behind ∧
      name ∉ front.map Prod.fst ∧ offset = front.total := by
  rw [locate?, locateFrom_eq_some_iff]
  simp only [Nat.zero_add]

/-- A later declaration does not move a register. -/
theorem locate?_append (located : registers.locate? name = some (offset, size))
    (more : Registers) : (registers ++ more).locate? name = some (offset, size) := by
  obtain ⟨front, behind, rfl, fresh, rfl⟩ := locate?_eq_some_iff.mp located
  exact locate?_eq_some_iff.mpr ⟨front, behind ++ more, List.append_assoc .., fresh, rfl⟩

theorem offset_add_size_le (located : registers.locate? name = some (offset, size)) :
    offset + size ≤ registers.total := by
  obtain ⟨front, behind, rfl, -, rfl⟩ := locate?_eq_some_iff.mp located
  rw [total_append, total]
  omega

/-- Of two registers one ends before the other begins. -/
theorem disjoint_of_ne {offset' size' : Nat} (apart : name ≠ other)
    (located : registers.locate? name = some (offset, size))
    (located' : registers.locate? other = some (offset', size')) :
    offset + size ≤ offset' ∨ offset' + size' ≤ offset := by
  obtain ⟨front, behind, rfl, -, rfl⟩ := locate?_eq_some_iff.mp located
  obtain ⟨front', behind', whole, -, rfl⟩ := locate?_eq_some_iff.mp located'
  rcases List.append_eq_append_iff.mp whole with ⟨between, rfl, rest⟩ | ⟨between, rfl, rest⟩
  · cases between with
    | nil => exact absurd (Prod.mk.inj (List.cons.inj rest).1).1 apart
    | cons head between =>
      obtain ⟨rfl, -⟩ := List.cons.inj rest
      rw [total_append, total]
      omega
  · cases between with
    | nil => exact absurd (Prod.mk.inj (List.cons.inj rest).1).1.symm apart
    | cons head between =>
      obtain ⟨rfl, -⟩ := List.cons.inj rest
      rw [total_append, total]
      omega

end Locate

section Resolve

variable {registers : Registers} {operand : Operand} {q : UInt32}

theorem resolve_eq_ok_iff : registers.resolve operand = .ok q ↔
    ∃ offset size, registers.locate? operand.register = some (offset, size) ∧
      operand.index < size ∧ q = UInt32.ofNat (offset + operand.index) := by
  rw [resolve]
  cases registers.locate? operand.register with
  | none => cases registers.isEmpty <;> simp
  | some place =>
    obtain ⟨offset, size⟩ := place
    by_cases inside : operand.index < size
    · simp [inside, eq_comm]
    · simp only [if_neg inside]
      refine iff_of_false nofun ?_
      rintro ⟨offset', size', here, less, -⟩
      obtain ⟨rfl, rfl⟩ := Prod.mk.inj (Option.some.inj here)
      exact inside less

/-- An operand stands for the same qubit after later declarations. -/
theorem resolve_append (resolved : registers.resolve operand = .ok q) (more : Registers) :
    (registers ++ more).resolve operand = .ok q := by
  obtain ⟨offset, size, located, inside, index⟩ := resolve_eq_ok_iff.mp resolved
  exact resolve_eq_ok_iff.mpr ⟨offset, size, locate?_append located more, inside, index⟩

theorem resolveAll_append {operands : List Operand} {qubits : List UInt32}
    (resolved : registers.resolveAll operands = .ok qubits) (more : Registers) :
    (registers ++ more).resolveAll operands = .ok qubits := by
  induction operands generalizing qubits with
  | nil => exact resolved
  | cons operand rest ih =>
    rw [resolveAll] at resolved ⊢
    cases first : registers.resolve operand with
    | error fault => simp [first] at resolved
    | ok q =>
      cases behind : registers.resolveAll rest with
      | error fault => simp [first, behind] at resolved
      | ok found =>
        simp only [first, behind] at resolved
        simp only [resolve_append first more, ih behind, resolved]

end Resolve

/-- Every index below the total lies in a register. -/
theorem exists_split_of_lt_total {registers : Registers} {k : Nat} (less : k < registers.total) :
    ∃ (front : Registers) (name : String) (size : Nat) (behind : Registers) (i : Nat),
      registers = front ++ (name, size) :: behind ∧ i < size ∧ k = front.total + i := by
  induction registers generalizing k with
  | nil => exact absurd less (Nat.not_lt_zero k)
  | cons register rest ih =>
    obtain ⟨name, size⟩ := register
    rw [total] at less
    by_cases inside : k < size
    · exact ⟨[], name, size, rest, k, rfl, inside, (Nat.zero_add k).symm⟩
    · have later : k - size < total rest := by omega
      obtain ⟨front, other, width, behind, i, rfl, inside', index⟩ := ih later
      exact ⟨(name, size) :: front, other, width, behind, i, rfl, inside', by rw [total]; omega⟩

/-- The registers lie side by side below the limit, and an operand stands for the qubit as far
behind the beginning of its register as its index says. -/
structure SideBySide (limit : Nat) (registers : Registers) : Prop where
  nodup : (registers.map Prod.fst).Nodup
  within : registers.Within limit
  below : ∀ {name offset size}, registers.locate? name = some (offset, size) →
    offset + size ≤ registers.total
  disjoint : ∀ {name other offset size offset' size'}, name ≠ other →
    registers.locate? name = some (offset, size) →
    registers.locate? other = some (offset', size') →
      offset + size ≤ offset' ∨ offset' + size' ≤ offset
  /-- The sum of the two needs no more than 32 bits. -/
  exact : ∀ {operand q}, registers.resolve operand = .ok q →
    ∃ offset size, registers.locate? operand.register = some (offset, size) ∧
      operand.index < size ∧ q.toNat = offset + operand.index

theorem sideBySide_of_nodup {limit : Nat} {registers : Registers}
    (nodup : (registers.map Prod.fst).Nodup) (within : registers.Within limit) :
    registers.SideBySide limit where
  nodup := nodup
  within := within
  below := offset_add_size_le
  disjoint := disjoint_of_ne
  exact := by
    intro operand q resolved
    obtain ⟨offset, size, located, inside, rfl⟩ := resolve_eq_ok_iff.mp resolved
    have small := within.1
    have below := offset_add_size_le located
    exact ⟨offset, size, located, inside, UInt32.toNat_ofNat_of_lt' (by rw [UInt32.size]; omega)⟩

namespace SideBySide

variable {limit : Nat} {registers : Registers}

theorem nil (limit : Nat) : SideBySide limit [] :=
  sideBySide_of_nodup .nil (within_nil limit)

/-- A declaration puts its register behind the others. -/
theorem declare (side : registers.SideBySide limit) {name : String} {size : Nat}
    {after : Registers} (h : registers.declare limit name size = .ok after) :
    after = registers ++ [(name, size)] ∧ after.SideBySide limit := by
  have within := within_declare h
  simp only [Registers.declare] at h
  split_ifs at h with declared
  obtain rfl := Except.ok.inj h
  refine ⟨rfl, sideBySide_of_nodup ?_ within⟩
  rw [List.map_append, List.nodup_append_comm]
  refine List.nodup_cons.mpr ⟨?_, side.nodup⟩
  exact fun member => declared (declares_eq_true_iff.mpr member)

variable (side : registers.SideBySide limit)

include side

theorem lt_total {operand : Operand} {q : UInt32} (resolved : registers.resolve operand = .ok q) :
    q.toNat < registers.total := by
  obtain ⟨offset, size, located, inside, index⟩ := side.exact resolved
  have := side.below located
  omega

/-- Two operands that stand for the same qubit are the same. -/
theorem resolve_injective {operand operand' : Operand} {q : UInt32}
    (resolved : registers.resolve operand = .ok q)
    (resolved' : registers.resolve operand' = .ok q) : operand = operand' := by
  obtain ⟨offset, size, located, inside, index⟩ := side.exact resolved
  obtain ⟨offset', size', located', inside', index'⟩ := side.exact resolved'
  obtain ⟨name, i⟩ := operand
  obtain ⟨name', i'⟩ := operand'
  by_cases same : name = name'
  · subst same
    obtain ⟨rfl, rfl⟩ := Prod.mk.inj (Option.some.inj (located.symm.trans located'))
    simp only [Operand.mk.injEq, true_and]
    simp only at index index'
    omega
  · have apart := side.disjoint same located located'
    simp only at index index' inside inside'
    omega

/-- The index of a qubit is the sum of the sizes in front of its register and its place in it. -/
theorem exists_resolve {front behind : Registers} {name : String} {size i : Nat}
    (split : registers = front ++ (name, size) :: behind) (inside : i < size) :
    ∃ q : UInt32, registers.resolve ⟨name, i⟩ = .ok q ∧ q.toNat = front.total + i := by
  have fresh : name ∉ front.map Prod.fst := by
    have nodup := side.nodup
    rw [split, List.map_append, List.map_cons] at nodup
    exact fun member => (List.nodup_middle.mp nodup).notMem (List.mem_append_left _ member)
  have located := locate?_eq_some_iff.mpr ⟨front, behind, split, fresh, rfl⟩
  have resolved : registers.resolve ⟨name, i⟩ = .ok (UInt32.ofNat (front.total + i)) :=
    resolve_eq_ok_iff.mpr ⟨_, _, located, inside, rfl⟩
  obtain ⟨offset, size', located', -, index⟩ := side.exact resolved
  obtain ⟨rfl, rfl⟩ := Prod.mk.inj (Option.some.inj (located.symm.trans located'))
  exact ⟨_, resolved, index⟩

/-- Every index below the total is the one of an operand. -/
theorem exists_operand {q : UInt32} (less : q.toNat < registers.total) :
    ∃ operand, registers.resolve operand = .ok q := by
  obtain ⟨front, name, size, behind, i, split, inside, index⟩ :=
    exists_split_of_lt_total less
  obtain ⟨q', resolved, same⟩ := side.exists_resolve split inside
  obtain rfl : q' = q := UInt32.toNat_inj.mp (same.trans index.symm)
  exact ⟨_, resolved⟩

end SideBySide

end CircuitBench.Assembly.Registers
