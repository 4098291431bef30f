import CircuitBench.Proofs.Assembly.Declaration
import CircuitBench.Proofs.Assembly.RegisterLayout
import Mathlib

/-!
# The qubits of a text

Each line of a text declares a register, applies a gate, or does neither. The reading puts the
declared registers side by side in their order, and the operands of a gate stand for the same
qubits among the registers in front of its line as among all of them.
-/

namespace CircuitBench.Assembly

section Step

variable {limit number : Nat} {registers : Registers} {line : List Char} {rest : List (List Char)}

/-- How a line is read, if it and those behind it are read without a fault. -/
inductive Reading (limit : Nat) (registers : Registers) (number : Nat) (line : List Char)
    (rest : List (List Char)) : Contents → Prop
  | passed {contents : Contents} (idle : Statement.ofLine line = .ok none)
    (behind : readLines limit registers (number + 1) rest = .ok contents) :
    Reading limit registers number line rest contents
  | measured {qubit bit : Operand} {contents : Contents}
    (measures : Statement.ofLine line = .ok (some (.measure qubit bit)))
    (behind : readLines limit registers (number + 1) rest = .ok contents) :
    Reading limit registers number line rest contents
  | declared {name : String} {size : Nat} {after : Registers} {contents : Contents}
    (declares : Statement.ofLine line = .ok (some (.declare name size)))
    (laid : registers.declare limit name size = .ok after)
    (behind : readLines limit after (number + 1) rest = .ok contents) :
    Reading limit registers number line rest contents
  | applied {gate : Gate} {operands : List Operand} {qubits : List UInt32} {contents : Contents}
    (applies : Statement.ofLine line = .ok (some (.apply gate operands)))
    (resolved : registers.resolveAll operands = .ok qubits)
    (behind : readLines limit registers (number + 1) rest = .ok contents) :
    Reading limit registers number line rest
      { contents with placements := ⟨gate, qubits, []⟩ :: contents.placements }

theorem readLines_cons_eq_ok_iff {contents : Contents} :
    readLines limit registers number (line :: rest) = .ok contents ↔
      Reading limit registers number line rest contents := by
  constructor
  · intro read
    rw [readLines] at read
    split at read
    · cases read
    · split at read
      · cases read
      · exact .declared ‹_› ‹_› read
    · split at read
      · cases read
      · split at read
        · cases read
        · cases read
          exact .applied ‹_› ‹_› ‹_›
    · next statement no_declaration no_application here =>
      cases statement with
      | none => exact .passed here read
      | some statement =>
        cases statement with
        | declare name size => exact absurd rfl (no_declaration name size)
        | apply gate operands => exact absurd rfl (no_application gate operands)
        | measure qubit bit => exact .measured here read
  · intro reading
    cases reading with
    | passed idle behind => rwa [readLines_skip idle]
    | measured measures behind => rwa [readLines_measure measures]
    | declared declares laid behind => rwa [readLines_declare declares laid]
    | applied applies resolved behind => exact readLines_apply applies resolved behind

end Step

section Run

/-- A placement is that of a gate on the qubits that its operands stand for. -/
structure Places (registers : Registers) (application : Gate × List Operand)
    (placement : Placement) : Prop where
  gate : placement.gate = application.1
  params : placement.params = []
  qubits : registers.resolveAll application.2 = .ok placement.qubits

variable {limit number : Nat} {registers : Registers} {contents : Contents}

/-- Lines that are read put what they declare behind the registers that are there, and place the
gates that they apply on the qubits of all registers. -/
theorem contents_of_readLines {lines : List (List Char)} (side : registers.SideBySide limit)
    (read : readLines limit registers number lines = .ok contents) :
    contents.registers = registers ++ declarations lines ∧
      contents.registers.SideBySide limit ∧
      List.Forall₂ (Places contents.registers) (applications lines) contents.placements := by
  induction lines generalizing registers number contents with
  | nil =>
    obtain rfl := Except.ok.inj read
    exact ⟨(List.append_nil _).symm, side, .nil⟩
  | cons line rest ih =>
    cases readLines_cons_eq_ok_iff.mp read with
    | passed idle behind =>
      rw [declarations, applications,
        List.filterMap_cons_none (declaration?_eq_none idle (by simp)),
        List.filterMap_cons_none (by simp [application?, idle])]
      exact ih side behind
    | measured measures behind =>
      rw [declarations, applications,
        List.filterMap_cons_none (declaration?_eq_none measures (by simp)),
        List.filterMap_cons_none (by simp [application?, measures])]
      exact ih side behind
    | @declared name size after _ declares laid behind =>
      obtain ⟨rfl, still⟩ := side.declare laid
      obtain ⟨registers, kept, placed⟩ := ih still behind
      rw [declarations, applications,
        List.filterMap_cons_some (declaration?_eq_some_iff.mpr declares),
        List.filterMap_cons_none (by simp [application?, declares])]
      exact ⟨registers.trans (List.append_assoc ..), kept, placed⟩
    | @applied gate operands qubits contents applies resolved behind =>
      obtain ⟨grown, kept, placed⟩ := ih side behind
      rw [declarations, applications,
        List.filterMap_cons_none (declaration?_eq_none applies (by simp)),
        List.filterMap_cons_some (b := (gate, operands)) (by simp [application?, applies])]
      refine ⟨grown, kept, .cons ⟨rfl, rfl, ?_⟩ placed⟩
      rw [grown]
      exact Registers.resolveAll_append resolved _

/-- Where lines are read, those in front of any place are read on their own. -/
theorem exists_readLines_of_append {before after : List (List Char)}
    (read : readLines limit registers number (before ++ after) = .ok contents) :
    ∃ middle, readLines limit registers number before = .ok middle := by
  induction before generalizing registers number contents with
  | nil => exact ⟨_, rfl⟩
  | cons line rest ih =>
    cases readLines_cons_eq_ok_iff.mp read with
    | passed idle behind =>
      obtain ⟨middle, found⟩ := ih behind
      exact ⟨_, readLines_cons_eq_ok_iff.mpr (.passed idle found)⟩
    | measured measures behind =>
      obtain ⟨middle, found⟩ := ih behind
      exact ⟨_, readLines_cons_eq_ok_iff.mpr (.measured measures found)⟩
    | declared declares laid behind =>
      obtain ⟨middle, found⟩ := ih behind
      exact ⟨_, readLines_cons_eq_ok_iff.mpr (.declared declares laid found)⟩
    | applied applies resolved behind =>
      obtain ⟨middle, found⟩ := ih behind
      exact ⟨_, readLines_cons_eq_ok_iff.mpr (.applied applies resolved found)⟩

end Run

/-- The circuit that contents make up has their width, and its operations are their placements. -/
theorem Contents.circuit_eq_ok {contents : Contents} {c : Circuit}
    (made : contents.circuit = .ok c) :
    c.width = UInt32.ofNat contents.registers.total ∧
      contents.placements = c.ops.map Placement.ofOperation := by
  rw [Contents.circuit] at made
  split at made
  · cases made
  · split at made
    next placed =>
      obtain rfl := Except.ok.inj made
      exact Circuit.eq_of_ofPlacements placed
    next => cases made

/-- The circuit of a text has one qubit for each place in its registers, which lie side by side in
the order of their declarations: the place `i` of a register is the qubit `i` behind the sizes in
front of it. Different operands stand for different qubits, and every qubit has one. The
operations are the gates that the lines apply, in order, on the qubits that their operands stand
for. The lines in front of any place have been read on their own, and have put what they declare
side by side within the limit and within 32 bits. -/
theorem registers_are_laid_side_by_side {limit : Nat} {source : String} {c : Circuit}
    (accepted : read limit source = .ok c) :
    let lines := Text.lines source.toList
    let registers := declarations lines
    (c.width.toNat = (registers.map Prod.snd).sum ∧ 1 ≤ c.width.toNat) ∧
    (∀ (j : Nat) (h : j < registers.length) (i : Nat), i < registers[j].2 →
      ∃ q : UInt32, registers.resolve ⟨registers[j].1, i⟩ = .ok q ∧
        q.toNat = ((registers.take j).map Prod.snd).sum + i) ∧
    (∀ operand q, registers.resolve operand = .ok q → q < c.width) ∧
    (∀ q < c.width, ∃! operand, registers.resolve operand = .ok q) ∧
    List.Forall₂ (fun application op => op.gate = application.1 ∧
        registers.resolveAll application.2 = .ok op.qubits) (applications lines) c.ops ∧
    ∀ before after, lines = before ++ after →
      ∃ contents, readLines limit [] 1 before = .ok contents ∧
        contents.registers = declarations before ∧ contents.registers.SideBySide limit := by
  intro lines registers
  have read_lines : ∃ contents, readLines limit [] 1 lines = .ok contents ∧
      contents.circuit = .ok c := by
    rw [read] at accepted
    split at accepted
    · cases accepted
    · exact ⟨_, ‹_›, accepted⟩
  obtain ⟨contents, found, made⟩ := read_lines
  obtain ⟨same, side, placed⟩ := contents_of_readLines (.nil limit) found
  rw [List.nil_append] at same
  change contents.registers = registers at same
  rw [same] at side placed
  obtain ⟨width, operations⟩ := Contents.circuit_eq_ok made
  have total : c.width.toNat = registers.total := by
    rw [width, same, UInt32.toNat_ofNat_of_lt' side.within.1]
  refine ⟨⟨?_, c.width_pos⟩, ?_, ?_, ?_, ?_, ?_⟩
  · rw [total, Registers.total_eq_sum]
  · intro j h i inside
    have split : registers = registers.take j ++ registers[j] :: registers.drop (j + 1) := by
      rw [← List.drop_eq_getElem_cons h, List.take_append_drop]
    rw [← Registers.total_eq_sum]
    exact side.exists_resolve split inside
  · intro operand q resolved
    rw [UInt32.lt_iff_toNat_lt, total]
    exact side.lt_total resolved
  · intro q less
    rw [UInt32.lt_iff_toNat_lt, total] at less
    obtain ⟨operand, resolved⟩ := side.exists_operand less
    exact ⟨operand, resolved, fun other also => side.resolve_injective also resolved⟩
  · rw [operations, List.forall₂_map_right_iff] at placed
    exact placed.imp fun application op places => ⟨places.gate, places.qubits⟩
  · intro before after split
    rw [split] at found
    obtain ⟨middle, read⟩ := exists_readLines_of_append found
    obtain ⟨declared, laid, -⟩ := contents_of_readLines (.nil limit) read
    exact ⟨middle, read, declared, laid⟩

/-- Two registers, one in each form, with a gate between them. -/
def twoRegisters : String :=
  "qreg a[2];\nqubit[3] b;\ncx a[1], b[2];\n"

theorem registers_are_laid_side_by_side_two :
    ∃ c, read maxQubits twoRegisters = .ok c ∧ c.width.toNat = 5 ∧
      ∃ q : UInt32,
        (declarations (Text.lines twoRegisters.toList)).resolve ⟨"b", 2⟩ = .ok q ∧ q.toNat = 4 := by
  have sound : (read maxQubits twoRegisters).toOption.isSome = true := by decide +kernel
  have declared : declarations (Text.lines twoRegisters.toList) = [("a", 2), ("b", 3)] := by
    decide +kernel
  cases accepted : read maxQubits twoRegisters with
  | error fault =>
    rw [accepted] at sound
    cases sound
  | ok c =>
    obtain ⟨⟨width, -⟩, places, -⟩ := registers_are_laid_side_by_side accepted
    rw [declared] at width places ⊢
    exact ⟨c, rfl, width, places 1 (by decide) 2 (by decide)⟩

end CircuitBench.Assembly
