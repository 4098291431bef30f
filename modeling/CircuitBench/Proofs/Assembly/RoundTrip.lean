import CircuitBench.Proofs.Assembly.PrintedLine
import CircuitBench.Proofs.Assembly.Reader

/-!
# Reading what has been printed

The text of a circuit declares one register of the circuit's width, so an operand's
index is the qubit it stands for. Instructions are read one by one in their order:
operations become the placements they came from, and measurements leave nothing. The
circuit is read back under every limit that its width keeps to.
-/

namespace CircuitBench

def Instruction.placement? : Instruction → Option Placement
  | .apply op => some (.ofOperation op)
  | .measure _ => none

theorem Circuit.filterMap_placement?_instructions (c : Circuit) :
    c.instructions.filterMap Instruction.placement? = c.ops.map Placement.ofOperation := by
  have operations : Instruction.placement? ∘ Instruction.apply = some ∘ Placement.ofOperation :=
    rfl
  have measurements : Instruction.placement? ∘ Instruction.measure = fun _ => none := rfl
  have nothing : (List.range c.width.toNat).filterMap (fun _ => none) = ([] : List Placement) :=
    List.filterMap_eq_nil_iff.mpr fun _ _ => rfl
  rw [instructions, List.filterMap_append, List.filterMap_map, List.filterMap_map, operations,
    measurements, nothing, List.filterMap_eq_map, List.append_nil]

namespace Assembly

theorem resolve_qubit {width : Nat} {q : UInt32} (h : q.toNat < width) :
    Registers.resolve [("q", width)] ⟨"q", q.toNat⟩ = .ok q := by
  simp [Registers.resolve, Registers.locate?, Registers.locateFrom, h]

theorem resolveAll_qubits {width : Nat} {qubits : List UInt32}
    (h : ∀ q ∈ qubits, q.toNat < width) :
    Registers.resolveAll [("q", width)] (qubits.map fun q => ⟨"q", q.toNat⟩) = .ok qubits := by
  induction qubits with
  | nil => rfl
  | cons q rest ih =>
    rw [List.map_cons, Registers.resolveAll, resolve_qubit (h q List.mem_cons_self),
      ih fun other member => h other (.tail q member)]

/-- Reading instructions keeps the register and gathers what the instructions place. -/
theorem readLines_instructions {limit width : Nat} (small : width < 2 ^ 64)
    {instructions : List Instruction}
    (fits : ∀ instruction ∈ instructions, instruction.Fits width) (number : Nat) :
    readLines limit [("q", width)] number
        (instructions.map fun instruction => (instructionText instruction).toList) =
      .ok ⟨[("q", width)], instructions.filterMap Instruction.placement?⟩ := by
  induction instructions generalizing number with
  | nil => rfl
  | cons instruction rest ih =>
    have first := fits instruction List.mem_cons_self
    have behind := ih fun other member => fits other (.tail instruction member)
    have read := Statement.ofLine_instructionText first small
    rw [List.map_cons]
    cases instruction with
    | apply op => exact readLines_apply read (resolveAll_qubits first.1) (behind (number + 1))
    | measure qubit =>
      rw [readLines_measure read]
      exact behind (number + 1)

theorem declare_first {limit : Nat} {name : String} {size : Nat} (small : size < 2 ^ 32)
    (within : size ≤ limit) : Registers.declare [] limit name size = .ok [(name, size)] := by
  have fresh : ¬ Registers.declares [] name := Bool.false_ne_true
  have total : Registers.total [] + size = size := Nat.zero_add size
  simp only [Registers.declare, total]
  rw [if_neg fresh, if_neg (Nat.not_le.mpr small), if_neg (Nat.not_lt.mpr within)]
  rfl

/-- The lines of a circuit give its register and its operations. -/
theorem readLines_printedLines {limit : Nat} (c : Circuit) (within : c.width.toNat ≤ limit) :
    readLines limit [] 1 ((printedLines c).map String.toList) =
      .ok ⟨[("q", c.width.toNat)], c.ops.map Placement.ofOperation⟩ := by
  have wide := toNat_lt_two_pow_64 c.width
  have body : readLines limit _ 5 _ = _ := readLines_instructions wide c.fits_instructions 5
  rw [c.filterMap_placement?_instructions] at body
  simp only [printedLines, heading, List.map_map, List.map_cons, List.cons_append,
    List.nil_append]
  rw [readLines_skip Statement.ofLine_version, readLines_skip Statement.ofLine_include,
    readLines_declare (Statement.ofLine_declaration wide) (declare_first c.width.toNat_lt within),
    readLines_skip (Statement.ofLine_classical _)]
  exact body

/-- A circuit is read back from its text under every limit that it keeps to. -/
theorem read_print_of_le {limit : Nat} (c : Circuit) (within : c.width.toNat ≤ limit) :
    read limit (print c) = .ok c := by
  rw [read, print, lines_joinLines (isUnbroken_printedLines c), readLines_printedLines c within]
  simp [Contents.circuit, Circuit.ofPlacements_ofOperation]

/-- Printing and reading a circuit gives the same circuit: the same number of qubits and the same
operations in the same order. -/
theorem read_print (c : Circuit) : read maxQubits (print c) = .ok c := by
  refine read_print_of_le c ?_
  have := c.width.toNat_lt
  rw [maxQubits]
  omega

end Assembly

end CircuitBench
