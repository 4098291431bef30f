import CircuitBench.Assembly.Script
import CircuitBench.Proofs.Assembly.PrintedLine

/-!
# Scripts rendered directly from circuits

A script is made by way of assembly text, but nothing happens on the way: it is the
script that can be written down from the circuit itself, with one call per operation
and per measurement in their order. The calls can be told apart, so a script belongs to
one circuit only.
-/

namespace CircuitBench.Assembly

namespace Script

def operationCall : Operation → String
  | .single gate target =>
    "circuit." ++ method (.single gate) ++ "(" ++ toString target.toNat ++ ")"
  | .cnot control target =>
    "circuit." ++ method .cnot ++ "(" ++ toString control.toNat ++ ", " ++
      toString target.toNat ++ ")"

def measurementCall (qubit : Nat) : String :=
  "circuit.measure(" ++ toString qubit ++ ", " ++ toString qubit ++ ")"

/-- The line that creates a circuit object with as many classical bits as qubits. -/
def creation (width : Nat) : String :=
  "circuit = QuantumCircuit(" ++ toString width ++ ", " ++ toString width ++ ")"

/-- The lines of a script, written down from the circuit. -/
def renderedLines (c : Circuit) : List String :=
  ["from qiskit import QuantumCircuit", "", creation c.width.toNat] ++
    c.ops.map operationCall ++ (List.range c.width.toNat).map measurementCall

/-- The script of a circuit, written down from the circuit. -/
def rendered (c : Circuit) : String :=
  joinLines (renderedLines c)

theorem toList_single (gate : SingleGate) (target : UInt32) :
    (operationCall (.single gate target)).toList =
      "circuit.".toList ++ ((method (.single gate)).toList ++ '(' ::
        (Nat.toDigits 10 target.toNat ++ [')'])) := by
  show ("circuit." ++ method (.single gate) ++ "(" ++ toString target.toNat ++ ")").toList = _
  simp

theorem toList_cnot (control target : UInt32) :
    (operationCall (.cnot control target)).toList =
      "circuit.".toList ++ ((method .cnot).toList ++ '(' ::
        (Nat.toDigits 10 control.toNat ++ ',' :: ' ' ::
          (Nat.toDigits 10 target.toNat ++ [')']))) := by
  show ("circuit." ++ method .cnot ++ "(" ++ toString control.toNat ++ ", " ++
    toString target.toNat ++ ")").toList = _
  simp

theorem toList_measurementCall (qubit : Nat) :
    (measurementCall qubit).toList = "circuit.measure(".toList ++
      (Nat.toDigits 10 qubit ++ ',' :: ' ' :: (Nat.toDigits 10 qubit ++ [')'])) := by
  show ("circuit.measure(" ++ toString qubit ++ ", " ++ toString qubit ++ ")").toList = _
  simp

theorem toList_creation (width : Nat) :
    (creation width).toList = "circuit = QuantumCircuit(".toList ++
      (Nat.toDigits 10 width ++ ',' :: ' ' :: (Nat.toDigits 10 width ++ [')'])) := by
  show ("circuit = QuantumCircuit(" ++ toString width ++ ", " ++ toString width ++ ")").toList = _
  simp

section Step

variable {number : Nat} {line : List Char} {rest : List (List Char)}

theorem ofLines_skip (h : Statement.ofLine line = .ok none) :
    ofLines number (line :: rest) = ofLines (number + 1) rest := by
  rw [ofLines, h]
  cases ofLines (number + 1) rest <;> rfl

theorem ofLines_statement {statement : Statement} {lines : List String}
    (h : Statement.ofLine line = .ok (some statement))
    (behind : ofLines (number + 1) rest = .ok lines) :
    ofLines number (line :: rest) = .ok (ofStatement statement :: lines) := by
  simp [ofLines, h, behind]

end Step

def instructionCall : Instruction → String
  | .apply op => operationCall op
  | .measure qubit => measurementCall qubit

theorem ofStatement_ofInstruction (instruction : Instruction) :
    ofStatement (.ofInstruction instruction) = instructionCall instruction := by
  rw [← String.toList_inj]
  cases instruction with
  | apply op =>
    cases op with
    | single gate target =>
      rw [instructionCall, toList_single]
      simp [Statement.ofInstruction, call]
    | cnot control target =>
      rw [instructionCall, toList_cnot]
      simp [Statement.ofInstruction, call]
  | measure qubit =>
    rw [instructionCall, toList_measurementCall]
    simp [Statement.ofInstruction, call]

theorem ofLines_instructions {width : Nat} (small : width < 2 ^ 64)
    {instructions : List Instruction}
    (fits : ∀ instruction ∈ instructions, instruction.Fits width) (number : Nat) :
    ofLines number (instructions.map fun instruction => (instructionText instruction).toList) =
      .ok (instructions.map instructionCall) := by
  induction instructions generalizing number with
  | nil => rfl
  | cons instruction rest ih =>
    have first := Statement.ofLine_instructionText (fits instruction List.mem_cons_self) small
    have behind := ih (fun other member => fits other (.tail instruction member)) (number + 1)
    rw [List.map_cons, ofLines_statement first behind, ofStatement_ofInstruction]
    rfl

theorem map_instructionCall (c : Circuit) : c.instructions.map instructionCall =
    c.ops.map operationCall ++ (List.range c.width.toNat).map measurementCall := by
  rw [Circuit.instructions, List.map_append, List.map_map, List.map_map]
  rfl

theorem ofLines_printedLines (c : Circuit) :
    ofLines 1 ((printedLines c).map String.toList) =
      .ok (creation c.width.toNat :: c.instructions.map instructionCall) := by
  have small := toNat_lt_two_pow_64 c.width
  have body := ofLines_instructions small c.fits_instructions 5
  simp only [printedLines, Assembly.heading, List.map_map, List.map_cons, List.cons_append,
    List.nil_append]
  rw [ofLines_skip Statement.ofLine_version, ofLines_skip Statement.ofLine_include]
  refine ofLines_statement (Statement.ofLine_declaration small) ?_
  rw [ofLines_skip (Statement.ofLine_classical _)]
  exact body

theorem script_eq_rendered (c : Circuit) : script c = .ok (rendered c) := by
  rw [script, ofSource, print, lines_joinLines (isUnbroken_printedLines c),
    ofLines_printedLines c, map_instructionCall c]
  rfl

/-- Gates apply by methods of their mnemonics, so methods can be told apart as mnemonics can. -/
theorem method_eq_mnemonic (gate : Gate) : method gate = gate.mnemonic := by
  cases gate with
  | single gate => cases gate <;> rfl
  | cnot => rfl

theorem method_injective {gate gate' : Gate} (h : method gate = method gate') : gate = gate' := by
  rw [method_eq_mnemonic, method_eq_mnemonic] at h
  have found := congrArg Gate.ofName? h
  rw [Gate.ofName?_mnemonic, Gate.ofName?_mnemonic] at found
  exact Option.some.inj found

/-- Up to the opening parenthesis a call shows the gate, and behind it the arguments. -/
theorem call_inj {gate gate' : Gate} {arguments arguments' : List Char}
    (h : "circuit.".toList ++ ((method gate).toList ++ '(' :: arguments) =
      "circuit.".toList ++ ((method gate').toList ++ '(' :: arguments')) :
    gate = gate' ∧ arguments = arguments' := by
  have letters : ∀ gate : Gate, ∀ c ∈ (method gate).toList, Segment.isNameChar c := by
    intro gate
    rw [method_eq_mnemonic]
    exact Reads.isNameChar_of_isName (isName_mnemonic gate)
  obtain ⟨names, behind⟩ := Text.run_append_inj (letters gate) (letters gate')
    (Text.head?_cons (by decide) arguments) (Text.head?_cons (by decide) arguments')
    (List.append_cancel_left h)
  exact ⟨method_injective (String.toList_inj.mp names), (List.cons.inj behind).2⟩

theorem operationCall_injective {op op' : Operation} (h : operationCall op = operationCall op') :
    op = op' := by
  have text := congrArg String.toList h
  cases op with
  | single gate target =>
    cases op' with
    | single gate' target' =>
      rw [toList_single, toList_single] at text
      obtain ⟨gates, arguments⟩ := call_inj text
      obtain ⟨targets, -⟩ := Text.toDigits_append_inj (Text.head?_cons (by decide) _)
        (Text.head?_cons (by decide) _) arguments
      rw [Gate.single.inj gates, UInt32.toNat_inj.mp targets]
    | cnot control' target' =>
      rw [toList_single, toList_cnot] at text
      cases (call_inj text).1
  | cnot control target =>
    cases op' with
    | single gate' target' =>
      rw [toList_single, toList_cnot] at text
      cases (call_inj text).1
    | cnot control' target' =>
      rw [toList_cnot, toList_cnot] at text
      obtain ⟨controls, behind⟩ := Text.toDigits_append_inj (Text.head?_cons (by decide) _)
        (Text.head?_cons (by decide) _) (call_inj text).2
      obtain ⟨targets, -⟩ := Text.toDigits_append_inj (Text.head?_cons (by decide) _)
        (Text.head?_cons (by decide) _) (List.cons.inj (List.cons.inj behind).2).2
      rw [UInt32.toNat_inj.mp controls, UInt32.toNat_inj.mp targets]

theorem creation_injective {width width' : Nat} (h : creation width = creation width') :
    width = width' := by
  have text := congrArg String.toList h
  rw [toList_creation, toList_creation] at text
  exact (Text.toDigits_append_inj (Text.head?_cons (by decide) _) (Text.head?_cons (by decide) _)
    (List.append_cancel_left text)).1

/-- The width tells how many of the last lines are measurements; the others are the calls of the
operations. -/
theorem renderedLines_injective {c d : Circuit} (h : renderedLines c = renderedLines d) :
    c = d := by
  simp only [renderedLines, List.cons_append, List.nil_append, List.cons.injEq, true_and] at h
  obtain ⟨creations, calls⟩ := h
  have widths := creation_injective creations
  rw [widths] at calls
  have operations := List.append_cancel_right calls
  have injective : Function.Injective operationCall := fun _ _ => operationCall_injective
  exact Circuit.ext_iff.mpr
    ⟨UInt32.toNat_inj.mp widths, List.map_injective_iff.mpr injective operations⟩

theorem isUnbroken_renderedLines (c : Circuit) :
    ∀ line ∈ renderedLines c, Text.isUnbroken line.toList := by
  intro line member
  simp only [renderedLines, List.mem_append, List.mem_cons, List.not_mem_nil, or_false] at member
  rcases member with ((rfl | rfl | rfl) | inOps) | inMeasurements
  · simp
  · simp
  · rw [toList_creation]
    simp
  · obtain ⟨op, -, rfl⟩ := List.mem_map.mp inOps
    cases op with
    | single gate target =>
      rw [toList_single]
      cases gate <;> simp [method]
    | cnot control target =>
      rw [toList_cnot]
      simp [method]
  · obtain ⟨qubit, -, rfl⟩ := List.mem_map.mp inMeasurements
    rw [toList_measurementCall]
    simp

theorem rendered_injective {c d : Circuit} (h : rendered c = rendered d) : c = d := by
  have text := congrArg (fun text => Text.lines text.toList) h
  simp only [rendered, lines_joinLines (isUnbroken_renderedLines c),
    lines_joinLines (isUnbroken_renderedLines d)] at text
  exact renderedLines_injective
    (List.map_injective_iff.mpr (fun _ _ => String.toList_inj.mp) text)

/-- A script can be made for every circuit, and it is the one that is written down from the
circuit directly. No two circuits have the same script. -/
theorem script_renders_circuit :
    (∀ c, script c = .ok (rendered c)) ∧ Function.Injective script := by
  refine ⟨script_eq_rendered, ?_⟩
  intro c d h
  rw [script_eq_rendered, script_eq_rendered] at h
  exact rendered_injective (Except.ok.inj h)

end Script

end CircuitBench.Assembly
