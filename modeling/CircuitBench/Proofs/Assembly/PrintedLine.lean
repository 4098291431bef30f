import CircuitBench.Assembly.Printer
import CircuitBench.Proofs.Assembly.Statement
import CircuitBench.Proofs.Text.Line

/-!
# Reading printed lines

Each line that is printed for a circuit is read back as the statement it was printed
for: the declaration of the register, an operation with its qubits as operands, or a
measurement. The other lines of the heading are passed over.
-/

namespace CircuitBench

def Instruction.Fits (width : Nat) : Instruction → Prop
  | .apply op => op.Fits width
  | .measure qubit => qubit < width

theorem Circuit.fits_instructions (c : Circuit) :
    ∀ instruction ∈ c.instructions, instruction.Fits c.width.toNat := by
  intro instruction member
  rcases List.mem_append.mp member with inOps | inMeasurements
  · obtain ⟨op, inside, rfl⟩ := List.mem_map.mp inOps
    exact c.fits op inside
  · obtain ⟨qubit, inside, rfl⟩ := List.mem_map.mp inMeasurements
    exact List.mem_range.mp inside

namespace Assembly

def Statement.ofInstruction : Instruction → Statement
  | .apply op => .apply op.gate (op.qubits.map fun q => ⟨"q", q.toNat⟩)
  | .measure qubit => .measure ⟨"q", qubit⟩ ⟨"c", qubit⟩

theorem ofDigits_toDigits {n : Nat} (h : n < 2 ^ 64) :
    Token.ofDigits (Nat.toDigits 10 n) = .integer n := by
  rw [Token.ofDigits, Text.decimalValue_toDigits, Text.saturate_of_lt h]

theorem toNat_lt_two_pow_64 (q : UInt32) : q.toNat < 2 ^ 64 :=
  Nat.lt_trans q.toNat_lt (by decide)

@[simp] theorem toList_element (register : String) (index : Nat) :
    (element register index).toList =
      register.toList ++ '[' :: (Nat.toDigits 10 index ++ [']']) := by
  simp [element]

def operandTokens (register : String) (index : Nat) : List Token :=
  [.identifier register, .leftBracket, .integer index, .rightBracket]

namespace Reads

variable {rest : List Char}

/-- A decimal number that fits in 64 bits is an integer with its value. -/
theorem number {n : Nat} (small : n < 2 ^ 64) (apart : Apart rest) :
    Reads (Nat.toDigits 10 n ++ rest) [.integer n] rest := by
  rw [← ofDigits_toDigits small]
  exact digits Nat.toDigits_ne_nil (fun _ => Text.isDigit_of_mem_toDigits) apart

theorem operand {register : String} {index : Nat} (small : index < 2 ^ 64)
    (letters : isName register.toList) (noKeyword : Token.ofName register = .identifier register)
    (rest : List Char) :
    Reads ((element register index).toList ++ rest) (operandTokens register index) rest := by
  have closed := (number small (Text.head?_cons (by decide) rest)).append
    (mark (c := ']') rfl rest)
  have indexed := (mark (c := '[') rfl _).append closed
  have named := (name letters (Text.head?_cons (by decide) _)).append indexed
  rw [String.ofList_toList, noKeyword] at named
  simpa [operandTokens] using named

/-- A word before a space and what follows it. -/
theorem word (word : String) (token : Token) (letters : isName word.toList)
    (named : Token.ofName word = token) (solid : Solid rest) :
    Reads (word.toList ++ ' ' :: rest) [token] rest := by
  have read := (name letters (Text.head?_cons (by decide) _)).append (space solid)
  rwa [String.ofList_toList, named] at read

end Reads

theorem isName_mnemonic (gate : Gate) : Reads.isName gate.mnemonic.toList := by
  cases gate with
  | single gate => cases gate <;> decide
  | cnot => decide

theorem ofName_mnemonic (gate : Gate) :
    Token.ofName gate.mnemonic = .identifier gate.mnemonic := by
  cases gate with
  | single gate => cases gate <;> rfl
  | cnot => rfl

/-- An element of the printed quantum register. -/
theorem Reads.qubit {index : Nat} (small : index < 2 ^ 64) (rest : List Char) :
    Reads ((element "q" index).toList ++ rest) (operandTokens "q" index) rest :=
  .operand small (by decide) rfl rest

/-- An element of the printed classical register. -/
theorem Reads.bit {index : Nat} (small : index < 2 ^ 64) (rest : List Char) :
    Reads ((element "c" index).toList ++ rest) (operandTokens "c" index) rest :=
  .operand small (by decide) rfl rest

theorem solid_name {name : String} (letters : Reads.isName name.toList) (rest : List Char) :
    Solid (name.toList ++ rest) := by
  cases chars : name.toList with
  | nil =>
    rw [chars] at letters
    cases letters
  | cons c run =>
    rw [chars] at letters
    obtain ⟨start, -⟩ := Bool.and_eq_true_iff.mp letters
    exact Text.head?_cons (not_isBlank_of_isNameChar (isNameChar_of_isNameStart start)) _

theorem solid_element (register : String) (letters : Reads.isName register.toList) (index : Nat)
    (rest : List Char) : Solid ((element register index).toList ++ rest) := by
  rw [toList_element, List.append_assoc]
  exact solid_name letters _

theorem solid_qubit (index : Nat) (rest : List Char) :
    Solid ((element "q" index).toList ++ rest) :=
  solid_element "q" (by decide) index rest

theorem reads_mnemonic (gate : Gate) (index : Nat) (rest : List Char) :
    Reads (gate.mnemonic.toList ++ ' ' :: ((element "q" index).toList ++ rest))
      [.identifier gate.mnemonic] ((element "q" index).toList ++ rest) :=
  .word gate.mnemonic _ (isName_mnemonic gate) (ofName_mnemonic gate) (solid_qubit index rest)

theorem tokenize_operationText_single (gate : SingleGate) (target : UInt32) :
    tokenize (operationText (.single gate target)).toList =
      .ok (.identifier (Gate.single gate).mnemonic ::
        (operandTokens "q" target.toNat ++ [.semicolon])) := by
  have operand := (Reads.qubit (toNat_lt_two_pow_64 target) [';']).append (.mark rfl [])
  have line := (reads_mnemonic (.single gate) target.toNat [';']).append operand
  simpa [operationText] using line.tokenize_nil

theorem tokenize_operationText_cnot (control target : UInt32) :
    tokenize (operationText (.cnot control target)).toList =
      .ok (.identifier Gate.cnot.mnemonic :: (operandTokens "q" control.toNat ++
        .comma :: (operandTokens "q" target.toNat ++ [.semicolon]))) := by
  have second := (Reads.qubit (toNat_lt_two_pow_64 target) [';']).append (.mark rfl [])
  have separated := (Reads.mark (c := ',') rfl _).append
    ((Reads.space (solid_qubit target.toNat [';'])).append second)
  have line := (reads_mnemonic .cnot control.toNat _).append
    ((Reads.qubit (toNat_lt_two_pow_64 control) _).append separated)
  simpa [operationText] using line.tokenize_nil

theorem tokenize_declaration {width : Nat} (small : width < 2 ^ 64) :
    tokenize ("qreg " ++ element "q" width ++ ";").toList =
      .ok (.qreg :: (operandTokens "q" width ++ [.semicolon])) := by
  have keyword := Reads.word "qreg" .qreg (by decide) rfl (solid_qubit width [';'])
  have operand := (Reads.qubit small [';']).append (.mark rfl [])
  simpa using (keyword.append operand).tokenize_nil

theorem tokenize_measurement {qubit : Nat} (small : qubit < 2 ^ 64) :
    tokenize (instructionText (.measure qubit)).toList =
      .ok (.measure :: (operandTokens "q" qubit ++
        .arrow :: (operandTokens "c" qubit ++ [.semicolon]))) := by
  have keyword := Reads.word "measure" .measure (by decide) rfl
    (solid_qubit qubit (' ' :: '-' :: '>' :: ' ' :: ((element "c" qubit).toList ++ [';'])))
  have target := (Reads.space (solid_element "c" (by decide) qubit [';'])).append
    ((Reads.bit small [';']).append (.mark rfl []))
  have arrow := (Reads.space (Text.head?_cons (by decide) _)).append ((Reads.arrow _).append target)
  have line := keyword.append ((Reads.qubit small _).append arrow)
  simpa [instructionText] using line.tokenize_nil

namespace Statement

/-- A line whose first word opens no statement that is read. -/
theorem ofLine_of_word (word : String) (token : Token) {rest : List Char}
    (letters : Reads.isName word.toList) (named : Token.ofName word = token)
    (idle : isIdle token) (solid : Solid rest) :
    ofLine (word.toList ++ ' ' :: rest) = .ok none :=
  ofLine_of_isIdle (Reads.word word token letters named solid).leading? idle

theorem ofLine_version : ofLine "OPENQASM 2.0;".toList = .ok none :=
  ofLine_of_word "OPENQASM" .openQasm (by decide) rfl rfl (Text.head?_cons (by decide) _)

theorem ofLine_include : ofLine "include \"qelib1.inc\";".toList = .ok none :=
  ofLine_of_word "include" .includeFile (by decide) rfl rfl (Text.head?_cons (by decide) _)

theorem ofLine_classical (width : Nat) :
    ofLine ("creg " ++ element "c" width ++ ";").toList = .ok none := by
  have line := ofLine_of_word "creg" .creg (by decide) rfl rfl
    (solid_element "c" (by decide) width [';'])
  simpa using line

theorem ofLine_declaration {width : Nat} (small : width < 2 ^ 64) :
    ofLine ("qreg " ++ element "q" width ++ ";").toList = .ok (some (.declare "q" width)) := by
  rw [ofLine_eq_ofTokens (tokenize_declaration small)]
  rfl

theorem ofLine_instructionText {width : Nat} {instruction : Instruction}
    (fits : instruction.Fits width) (small : width < 2 ^ 64) :
    ofLine (instructionText instruction).toList = .ok (some (ofInstruction instruction)) := by
  cases instruction with
  | apply op =>
    cases op with
    | single gate target =>
      rw [instructionText, ofLine_eq_ofTokens (tokenize_operationText_single gate target)]
      simp only [ofTokens, Gate.ofName?_mnemonic]
      rfl
    | cnot control target =>
      rw [instructionText, ofLine_eq_ofTokens (tokenize_operationText_cnot control target)]
      simp only [ofTokens, Gate.ofName?_mnemonic]
      rfl
  | measure qubit =>
    rw [ofLine_eq_ofTokens (tokenize_measurement (Nat.lt_trans fits small))]
    rfl

end Statement

theorem isUnbroken_instructionText (instruction : Instruction) :
    Text.isUnbroken (instructionText instruction).toList := by
  cases instruction with
  | apply op =>
    cases op with
    | single gate target => cases gate <;> simp [instructionText, operationText, Gate.mnemonic]
    | cnot control target => simp [instructionText, operationText, Gate.mnemonic]
  | measure qubit => simp [instructionText]

theorem isUnbroken_printedLines (c : Circuit) :
    ∀ line ∈ printedLines c, Text.isUnbroken line.toList := by
  intro line member
  rcases List.mem_append.mp member with inHeading | inBody
  · simp only [heading, List.mem_cons, List.not_mem_nil, or_false] at inHeading
    rcases inHeading with rfl | rfl | rfl | rfl <;> simp
  · obtain ⟨instruction, -, rfl⟩ := List.mem_map.mp inBody
    exact isUnbroken_instructionText instruction

/-- Cutting joined lines apart gives the lines. -/
theorem lines_joinLines {lines : List String} (h : ∀ line ∈ lines, Text.isUnbroken line.toList) :
    Text.lines (joinLines lines).toList = lines.map String.toList := by
  have text : (joinLines lines).toList = (lines.map String.toList).flatMap (· ++ ['\n']) := by
    simp [joinLines, List.flatMap_map]
  rw [text, Text.lines_flatMap]
  intro line member
  obtain ⟨line, inside, rfl⟩ := List.mem_map.mp member
  exact h line inside

end Assembly

end CircuitBench
