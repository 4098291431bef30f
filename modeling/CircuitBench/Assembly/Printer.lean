import CircuitBench.Circuit.Instruction

/-!
# Assembly text of a circuit

The text is a function of the circuit alone: a fixed heading, one quantum and one
classical register of its width, then the instructions of the circuit one per line.
Every line ends with a line feed.
-/

namespace CircuitBench.Assembly

def element (register : String) (index : Nat) : String :=
  register ++ "[" ++ toString index ++ "]"

/-- The statement of an operation. -/
def operationText (op : Operation) : String :=
  op.gate.mnemonic ++ " " ++
    String.intercalate ", " (op.qubits.map fun q => element "q" q.toNat) ++ ";"

def instructionText : Instruction → String
  | .apply op => operationText op
  | .measure qubit => "measure " ++ element "q" qubit ++ " -> " ++ element "c" qubit ++ ";"

/-- The lines in front of the instructions. -/
def heading (c : Circuit) : List String :=
  ["OPENQASM 2.0;", "include \"qelib1.inc\";", "qreg " ++ element "q" c.width.toNat ++ ";",
    "creg " ++ element "c" c.width.toNat ++ ";"]

/-- The lines of a circuit. -/
def printedLines (c : Circuit) : List String :=
  heading c ++ c.instructions.map instructionText

/-- Lines as a text, each with a line feed behind it. -/
def joinLines (lines : List String) : String :=
  String.join (lines.map (· ++ "\n"))

/-- The assembly text of a circuit. -/
def print (c : Circuit) : String :=
  joinLines (printedLines c)

end CircuitBench.Assembly
