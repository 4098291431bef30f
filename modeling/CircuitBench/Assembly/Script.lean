import CircuitBench.Assembly.Reader
import CircuitBench.Assembly.Printer

/-!
# Qiskit scripts

A circuit can be handed over as a Python script that rebuilds it with Qiskit. The
script is made from assembly text, statement by statement: a declaration creates the
circuit, and gates and measurements become calls on it. Operands keep their written
index, so the script is right for a text with one register, as the printed text of a
circuit is.
-/

namespace CircuitBench.Assembly

namespace Script

/-- The method of a circuit object that applies a gate. -/
def method : Gate → String
  | .single .h => "h"
  | .single .x => "x"
  | .single .y => "y"
  | .single .z => "z"
  | .single .s => "s"
  | .single .t => "t"
  | .cnot => "cx"

/-- A call on the circuit object with numbers as arguments. -/
def call (name : String) (arguments : List Nat) : String :=
  "circuit." ++ name ++ "(" ++ String.intercalate ", " (arguments.map toString) ++ ")"

def ofStatement : Statement → String
  | .declare _ size =>
    "circuit = QuantumCircuit(" ++ toString size ++ ", " ++ toString size ++ ")"
  | .apply gate operands => call (method gate) (operands.map (·.index))
  | .measure qubit bit => call "measure" [qubit.index, bit.index]

@[simp] theorem ofStatement_declare (name : String) (size : Nat) :
    ofStatement (.declare name size) =
      "circuit = QuantumCircuit(" ++ toString size ++ ", " ++ toString size ++ ")" := rfl

@[simp] theorem ofStatement_apply (gate : Gate) (operands : List Operand) :
    ofStatement (.apply gate operands) = call (method gate) (operands.map (·.index)) := rfl

@[simp] theorem ofStatement_measure (qubit bit : Operand) :
    ofStatement (.measure qubit bit) = call "measure" [qubit.index, bit.index] := rfl

/-- The lines in front of all statements. -/
def heading : List String :=
  ["from qiskit import QuantumCircuit", ""]

/-- The lines of a script for lines of assembly text, the first with the given number. -/
def ofLines : (number : Nat) → List (List Char) → Except ReadError (List String)
  | _, [] => .ok []
  | number, line :: rest =>
    match Statement.ofLine line with
    | .error fault => .error (.statement number (.line fault))
    | .ok statement =>
      match ofLines (number + 1) rest with
      | .error e => .error e
      | .ok lines => .ok ((statement.map ofStatement).toList ++ lines)

/-- The script for an assembly text. -/
def ofSource (source : String) : Except ReadError String :=
  match ofLines 1 (Text.lines source.toList) with
  | .error e => .error e
  | .ok lines => .ok (joinLines (heading ++ lines))

end Script

/-- The script of a circuit. -/
def script (c : Circuit) : Except ReadError String :=
  Script.ofSource (print c)

end CircuitBench.Assembly
