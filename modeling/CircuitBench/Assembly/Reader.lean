import CircuitBench.Assembly.Registers
import CircuitBench.Circuit.Basic
import CircuitBench.Text.Line

/-!
# Reading a circuit from assembly text

The lines are read in order. A fault is reported with the number of its line and ends
the reading; what can only be judged of the whole, that a register is declared and that
the gates form a circuit, is judged when all lines have been read.
-/

namespace CircuitBench.Assembly

/-- Why a statement is refused. -/
inductive Fault where
  | line (fault : LineFault)
  | register (fault : RegisterFault)
deriving DecidableEq, Repr

def Fault.message : Fault → String
  | line fault => fault.message
  | register fault => fault.message

/-- Why a text is no circuit. -/
inductive ReadError where
  /-- A statement is refused; lines count from one. -/
  | statement (line : Nat) (fault : Fault)
  /-- No quantum register is declared. -/
  | missingRegister
  /-- All statements can be read, but they do not form a circuit. -/
  | circuit (error : CircuitError)
deriving DecidableEq, Repr

/-- A message about what is wrong with a line. -/
def ReadError.atLine (line : Nat) (detail : String) : String :=
  "Syntax error at line " ++ toString line ++ ": " ++ detail

def ReadError.message : ReadError → String
  | statement line fault => atLine line fault.message
  | missingRegister => "No quantum register declared"
  | circuit error => "Circuit error: " ++ error.message

/-- The most qubits that indices of 32 bits can tell apart. -/
def maxQubits : Nat := 2 ^ 32 - 1

/-- What the lines of a text declare and place. -/
structure Contents where
  registers : Registers
  placements : List Placement

/-- Reads lines, the first of them with the given number, after some registers have been
declared. -/
def readLines (limit : Nat) (registers : Registers) :
    (number : Nat) → List (List Char) → Except ReadError Contents
  | _, [] => .ok ⟨registers, []⟩
  | number, line :: rest =>
    match Statement.ofLine line with
    | .error fault => .error (.statement number (.line fault))
    | .ok (some (.declare name size)) =>
      match registers.declare limit name size with
      | .error fault => .error (.statement number (.register fault))
      | .ok registers => readLines limit registers (number + 1) rest
    | .ok (some (.apply gate operands)) =>
      match registers.resolveAll operands with
      | .error fault => .error (.statement number (.register fault))
      | .ok qubits =>
        match readLines limit registers (number + 1) rest with
        | .error e => .error e
        | .ok contents =>
          .ok { contents with placements := ⟨gate, qubits, []⟩ :: contents.placements }
    | .ok _ => readLines limit registers (number + 1) rest

/-- The circuit that registers and placements make up. -/
def Contents.circuit (contents : Contents) : Except ReadError Circuit :=
  if contents.registers.isEmpty then .error .missingRegister
  else
    match Circuit.ofPlacements (UInt32.ofNat contents.registers.total) contents.placements with
    | .ok circuit => .ok circuit
    | .error e => .error (.circuit e)

/-- The circuit of a text that may declare at most `limit` qubits. -/
def read (limit : Nat) (source : String) : Except ReadError Circuit :=
  match readLines limit [] 1 (Text.lines source.toList) with
  | .error e => .error e
  | .ok contents => contents.circuit

end CircuitBench.Assembly
