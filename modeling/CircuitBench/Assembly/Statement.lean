import CircuitBench.Assembly.Lexer
import CircuitBench.Gate

/-!
# Statements

At most one statement is read from a line: a register declaration, an application of a
catalog gate, or a measurement. The leading token decides which of them a line is, and
lines that begin in any other way are passed over without a look at their rest. So are
gates with parameters, gates on a whole register, and measurements that do not have
the plain form.

A line that is one of these statements but malformed is an error, which names the first
token that does not fit and what should stand in its place.
-/

namespace CircuitBench.Assembly

/-- A register with an index, such as `q[3]`. The index is not yet checked. -/
structure Operand where
  register : String
  index : Nat
deriving DecidableEq, Repr

/-- A statement. -/
inductive Statement where
  /-- Declares a quantum register. -/
  | declare (name : String) (size : Nat)
  /-- Applies a gate to operands. -/
  | apply (gate : Gate) (operands : List Operand)
  /-- Measures a qubit into a classical bit. -/
  | measure (qubit bit : Operand)
deriving DecidableEq, Repr

/-- What has to stand at a place in a line. -/
inductive Expected where
  | token (token : Token)
  | registerName
  | registerIndex
  | registerSize
deriving DecidableEq, Repr

namespace Expected

def describe : Expected → String
  | .token mark => mark.describe
  | .registerName => "register name"
  | .registerIndex => "register index"
  | .registerSize => "register size"

def admits : Expected → Token → Bool
  | .token mark, found => found = mark
  | .registerName, .identifier _ => true
  | .registerIndex, .integer _ => true
  | .registerSize, .integer _ => true
  | _, _ => false

end Expected

/-- Why a line cannot be read. -/
inductive LineFault where
  /-- A piece of the line is no token. -/
  | unreadable (text : String)
  /-- Something else stands at a place, or the line ends there. -/
  | unexpected (expected : Expected) (found : Option Token)
deriving DecidableEq, Repr

namespace LineFault

def message : LineFault → String
  | unreadable text => "unexpected character `" ++ text ++ "`"
  | unexpected expected found =>
    "expected " ++ expected.describe ++ ", found " ++
      match found with
      | some token => token.describe
      | none => "end of line"

/-- The first place where tokens leave a form. A line that keeps it should have ended, or have
gone on with a semicolon. -/
def against : List Expected → List Token → LineFault
  | [], tokens => .unexpected (.token .semicolon) tokens.head?
  | expected :: _, [] => .unexpected expected none
  | expected :: form, token :: tokens =>
    if expected.admits token then against form tokens else .unexpected expected (some token)

end LineFault

namespace Statement

/-- The statement, if nothing or a semicolon follows it. What comes behind the semicolon
belongs to another statement. -/
def finish (statement : Statement) : List Token → Except LineFault Statement
  | [] => .ok statement
  | .semicolon :: _ => .ok statement
  | tokens => .error (.against [] tokens)

def operandForm : List Expected :=
  [.registerName, .token .leftBracket, .registerIndex, .token .rightBracket]

def operands : List Token → Except LineFault (List Operand × List Token)
  | .identifier register :: .leftBracket :: .integer index :: .rightBracket :: .comma :: rest =>
    match operands rest with
    | .ok (found, after) => .ok (⟨register, index⟩ :: found, after)
    | .error fault => .error fault
  | .identifier register :: .leftBracket :: .integer index :: .rightBracket :: rest =>
    .ok ([⟨register, index⟩], rest)
  | tokens => .error (.against operandForm tokens)

/-- Reads `NAME [ SIZE ]`, what follows the keyword of a sized register. -/
def sizedRegister : List Token → Except LineFault Statement
  | .identifier name :: .leftBracket :: .integer size :: .rightBracket :: rest =>
    (declare name size).finish rest
  | tokens =>
    .error (.against
      [.registerName, .token .leftBracket, .registerSize, .token .rightBracket] tokens)

/-- Reads `NAME` or `[ SIZE ] NAME`, what follows the keyword for qubits. Without a size it
is one qubit. -/
def qubitRegister : List Token → Except LineFault Statement
  | .leftBracket :: .integer size :: .rightBracket :: .identifier name :: rest =>
    (declare name size).finish rest
  | .leftBracket :: tokens =>
    .error (.against [.registerSize, .token .rightBracket, .registerName] tokens)
  | .identifier name :: rest => (declare name 1).finish rest
  | tokens => .error (.against [.registerName] tokens)

/-- Reads `QUBIT -> BIT`, what follows the keyword of a measurement. -/
def measurement? : List Token → Option Statement
  | .identifier qubits :: .leftBracket :: .integer i :: .rightBracket :: .arrow ::
      .identifier bits :: .leftBracket :: .integer j :: .rightBracket :: rest =>
    ((measure ⟨qubits, i⟩ ⟨bits, j⟩).finish rest).toOption
  | _ => none

/-- Whether some name stands for a whole register: no index follows it, but a comma, a
semicolon or the end of the line. All tokens of the line count. -/
def hasWholeRegister : List Token → Bool
  | [] => false
  | .identifier _ :: [] => true
  | .identifier _ :: .comma :: _ => true
  | .identifier _ :: .semicolon :: _ => true
  | _ :: rest => hasWholeRegister rest

/-- Reads the operands of a gate, what follows its mnemonic. Nothing is read from a gate with
parameters or on a whole register. -/
def application (gate : Gate) (tokens : List Token) : Except LineFault (Option Statement) :=
  if tokens.head? = some .leftParen || hasWholeRegister tokens then .ok none
  else
    match operands tokens with
    | .ok (found, rest) => ((apply gate found).finish rest).map some
    | .error fault => .error fault

def afterLeading (line : List Char) : Except LineFault (List Token) :=
  match tokenize line with
  | .ok tokens => .ok tokens.tail
  | .error text => .error (.unreadable (String.ofList text))

/-- The statement of a line, if it has one. -/
def ofLine (line : List Char) : Except LineFault (Option Statement) :=
  match leading? line with
  | some .qreg => (afterLeading line).bind fun tokens => (sizedRegister tokens).map some
  | some .qubit => (afterLeading line).bind fun tokens => (qubitRegister tokens).map some
  | some .measure => .ok ((afterLeading line).toOption.bind measurement?)
  | some (.identifier name) =>
    match Gate.ofName? name with
    | some gate => (afterLeading line).bind (application gate)
    | none => .ok none
  | _ => .ok none

end Statement

end CircuitBench.Assembly
