import CircuitBench.Text.Numeral

/-!
# Tokens of assembly text

OpenQASM text is read line by line, and each line consists of keywords, names,
literals and punctuation. A keyword is a name that equals it entirely; its case counts.
-/

namespace CircuitBench.Assembly

/-- A token of a line. -/
inductive Token where
  | openQasm
  | includeFile
  | qreg
  | creg
  | qubit
  | bit
  | measure
  | barrier
  | identifier (name : String)
  /-- The value is capped at `2 ^ 64 - 1`. -/
  | integer (value : Nat)
  | float
  | string
  | leftBracket
  | rightBracket
  | leftParen
  | rightParen
  | comma
  | semicolon
  | arrow
  | equals
deriving DecidableEq, Repr

namespace Token

/-- The keywords. -/
def keywords : List (String × Token) :=
  [("OPENQASM", openQasm), ("include", includeFile), ("qreg", qreg), ("creg", creg),
    ("qubit", qubit), ("bit", bit), ("measure", measure), ("barrier", barrier)]

/-- The token of a name: a keyword or an identifier. -/
def ofName (name : String) : Token :=
  (keywords.lookup name).getD (identifier name)

def ofDigits (digits : List Char) : Token :=
  integer (Text.saturate 64 (Text.decimalValue digits))

def ofMark? : Char → Option Token
  | '[' => some leftBracket
  | ']' => some rightBracket
  | '(' => some leftParen
  | ')' => some rightParen
  | ',' => some comma
  | ';' => some semicolon
  | '=' => some equals
  | _ => none

def describe : Token → String
  | openQasm => "`OPENQASM`"
  | includeFile => "`include`"
  | qreg => "`qreg`"
  | creg => "`creg`"
  | qubit => "`qubit`"
  | bit => "`bit`"
  | measure => "`measure`"
  | barrier => "`barrier`"
  | identifier name => "identifier `" ++ name ++ "`"
  | integer value => "integer `" ++ toString value ++ "`"
  | float => "float literal"
  | string => "string literal"
  | leftBracket => "`[`"
  | rightBracket => "`]`"
  | leftParen => "`(`"
  | rightParen => "`)`"
  | comma => "`,`"
  | semicolon => "`;`"
  | arrow => "`->`"
  | equals => "`=`"

end Token

end CircuitBench.Assembly
