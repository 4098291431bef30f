import CircuitBench.Json.Basic
import CircuitBench.Binary64.Shortest

/-!
# Writing JSON text

Two forms: on one line without blanks, and over several lines with two blanks of
indentation per level, one blank behind a colon, and empty arrays and objects closed
at once. Characters other than quotes, backslashes and control characters are
written as they are.
-/

namespace CircuitBench.Json

/-- A digit of a four-digit hexadecimal escape, in lower case. -/
def hexDigit (n : Nat) : Char :=
  Nat.digitChar (n % 16)

def escape (c : Char) : List Char :=
  match c with
  | '"' => ['\\', '"']
  | '\\' => ['\\', '\\']
  | '\x08' => ['\\', 'b']
  | '\x0c' => ['\\', 'f']
  | '\n' => ['\\', 'n']
  | '\r' => ['\\', 'r']
  | '\t' => ['\\', 't']
  | c =>
    if c.toNat < 0x20 then ['\\', 'u', '0', '0', hexDigit (c.toNat / 16), hexDigit c.toNat]
    else [c]

def quote (text : String) : String :=
  String.ofList ('"' :: text.toList.flatMap escape ++ ['"'])

def scalarText : Json → String
  | .bool true => "true"
  | .bool false => "false"
  | .int n => toString n
  | .float x => if x.isFinite then Binary64.text .json x else "null"
  | .string s => quote s
  | _ => "null"

/-- Where line breaks and blanks stand. -/
inductive Form where
  /-- Everything on one line, without blanks. -/
  | compact
  /-- One item or member per line. -/
  | pretty

namespace Form

/-- The break before an item at a depth of nesting. -/
def lineBreak : Form → (depth : Nat) → String
  | .compact, _ => ""
  | .pretty, depth => String.ofList ('\n' :: List.replicate (2 * depth) ' ')

def colon : Form → String
  | .compact => ":"
  | .pretty => ": "

/-- The text of an array or object from its brackets and the texts of what it holds. -/
def enclose (form : Form) (depth : Nat) (opening closing : String) (items : List String) : String :=
  match items with
  | [] => opening ++ closing
  | items =>
    opening ++ form.lineBreak (depth + 1) ++
      String.intercalate ("," ++ form.lineBreak (depth + 1)) items ++
      form.lineBreak depth ++ closing

end Form

mutual

def textAt (form : Form) (depth : Nat) : Json → String
  | .array items => form.enclose depth "[" "]" (itemTexts form (depth + 1) items)
  | .object fields => form.enclose depth "\x7b" "\x7d" (fieldTexts form (depth + 1) fields)
  | value => scalarText value

def itemTexts (form : Form) (depth : Nat) : List Json → List String
  | [] => []
  | item :: items => textAt form depth item :: itemTexts form depth items

def fieldTexts (form : Form) (depth : Nat) : List (String × Json) → List String
  | [] => []
  | (name, value) :: fields =>
    (quote name ++ form.colon ++ textAt form depth value) :: fieldTexts form depth fields

end

def text (form : Form) (value : Json) : String :=
  textAt form 0 value

end CircuitBench.Json
