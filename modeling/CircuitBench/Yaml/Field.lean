import CircuitBench.Text.Numeral
import CircuitBench.Yaml.Basic

/-!
# Fields of YAML mappings

How the nodes of a document become numbers, texts and records. A number is a plain
scalar: decimal without leading zeros, or hexadecimal, octal or binary behind `0x`, `0o`
or `0b`, with a plus sign in front if one likes. A text is any scalar, whatever it looks
like. A record is a mapping in which every field that is read stands at most once, and a
record that is not written has no fields.
-/

namespace CircuitBench.Yaml

def digit? (base : Nat) (c : Char) : Option Nat :=
  let value :=
    if c.isDigit then some (c.toNat - '0'.toNat)
    else if 'a' ≤ c.toLower ∧ c.toLower ≤ 'f' then some (c.toLower.toNat - 'a'.toNat + 10)
    else none
  value.filter (· < base)

def number? (base : Nat) : List Char → Option Nat
  | [] => none
  | digits => digits.foldlM (fun value c => (digit? base c).map (base * value + ·)) 0

def numeral? (text : List Char) : Option Nat :=
  let digits := match text with
    | '+' :: rest => rest
    | _ => text
  match digits with
  | '0' :: 'x' :: digits => number? 16 digits
  | '0' :: 'o' :: digits => number? 8 digits
  | '0' :: 'b' :: digits => number? 2 digits
  | '0' :: _ :: _ => none
  | digits => number? 10 digits

def natural? (bits : Nat) : Yaml → Option Nat
  | scalar true text => (numeral? text.toList).filter (· < 2 ^ bits)
  | _ => none

def text? : Yaml → Option String
  | scalar _ text => some text
  | _ => none

/-- The spellings of null, of which the empty one is not to be seen. -/
def nulls : List String :=
  ["", "~", "null", "Null", "NULL"]

def optional? {α : Type} (read? : Yaml → Option α) : Yaml → Option (Option α)
  | node@(scalar plain text) =>
    if plain && nulls.contains text then some none else (read? node).map some
  | node => (read? node).map some

def entries? : Yaml → Option (List (String × Yaml))
  | mapping entries => some entries
  | scalar true "" => some []
  | _ => none

/-- The field of that name, or a default if it is missing. -/
def field {α : Type} (entries : List (String × Yaml)) (name : String)
    (read? : Yaml → Option α) (default : α) : Option α :=
  match entries.filter (·.1 = name) with
  | [] => some default
  | [(_, node)] => read? node
  | _ => none

end CircuitBench.Yaml
