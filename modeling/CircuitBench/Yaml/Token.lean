import CircuitBench.Json.Token

/-!
# Tokens of YAML text

A text is cut into scalars, keys and marks, each with the line and the column where it
begins, for the indentation decides what belongs together. Cutting goes one character at
a time with a view of the next one. A scalar ends on the line on which it begins;
anchors, tags, block scalars, directives and keys that are no scalars are refused.
-/

namespace CircuitBench.Yaml

/-- What a token is. -/
inductive Mark where
  | scalar (plain : Bool) (text : String)
  /-- A scalar with a colon behind it. -/
  | key (text : String)
  | colon
  /-- The dash in front of an item. -/
  | dash
  | comma
  | openSequence
  | closeSequence
  | openMapping
  | closeMapping
  | documentStart
  | documentEnd
deriving DecidableEq, Repr

structure Token where
  mark : Mark
  line : Nat
  column : Nat
deriving DecidableEq, Repr

inductive Mode where
  | between
  | comment
  /-- A plain scalar, its characters newest first, as in all modes that read a scalar. -/
  | plain (text : List Char)
  | single (text : List Char)
  /-- A quote within single quotes: the end, or one half of a quote that is meant. -/
  | singleQuote (text : List Char)
  | double (text : List Char)
  | escape (text : List Char)
  /-- A character by its number, of which some digits are missing. -/
  | hex (text : List Char) (missing value : Nat)

/-- The state of the cutting. -/
structure Scanner where
  mode : Mode := .between
  /-- The number of brackets that are open. -/
  depth : Nat := 0
  line : Nat := 0
  column : Nat := 0
  /-- The column at which the scalar began that is being read. -/
  start : Nat := 0
  /-- The tokens so far, newest first. -/
  tokens : List Token := []

def isSpace (c : Char) : Bool :=
  c = ' ' || c = '\t'

def isBreak (c : Char) : Bool :=
  c = '\n' || c = '\r'

/-- Whether the text stops or pauses here. -/
def isGap : Option Char → Bool
  | none => true
  | some c => isSpace c || isBreak c

/-- The characters that end a plain scalar within brackets. -/
def bracketMarks : List Char :=
  [',', '[', ']', '\x7b', '\x7d']

/-- The characters that no plain scalar begins with. -/
def reserved : List Char :=
  ['#', '&', '*', '!', '|', '>', '%', '@', '\x60']

def isReadable (c : Char) : Bool :=
  isSpace c || isBreak c || (0x20 ≤ c.toNat && c.toNat < 0x7F) || c.toNat = 0x85 ||
    (0xA0 ≤ c.toNat && c.toNat ≠ 0xFEFF && c.toNat ≠ 0xFFFE && c.toNat ≠ 0xFFFF)

def escape? : Char → Option Char
  | '0' => some '\x00'
  | 'a' => some '\x07'
  | 'b' => some '\x08'
  | 't' | '\t' => some '\t'
  | 'n' => some '\n'
  | 'v' => some '\x0b'
  | 'f' => some '\x0c'
  | 'r' => some '\r'
  | 'e' => some '\x1b'
  | ' ' => some ' '
  | '"' => some '"'
  | '/' => some '/'
  | '\\' => some '\\'
  | 'N' => some '\u0085'
  | '_' => some '\u00a0'
  | 'L' => some '\u2028'
  | 'P' => some '\u2029'
  | _ => none

/-- The number of digits behind an escape that gives a character by its number. -/
def hexDigits? : Char → Option Nat
  | 'x' => some 2
  | 'u' => some 4
  | 'U' => some 8
  | _ => none

/-- The character with a number, unless that is half of a surrogate pair or too large. -/
def charOfNat? (n : Nat) : Option Char :=
  if n.isValidChar then some (Char.ofNat n) else none

namespace Scanner

def emit (s : Scanner) (mark : Mark) (column : Nat) : Scanner :=
  { s with mode := .between, tokens := ⟨mark, s.line, column⟩ :: s.tokens }

def emitMark (s : Scanner) (mark : Mark) (depth : Nat) : Scanner :=
  { s.emit mark s.column with depth }

def begin (s : Scanner) (mode : Mode) : Scanner :=
  { s with mode, start := s.column }

/-- The token of a plain scalar. Three dashes or dots at the beginning of a line bound the
document. -/
def plainMark (start : Nat) (text : List Char) : Mark :=
  let text := String.ofList (text.dropWhile isSpace).reverse
  if start = 0 ∧ text = "---" then .documentStart
  else if start = 0 ∧ text = "..." then .documentEnd
  else .scalar true text

def emitPlain (s : Scanner) (text : List Char) : Scanner :=
  s.emit (plainMark s.start text) s.start

def emitQuoted (s : Scanner) (text : List Char) : Scanner :=
  s.emit (.scalar false (String.ofList text.reverse)) s.start

def advance (s : Scanner) (c : Char) : Scanner :=
  if isBreak c then { s with line := s.line + 1, column := 0 }
  else { s with column := s.column + 1 }

/-- Whether a tab separates tokens here. It is no indentation, neither at the beginning of a
line nor behind a dash. -/
def allowsTab (s : Scanner) : Bool :=
  s.depth > 0 || s.tokens.head?.any fun t => t.line = s.line && t.mark ≠ .dash

def stepBetween (s : Scanner) (c : Char) (next : Option Char) : Option Scanner :=
  match c with
  | ' ' | '\n' | '\r' => some s
  | '\t' => if s.allowsTab then some s else none
  | '#' => some { s with mode := .comment }
  | '[' => some (s.emitMark .openSequence (s.depth + 1))
  | '\x7b' => some (s.emitMark .openMapping (s.depth + 1))
  | ']' => if s.depth = 0 then none else some (s.emitMark .closeSequence (s.depth - 1))
  | '\x7d' => if s.depth = 0 then none else some (s.emitMark .closeMapping (s.depth - 1))
  | ',' => if s.depth = 0 then none else some (s.emitMark .comma s.depth)
  | '\'' => some (s.begin (.single []))
  | '"' => some (s.begin (.double []))
  | '-' => some (if isGap next then s.emitMark .dash s.depth else s.begin (.plain [c]))
  | ':' =>
    some (if isGap next || s.depth > 0 then s.emitMark .colon s.depth else s.begin (.plain [c]))
  | '?' => if isGap next || s.depth > 0 then none else some (s.begin (.plain [c]))
  | c => if c ∈ reserved then none else some (s.begin (.plain [c]))

def stepPlain (s : Scanner) (text : List Char) (c : Char) (next : Option Char) : Option Scanner :=
  if isBreak c then some (s.emitPlain text)
  else if c = ':' && isGap next || s.depth > 0 && c ∈ bracketMarks then
    (s.emitPlain text).stepBetween c next
  else if s.depth > 0 && c = ':' && next.any (fun n => n = '?' || n ∈ bracketMarks) then none
  else if c = '#' && text.head?.any isSpace then
    some { s.emitPlain text with mode := .comment }
  else if isSpace c && plainMark s.start text matches .documentStart | .documentEnd then
    some (s.emitPlain text)
  else some { s with mode := .plain (c :: text) }

def step (s : Scanner) (c : Char) (next : Option Char) : Option Scanner :=
  match s.mode with
  | .between => s.stepBetween c next
  | .comment => some (if isBreak c then { s with mode := .between } else s)
  | .plain text => s.stepPlain text c next
  | .singleQuote text =>
    if c = '\'' then some { s with mode := .single (c :: text) }
    else (s.emitQuoted text).stepBetween c next
  | _ =>
    if isBreak c then none
    else
      match s.mode with
      | .single text =>
        some { s with mode := if c = '\'' then .singleQuote text else .single (c :: text) }
      | .double text =>
        some <|
          if c = '"' then s.emitQuoted text
          else if c = '\\' then { s with mode := .escape text }
          else { s with mode := .double (c :: text) }
      | .escape text =>
        match hexDigits? c with
        | some digits => some { s with mode := .hex text digits 0 }
        | none => (escape? c).map fun meant => { s with mode := .double (meant :: text) }
      | .hex text missing value => do
        let value := 16 * value + (← Json.Token.hexDigit? c)
        if missing ≤ 1 then
          return { s with mode := .double ((← charOfNat? value) :: text) }
        else return { s with mode := .hex text (missing - 1) value }
      | _ => none

def finish (s : Scanner) : Option (List Token) :=
  match s.mode with
  | .between | .comment => some s.tokens.reverse
  | .plain text => some (s.emitPlain text).tokens.reverse
  | .singleQuote text => some (s.emitQuoted text).tokens.reverse
  | _ => none

def scan (s : Scanner) : List Char → Option (List Token)
  | [] => s.finish
  | c :: rest => (s.step c rest.head?).bind fun s => (s.advance c).scan rest

end Scanner

/-- Makes keys of the scalars with a colon behind them on the same line. -/
def markKeys : List Token → List Token
  | ⟨.scalar plain text, line, column⟩ :: ⟨.colon, other, column'⟩ :: rest =>
    if line = other then ⟨.key text, line, column⟩ :: markKeys rest
    else ⟨.scalar plain text, line, column⟩ :: ⟨.colon, other, column'⟩ :: markKeys rest
  | token :: rest => token :: markKeys rest
  | [] => []

/-- The tokens of a text. A byte order mark in front does not belong to the text. -/
def tokens? (text : List Char) : Option (List Token) :=
  let text := if text.head? = some '\ufeff' then text.tail else text
  if text.all isReadable then (Scanner.scan {} text).map markKeys else none

end CircuitBench.Yaml
