import CircuitBench.Json.Numeral

/-!
# Tokens of JSON text

JSON text is cut into punctuation, scalars and texts, with space, tab, carriage
return and line feed between them. Every step takes at least one character, so that
cutting ends with the text.
-/

namespace CircuitBench.Json

inductive Token where
  | openArray
  | closeArray
  | openObject
  | closeObject
  | comma
  | colon
  /-- A text that may be a member name; without content if it has half of a surrogate pair. -/
  | text (content : Option String)
  /-- A number or one of the three words. -/
  | scalar (value : Json)
deriving Inhabited

namespace Token

/-- Whether a character may stand between two tokens. -/
def isSpace (c : Char) : Bool :=
  c = ' ' || c = '\t' || c = '\n' || c = '\r'

def hexDigit? (c : Char) : Option Nat :=
  if c.isDigit then some (c.toNat - '0'.toNat)
  else if 'a' ≤ c && c ≤ 'f' then some (c.toNat - 'a'.toNat + 10)
  else if 'A' ≤ c && c ≤ 'F' then some (c.toNat - 'A'.toNat + 10)
  else none

def hexUnit? (a b c d : Char) : Option Nat := do
  let a ← hexDigit? a
  let b ← hexDigit? b
  let c ← hexDigit? c
  let d ← hexDigit? d
  some (((a * 16 + b) * 16 + c) * 16 + d)

/-- The character that a backslash and one letter stand for. -/
def escape? : Char → Option Char
  | '"' => some '"'
  | '\\' => some '\\'
  | '/' => some '/'
  | 'b' => some '\x08'
  | 'f' => some '\x0c'
  | 'n' => some '\n'
  | 'r' => some '\r'
  | 't' => some '\t'
  | _ => none

/-- Reads the code units of a text up to its closing quote, `units` being those already
read, newest first. Raw control characters and unknown escapes are errors. -/
def textUnits (units : List Nat) : List Char → Option (List Nat × List Char)
  | [] => none
  | '"' :: rest => some (units.reverse, rest)
  | '\\' :: 'u' :: a :: b :: c :: d :: rest =>
    match hexUnit? a b c d with
    | some unit => textUnits (unit :: units) rest
    | none => none
  | '\\' :: c :: rest =>
    match escape? c with
    | some c => textUnits (c.toNat :: units) rest
    | none => none
  | c :: rest => if c.toNat < 0x20 then none else textUnits (c.toNat :: units) rest

/-- The text of a list of code units. A high surrogate needs a low one directly behind it,
and no low surrogate stands alone. -/
def textOfUnits : List Nat → Option (List Char)
  | [] => some []
  | unit :: rest =>
    if 0xD800 ≤ unit && unit < 0xDC00 then
      match rest with
      | low :: rest =>
        if 0xDC00 ≤ low && low < 0xE000 then
          (textOfUnits rest).map
            (Char.ofNat (0x10000 + (unit - 0xD800) * 0x400 + (low - 0xDC00)) :: ·)
        else none
      | [] => none
    else if 0xDC00 ≤ unit && unit < 0xE000 then none
    else (textOfUnits rest).map (Char.ofNat unit :: ·)

/-- Reads a text whose opening quote has been read. -/
def text? (chars : List Char) : Option (Token × List Char) :=
  (textUnits [] chars).map fun (units, rest) =>
    (.text ((textOfUnits units).map String.ofList), rest)

/-- Splits off the digits at the front, of which there must be at least one. -/
def digits? (chars : List Char) : Option (List Char × List Char) :=
  match chars.takeWhile Char.isDigit with
  | [] => none
  | digits => some (digits, chars.dropWhile Char.isDigit)

def sign : List Char → Bool × List Char
  | '-' :: rest => (true, rest)
  | '+' :: rest => (false, rest)
  | chars => (false, chars)

def fraction? : List Char → Option (Option (List Char) × List Char)
  | '.' :: rest => (digits? rest).map fun (digits, rest) => (some digits, rest)
  | chars => some (none, chars)

def exponent? : List Char → Option (Option (Bool × List Char) × List Char)
  | [] => some (none, [])
  | c :: rest =>
    if c = 'e' || c = 'E' then
      (digits? (sign rest).2).map fun (digits, after) => (some ((sign rest).1, digits), after)
    else some (none, c :: rest)

/-- Reads a number without its sign. A leading zero stands alone before the point, and digits
follow the point and the exponent letter. -/
def unsigned? (negative : Bool) (chars : List Char) : Option (Token × List Char) :=
  match digits? chars with
  | none => none
  | some (whole, chars) =>
    if whole.head? = some '0' && whole.length ≠ 1 then none
    else match fraction? chars with
      | none => none
      | some (fraction, chars) =>
        (exponent? chars).map fun (exponent, chars) =>
          (.scalar (Numeral.toJson ⟨negative, whole, fraction, exponent⟩), chars)

/-- Reads a number, which may have a minus sign but no plus sign. -/
def number? : List Char → Option (Token × List Char)
  | '-' :: rest => unsigned? true rest
  | chars => unsigned? false chars

def next? (c : Char) (rest : List Char) : Option (Token × List Char) :=
  match c with
  | '[' => some (.openArray, rest)
  | ']' => some (.closeArray, rest)
  | '{' => some (.openObject, rest)
  | '}' => some (.closeObject, rest)
  | ',' => some (.comma, rest)
  | ':' => some (.colon, rest)
  | '"' => text? rest
  | 'n' => if rest.take 3 = ['u', 'l', 'l'] then some (.scalar .null, rest.drop 3) else none
  | 't' => if rest.take 3 = ['r', 'u', 'e'] then some (.scalar (.bool true), rest.drop 3) else none
  | 'f' =>
    if rest.take 4 = ['a', 'l', 's', 'e'] then some (.scalar (.bool false), rest.drop 4) else none
  | _ => number? (c :: rest)

theorem textUnits_length {units : List Nat} {chars : List Char} {result : List Nat × List Char}
    (h : textUnits units chars = some result) : result.2.length < chars.length := by
  fun_induction textUnits units chars <;> grind

theorem digits?_length {chars : List Char} {result : List Char × List Char}
    (h : digits? chars = some result) : result.2.length < chars.length := by
  unfold digits? at h
  split at h
  · simp at h
  · rename_i digits nonempty
    obtain rfl := Option.some.inj h
    have whole := congrArg List.length
      (List.takeWhile_append_dropWhile (p := Char.isDigit) (l := chars))
    have : 0 < (chars.takeWhile Char.isDigit).length :=
      List.length_pos_iff.2 (by simpa using nonempty)
    simp only [List.length_append] at whole
    show (chars.dropWhile Char.isDigit).length < chars.length
    omega

theorem sign_length (chars : List Char) : (sign chars).2.length ≤ chars.length := by
  unfold sign
  split <;> simp

theorem fraction?_length {chars : List Char} {result : Option (List Char) × List Char}
    (h : fraction? chars = some result) : result.2.length ≤ chars.length := by
  unfold fraction? at h
  split at h
  · obtain ⟨found, hf, rfl⟩ := Option.map_eq_some_iff.1 h
    have := digits?_length hf
    simp only [List.length_cons]
    omega
  · obtain rfl := Option.some.inj h
    exact Nat.le_refl _

theorem exponent?_length {chars : List Char} {result : Option (Bool × List Char) × List Char}
    (h : exponent? chars = some result) : result.2.length ≤ chars.length := by
  unfold exponent? at h
  split at h
  · obtain rfl := Option.some.inj h
    exact Nat.le_refl _
  · split at h
    · obtain ⟨found, hf, rfl⟩ := Option.map_eq_some_iff.1 h
      have := digits?_length hf
      have := sign_length ‹List Char›
      simp only [List.length_cons]
      omega
    · obtain rfl := Option.some.inj h
      exact Nat.le_refl _

theorem unsigned?_length {negative : Bool} {chars : List Char} {result : Token × List Char}
    (h : unsigned? negative chars = some result) : result.2.length < chars.length := by
  unfold unsigned? at h
  split at h
  · simp at h
  · rename_i whole after hd
    split at h
    · simp at h
    · split at h
      · simp at h
      · rename_i fraction rest hf
        obtain ⟨found, he, rfl⟩ := Option.map_eq_some_iff.1 h
        have := digits?_length hd
        have := fraction?_length hf
        have := exponent?_length he
        simp only at *
        omega

theorem number?_length {chars : List Char} {result : Token × List Char}
    (h : number? chars = some result) : result.2.length < chars.length := by
  unfold number? at h
  split at h
  · have := unsigned?_length h
    simp only [List.length_cons]
    omega
  · exact unsigned?_length h

/-- A token takes at least the character it begins with. -/
theorem next?_length {c : Char} {rest : List Char} {result : Token × List Char}
    (h : next? c rest = some result) : result.2.length < (c :: rest).length := by
  unfold next? at h
  split at h
  case h_7 =>
    obtain ⟨found, hu, rfl⟩ := Option.map_eq_some_iff.1 h
    have := textUnits_length hu
    simp only [List.length_cons]
    omega
  case h_11 => exact number?_length h
  all_goals grind

def tokens? : List Char → Option (List Token)
  | [] => some []
  | c :: rest =>
    if isSpace c then tokens? rest
    else match _found : next? c rest with
      | none => none
      | some (token, rest') => (tokens? rest').map (token :: ·)
termination_by chars => chars.length
decreasing_by
  · simp
  · exact next?_length _found

end Token

end CircuitBench.Json
