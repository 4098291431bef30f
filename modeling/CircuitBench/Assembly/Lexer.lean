import CircuitBench.Assembly.Token

/-!
# Cutting text into tokens

At every place the longest piece that can stand there is cut off: layout, a token, or
a piece that is neither. Layout is a run of blanks, a comment from two slashes to the
end of its line, or a comment between a slash with a star and the first star with a
slash behind it. The pieces put together are the text again, and each has at least one
character, so cutting ends with the text.

A block comment that is never closed spoils the rest of the text, and a quoted text
that is not closed on its line spoils the rest of that line. Any other piece that
cannot be read is a single character.
-/

namespace CircuitBench.Assembly

/-- A piece of a text. -/
inductive Segment where
  | layout (text : List Char)
  | token (token : Token) (text : List Char)
  | unreadable (text : List Char)
deriving DecidableEq, Repr

namespace Segment

def text : Segment → List Char
  | layout text => text
  | token _ text => text
  | unreadable text => text

/-- Space, tab, line feed, carriage return and form feed. -/
def isBlank (c : Char) : Bool :=
  c = ' ' || c = '\t' || c = '\n' || c = '\r' || c = '\x0c'

def isNameStart (c : Char) : Bool :=
  c.isAlpha || c = '_'

def isNameChar (c : Char) : Bool :=
  c.isAlphanum || c = '_'

/-- Splits a text behind the first star with a slash, if there is one. -/
def splitComment : List Char → Option (List Char × List Char)
  | [] => none
  | '*' :: '/' :: rest => some (['*', '/'], rest)
  | c :: rest => (splitComment rest).map fun (inside, after) => (c :: inside, after)

/-- The piece that a slash begins. -/
def slash (rest : List Char) : Segment × List Char :=
  match rest with
  | '/' :: after =>
    (layout ('/' :: '/' :: after.takeWhile (· ≠ '\n')), after.dropWhile (· ≠ '\n'))
  | '*' :: after =>
    match splitComment after with
    | some (inside, after) => (layout ('/' :: '*' :: inside), after)
    | none => (unreadable ('/' :: '*' :: after), [])
  | _ => (unreadable ['/'], rest)

/-- The piece that a quote begins: up to the next quote, which has to be on the same line. -/
def quoted (rest : List Char) : Segment × List Char :=
  let inside := rest.takeWhile fun c => c ≠ '"' && c ≠ '\n'
  match rest.dropWhile fun c => c ≠ '"' && c ≠ '\n' with
  | '"' :: after => (token .string ('"' :: inside ++ ['"']), after)
  | after => (unreadable ('"' :: inside), after)

def sign : List Char → List Char × List Char
  | '+' :: rest => (['+'], rest)
  | '-' :: rest => (['-'], rest)
  | chars => ([], chars)

/-- Splits an exponent off the front of a text. One without digits is none at all. -/
def exponent : List Char → List Char × List Char
  | [] => ([], [])
  | e :: rest =>
    let digits := (sign rest).2
    if (e = 'e' || e = 'E') && digits.head?.any Char.isDigit then
      (e :: (sign rest).1 ++ digits.takeWhile Char.isDigit, digits.dropWhile Char.isDigit)
    else ([], e :: rest)

/-- The number that a digit begins: an integer, or with a point a float. -/
def number (c : Char) (rest : List Char) : Segment × List Char :=
  let digits := c :: rest.takeWhile Char.isDigit
  match rest.dropWhile Char.isDigit with
  | '.' :: after =>
    let fraction := after.takeWhile Char.isDigit
    let (power, after) := exponent (after.dropWhile Char.isDigit)
    (token .float (digits ++ '.' :: fraction ++ power), after)
  | after => (token (.ofDigits digits) digits, after)

def name (c : Char) (rest : List Char) : Segment × List Char :=
  let chars := c :: rest.takeWhile isNameChar
  (token (.ofName (String.ofList chars)) chars, rest.dropWhile isNameChar)

def dash (rest : List Char) : Segment × List Char :=
  match rest with
  | '>' :: after => (token .arrow ['-', '>'], after)
  | _ => (unreadable ['-'], rest)

/-- The first piece of the text `c :: rest`, and what comes behind it. -/
def next (c : Char) (rest : List Char) : Segment × List Char :=
  if isBlank c then (layout (c :: rest.takeWhile isBlank), rest.dropWhile isBlank)
  else if isNameStart c then name c rest
  else if c.isDigit then number c rest
  else if c = '/' then slash rest
  else if c = '"' then quoted rest
  else if c = '-' then dash rest
  else match Token.ofMark? c with
    | some mark => (token mark [c], rest)
    | none => (unreadable [c], rest)

theorem splitComment_append {chars inside after : List Char}
    (h : splitComment chars = some (inside, after)) : inside ++ after = chars := by
  fun_induction splitComment chars generalizing inside after with
  | case1 => simp at h
  | case2 rest =>
    obtain ⟨rfl, rfl⟩ := Prod.mk.inj (Option.some.inj h)
    rfl
  | case3 c rest _ ih =>
    obtain ⟨⟨i, a⟩, hi, he⟩ := Option.map_eq_some_iff.1 h
    obtain ⟨rfl, rfl⟩ := Prod.mk.inj he
    simp [ih hi]

theorem sign_append (chars : List Char) : (sign chars).1 ++ (sign chars).2 = chars := by
  unfold sign
  split <;> rfl

theorem exponent_append (chars : List Char) :
    (exponent chars).1 ++ (exponent chars).2 = chars := by
  unfold exponent
  split
  · rfl
  · dsimp only
    split
    · simp [List.takeWhile_append_dropWhile, sign_append]
    · rfl

theorem slash_append (rest : List Char) : (slash rest).1.text ++ (slash rest).2 = '/' :: rest := by
  unfold slash
  split
  · simp [text, List.takeWhile_append_dropWhile]
  · split
    · simp [text, splitComment_append ‹_›]
    · simp [text]
  · rfl

theorem quoted_append (rest : List Char) :
    (quoted rest).1.text ++ (quoted rest).2 = '"' :: rest := by
  have whole := List.takeWhile_append_dropWhile (p := fun c => c ≠ '"' && c ≠ '\n') (l := rest)
  unfold quoted
  dsimp only
  split
  · rename_i h
    rw [h] at whole
    simpa [text] using whole
  · simp [text]

theorem number_append (c : Char) (rest : List Char) :
    (number c rest).1.text ++ (number c rest).2 = c :: rest := by
  have whole := List.takeWhile_append_dropWhile (p := Char.isDigit) (l := rest)
  unfold number
  dsimp only
  split
  · rename_i after h
    rw [h] at whole
    have := exponent_append (after.dropWhile Char.isDigit)
    simp only [text, List.cons_append, List.append_assoc, this,
      List.takeWhile_append_dropWhile]
    rw [whole]
  · simp [text]

/-- The first piece and what comes behind it are the text. -/
theorem next_append (c : Char) (rest : List Char) :
    (next c rest).1.text ++ (next c rest).2 = c :: rest := by
  unfold next
  split
  · simp [text, List.takeWhile_append_dropWhile]
  split
  · simp [name, text, List.takeWhile_append_dropWhile]
  split
  · exact number_append c rest
  split
  · rename_i h
    subst h
    exact slash_append rest
  split
  · rename_i h
    subst h
    exact quoted_append rest
  split
  · rename_i h
    subst h
    unfold dash
    split <;> rfl
  split <;> rfl

/-- Every piece has at least one character. -/
theorem next_text_ne_nil (c : Char) (rest : List Char) : (next c rest).1.text ≠ [] := by
  simp only [next, name, number, slash, quoted, dash]
  repeat' split
  all_goals simp [text]

theorem next_length (c : Char) (rest : List Char) :
    (next c rest).2.length < (c :: rest).length := by
  have whole := congrArg List.length (next_append c rest)
  have := List.length_pos_iff.2 (next_text_ne_nil c rest)
  simp only [List.length_append] at whole
  omega

end Segment

/-- The pieces of a text up to the first that cannot be read, which is the last one then. -/
def segments : List Char → List Segment
  | [] => []
  | c :: rest =>
    match _cut : Segment.next c rest with
    | (.unreadable text, _) => [.unreadable text]
    | (segment, after) => segment :: segments after
termination_by chars => chars.length
decreasing_by
  have := Segment.next_length c rest
  rw [_cut] at this
  exact this

theorem segments_cons (c : Char) (rest : List Char) :
    segments (c :: rest) = match Segment.next c rest with
      | (.unreadable text, _) => [.unreadable text]
      | (piece, after) => piece :: segments after := by
  rw [segments]
  split <;> simp_all

/-- The tokens of pieces, or the first piece that cannot be read. -/
def tokensOf : List Segment → Except (List Char) (List Token)
  | [] => .ok []
  | .layout _ :: rest => tokensOf rest
  | .token token _ :: rest => (tokensOf rest).map (token :: ·)
  | .unreadable text :: _ => .error text

/-- The tokens of a text, or the first piece of it that cannot be read. -/
def tokenize (text : List Char) : Except (List Char) (List Token) :=
  tokensOf (segments text)

/-- The first token of pieces, if one comes before everything that cannot be read. -/
def leadingOf : List Segment → Option Token
  | .layout _ :: rest => leadingOf rest
  | .token token _ :: _ => some token
  | _ => none

/-- The first token of a text; none if the text is blank or cannot be read that far. -/
def leading? (text : List Char) : Option Token :=
  leadingOf (segments text)

/-- Where a whole text can be read, its leading token is the first of its tokens. -/
theorem leading?_eq_head? {text : List Char} {tokens : List Token}
    (h : tokenize text = .ok tokens) : leading? text = tokens.head? := by
  unfold tokenize at h
  unfold leading?
  generalize segments text = pieces at h
  induction pieces generalizing tokens with
  | nil => simp [tokensOf] at h; subst h; rfl
  | cons piece rest ih =>
    cases piece with
    | layout => exact ih h
    | unreadable => simp [tokensOf] at h
    | token token text =>
      simp only [tokensOf] at h
      cases hr : tokensOf rest with
      | error e => simp [hr, Except.map] at h
      | ok found => simp [hr, Except.map] at h; subst h; rfl

end CircuitBench.Assembly
