import CircuitBench.Assembly.Lexer
import CircuitBench.Proofs.Text.Numeral
import Mathlib

/-!
# Reading off tokens one after the other

`Reads text tokens rest` says that cutting `text` yields pieces that hold exactly `tokens`
and then goes on with `rest` as if the text began there. What follows is part of the
judgement, because a name or a number ends only where no further character continues it.
Judgements compose, so the tokens of a line are found piece by piece.
-/

namespace CircuitBench.Assembly

/-- Cutting `text` gives some readable pieces with the given tokens, then the pieces of `rest`. -/
def Reads (text : List Char) (tokens : List Token) (rest : List Char) : Prop :=
  ∃ pieces, segments text = pieces ++ segments rest ∧ tokensOf pieces = .ok tokens

/-- The text does not begin with a character that would continue a name or a number. -/
def Apart (text : List Char) : Prop :=
  ∀ c ∈ text.head?, Segment.isNameChar c = false ∧ c ≠ '.'

/-- The text does not begin with a blank. -/
def Solid (text : List Char) : Prop :=
  ∀ c ∈ text.head?, Segment.isBlank c = false

theorem tokensOf_append {pieces : List Segment} {tokens : List Token}
    (h : tokensOf pieces = .ok tokens) (rest : List Segment) :
    tokensOf (pieces ++ rest) = (tokensOf rest).map (tokens ++ ·) := by
  induction pieces generalizing tokens with
  | nil =>
    cases h
    exact (congrFun Except.map_id (tokensOf rest)).symm
  | cons piece pieces ih =>
    cases piece with
    | layout text => exact ih h
    | unreadable text => cases h
    | token token text =>
      rw [tokensOf] at h
      cases found : tokensOf pieces with
      | error text => rw [found] at h; cases h
      | ok behind =>
        rw [found] at h
        cases h
        rw [List.cons_append, tokensOf, ih found]
        cases tokensOf rest <;> rfl

namespace Reads

variable {text middle rest : List Char} {tokens more : List Token}

theorem append (first : Reads text tokens middle) (second : Reads middle more rest) :
    Reads text (tokens ++ more) rest := by
  obtain ⟨pieces, cut, found⟩ := first
  obtain ⟨pieces', cut', found'⟩ := second
  refine ⟨pieces ++ pieces', by rw [cut, cut', List.append_assoc], ?_⟩
  rw [tokensOf_append found, found']
  rfl

/-- The tokens in front of the rest are the tokens read. -/
theorem tokenize (h : Reads text tokens rest) :
    Assembly.tokenize text = (Assembly.tokenize rest).map (tokens ++ ·) := by
  obtain ⟨pieces, cut, found⟩ := h
  rw [Assembly.tokenize, cut, tokensOf_append found, Assembly.tokenize]

theorem tokenize_nil (h : Reads text tokens []) : Assembly.tokenize text = .ok tokens := by
  rw [h.tokenize, Assembly.tokenize, segments, tokensOf]
  simp [Except.map]

theorem leading? {token : Token} (h : Reads text (token :: tokens) rest) :
    Assembly.leading? text = some token := by
  obtain ⟨pieces, cut, found⟩ := h
  rw [Assembly.leading?, cut]
  clear cut
  induction pieces with
  | nil => cases found
  | cons piece pieces ih =>
    cases piece with
    | layout text => exact ih found
    | unreadable text => cases found
    | token other text =>
      rw [tokensOf] at found
      cases behind : tokensOf pieces with
      | error text => rw [behind] at found; cases found
      | ok tokens =>
        rw [behind] at found
        cases found
        rfl

theorem of_token {c : Char} {chars : List Char} {token : Token} (lexeme : List Char)
    (h : Segment.next c chars = (.token token lexeme, rest)) :
    Reads (c :: chars) [token] rest := by
  refine ⟨[.token token lexeme], ?_, rfl⟩
  rw [segments]
  simp [h]

theorem of_layout {c : Char} {chars : List Char} (lexeme : List Char)
    (h : Segment.next c chars = (.layout lexeme, rest)) : Reads (c :: chars) [] rest := by
  refine ⟨[.layout lexeme], ?_, rfl⟩
  rw [segments]
  simp [h]

end Reads

section Classes

theorem not_isBlank_of_isNameChar {c : Char} (h : Segment.isNameChar c) :
    Segment.isBlank c = false := by
  refine Bool.eq_false_iff.mpr fun blank => ?_
  simp only [Segment.isBlank, Bool.or_eq_true, decide_eq_true_eq] at blank
  rcases blank with (((rfl | rfl) | rfl) | rfl) | rfl <;> revert h <;> decide

theorem isNameChar_of_isNameStart {c : Char} (h : Segment.isNameStart c) :
    Segment.isNameChar c := by
  simp only [Segment.isNameStart, Segment.isNameChar, Char.isAlphanum, Bool.or_eq_true] at h ⊢
  exact h.imp_left .inl

theorem isNameChar_of_isDigit {c : Char} (h : c.isDigit) : Segment.isNameChar c := by
  simp [Segment.isNameChar, Char.isAlphanum, h]

theorem not_isNameStart_of_isDigit {c : Char} (h : c.isDigit) :
    Segment.isNameStart c = false := by
  refine Bool.eq_false_iff.mpr fun start => ?_
  rw [Char.isDigit_iff_toNat] at h
  have bound : c.toNat < 'A'.toNat := Nat.lt_of_le_of_lt h.2 (by decide)
  simp only [Segment.isNameStart, Char.isAlpha, Char.isUpper, Char.isLower, Bool.or_eq_true,
    Bool.and_eq_true, decide_eq_true_eq, UInt32.le_iff_toNat_le, ge_iff_le] at start
  rcases start with (upper | lower) | rfl
  · exact absurd bound (Nat.not_lt.mpr upper.1)
  · exact absurd bound (Nat.not_lt.mpr (Nat.le_trans (by decide) lower.1))
  · exact absurd bound (by decide)

end Classes

namespace Segment

variable {c : Char}

theorem next_of_isNameStart (start : isNameStart c) (rest : List Char) :
    next c rest = name c rest := by
  have solid := not_isBlank_of_isNameChar (isNameChar_of_isNameStart start)
  simp only [next, solid, start, Bool.false_eq_true, if_false, if_true]

theorem next_of_isDigit (digit : c.isDigit) (rest : List Char) : next c rest = number c rest := by
  have solid := not_isBlank_of_isNameChar (isNameChar_of_isDigit digit)
  have noName := not_isNameStart_of_isDigit digit
  simp only [next, solid, noName, digit, Bool.false_eq_true, if_false, if_true]

end Segment

namespace Reads

variable {rest : List Char}

def isName : List Char → Bool
  | [] => false
  | c :: rest => Segment.isNameStart c && rest.all Segment.isNameChar

theorem isNameChar_of_isName {chars : List Char} (h : isName chars) :
    ∀ c ∈ chars, Segment.isNameChar c := by
  cases chars with
  | nil => cases h
  | cons first chars =>
    obtain ⟨start, inside⟩ := Bool.and_eq_true_iff.mp h
    intro c member
    rcases List.mem_cons.mp member with rfl | behind
    · exact isNameChar_of_isNameStart start
    · exact List.all_eq_true.mp inside c behind

theorem name {chars : List Char} (h : isName chars) (apart : Apart rest) :
    Reads (chars ++ rest) [.ofName (String.ofList chars)] rest := by
  cases chars with
  | nil => cases h
  | cons c chars =>
    obtain ⟨start, inside⟩ := Bool.and_eq_true_iff.mp h
    obtain ⟨taken, left⟩ :=
      Text.span_append (List.all_eq_true.mp inside) fun d head => (apart d head).1
    rw [List.cons_append]
    refine of_token (c :: chars) ?_
    rw [Segment.next_of_isNameStart start, Segment.name, taken, left]

theorem digits {chars : List Char} (nonempty : chars ≠ []) (inside : ∀ c ∈ chars, c.isDigit)
    (apart : Apart rest) : Reads (chars ++ rest) [.ofDigits chars] rest := by
  cases chars with
  | nil => exact absurd rfl nonempty
  | cons c chars =>
    have digit := inside c List.mem_cons_self
    obtain ⟨taken, left⟩ := Text.span_append
      (fun d member => inside d (.tail c member)) fun d head =>
        Bool.eq_false_iff.mpr fun digit =>
          Bool.eq_false_iff.mp (apart d head).1 (isNameChar_of_isDigit digit)
    -- Without a point behind them the digits are not the beginning of a float.
    have noPoint : ∀ after, rest ≠ '.' :: after := by
      rintro after rfl
      exact (apart '.' rfl).2 rfl
    rw [List.cons_append]
    refine of_token (c :: chars) ?_
    simp only [Segment.next_of_isDigit digit, Segment.number, taken, left]

theorem mark {c : Char} {token : Token} (h : Token.ofMark? c = some token) (rest : List Char) :
    Reads (c :: rest) [token] rest := by
  refine of_token [c] ?_
  unfold Token.ofMark? at h
  split at h <;> cases h <;> rfl

theorem arrow (rest : List Char) : Reads ('-' :: '>' :: rest) [.arrow] rest :=
  of_token ['-', '>'] rfl

/-- A space before something that is no blank. -/
theorem space (solid : Solid rest) : Reads (' ' :: rest) [] rest := by
  have none : ∀ c ∈ ([] : List Char), Segment.isBlank c := by simp
  obtain ⟨taken, left⟩ := Text.span_append none solid
  rw [List.nil_append] at taken left
  refine of_layout [' '] ?_
  rw [Segment.next, if_pos (by decide), taken, left]

end Reads
end CircuitBench.Assembly
