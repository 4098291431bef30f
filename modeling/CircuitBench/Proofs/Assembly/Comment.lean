import CircuitBench.Assembly.Lexer
import Mathlib

/-!
# Comments are blanks

A text is scanned for comments without being cut into tokens: two slashes begin a comment that
ends with its line, a slash with a star one that ends with the first star with a slash behind it,
and neither begins inside a quotation. With a blank for every character of a comment, line ends
excepted, a text has the same tokens, on as many lines as its comments may stretch.

That is shown by following what the cutting does. A comment is layout on one side and blanks on
the other. Any other piece ends before the first slash or quote, so each function that splits a
piece off the front of a text splits off the same piece, and leaves the same rest up to comments.
-/

namespace CircuitBench.Assembly

/-- Where a character of a text stands. -/
inductive Place where
  | code
  | quotation
  | lineComment
  | blockComment
deriving DecidableEq, Repr

namespace Place

/-- A blank, in a line end the line end itself. -/
def hide (c : Char) : Char :=
  if c = '\n' ∨ c = '\r' then c else ' '

def emit (front : List Char) (scanned : List Char × Bool) : List Char × Bool :=
  (front ++ scanned.1, scanned.2)

/-- A text that begins at a place with its comments hidden, and whether a block comment is left
open at its end. -/
def scan : Place → List Char → List Char × Bool
  | place, [] => ([], place = blockComment)
  | code, '/' :: '/' :: rest => emit [' ', ' '] (scan lineComment rest)
  | code, '/' :: '*' :: rest => emit [' ', ' '] (scan blockComment rest)
  | code, '"' :: rest => emit ['"'] (scan quotation rest)
  | code, c :: rest => emit [c] (scan code rest)
  | quotation, '"' :: rest => emit ['"'] (scan code rest)
  | quotation, '\n' :: rest => emit ['\n'] (scan code rest)
  | quotation, c :: rest => emit [c] (scan quotation rest)
  | lineComment, '\n' :: rest => emit ['\n'] (scan code rest)
  | lineComment, c :: rest => emit [hide c] (scan lineComment rest)
  | blockComment, '*' :: '/' :: rest => emit [' ', ' '] (scan code rest)
  | blockComment, c :: rest => emit [hide c] (scan blockComment rest)

end Place

/-- A text with a blank for every character of a comment, and its line ends kept. -/
def hideComments (text : List Char) : List Char :=
  (Place.scan .code text).1

def leavesOpen (text : List Char) : Bool :=
  (Place.scan .code text).2

open Place

section Scan

variable {c : Char} {rest : List Char}

theorem isBlank_hide (c : Char) : Segment.isBlank (hide c) = true := by
  rw [hide]
  split_ifs with h
  · rcases h with rfl | rfl <;> rfl
  · rfl

theorem scan_code_cons (quote : c ≠ '"') (slash : c ≠ '/') :
    scan .code (c :: rest) = emit [c] (scan .code rest) := by
  rw [scan] <;> grind

theorem scan_code_slash (line : rest.head? ≠ some '/') (block : rest.head? ≠ some '*') :
    scan .code ('/' :: rest) = emit ['/'] (scan .code rest) := by
  rw [scan] <;> grind

theorem scan_lineComment (rest : List Char) :
    scan .lineComment rest = emit ((rest.takeWhile (· ≠ '\n')).map hide)
      (scan .code (rest.dropWhile (· ≠ '\n'))) := by
  induction rest with
  | nil => rfl
  | cons c rest ih =>
    by_cases feed : c = '\n'
    · subst feed
      rfl
    · rw [scan, ih]
      · simp [feed, emit]
      · grind

theorem scan_blockComment {inside after : List Char}
    (h : Segment.splitComment rest = some (inside, after)) :
    scan .blockComment rest = emit (inside.map hide) (scan .code after) := by
  fun_induction Segment.splitComment rest generalizing inside with
  | case1 => cases h
  | case2 rest =>
    cases h
    rfl
  | case3 c rest other ih =>
    obtain ⟨⟨front, behind⟩, found, same⟩ := Option.map_eq_some_iff.mp h
    cases same
    rw [scan, ih found]
    · rfl
    · grind

theorem scan_blockComment_open (h : Segment.splitComment rest = none) :
    (scan .blockComment rest).2 = true := by
  fun_induction Segment.splitComment rest with
  | case1 => rfl
  | case2 => cases h
  | case3 c rest other ih =>
    rw [scan]
    · exact ih (Option.map_eq_none_iff.mp h)
    · grind

end Scan

section Hidden

variable {c : Char} {rest : List Char}

theorem hideComments_cons (quote : c ≠ '"') (slash : c ≠ '/') (rest : List Char) :
    hideComments (c :: rest) = c :: hideComments rest ∧
      leavesOpen (c :: rest) = leavesOpen rest := by
  rw [hideComments, leavesOpen, scan_code_cons quote slash]
  exact ⟨rfl, rfl⟩

theorem hideComments_cons_of {p : Char → Bool} (quote : p '"' = false) (slash : p '/' = false)
    (here : p c = true) (rest : List Char) :
    hideComments (c :: rest) = c :: hideComments rest ∧
      leavesOpen (c :: rest) = leavesOpen rest := by
  refine hideComments_cons ?_ ?_ rest
  · rintro rfl
    rw [quote] at here
    cases here
  · rintro rfl
    rw [slash] at here
    cases here

/-- The first character stays as it is, or it is a slash and a blank takes its place. -/
theorem exists_hideComments_cons (c : Char) (rest : List Char) :
    ∃ first behind, hideComments (c :: rest) = first :: behind ∧
      (first = c ∨ c = '/' ∧ first = ' ') := by
  by_cases quote : c = '"'
  · subst quote
    exact ⟨_, _, rfl, .inl rfl⟩
  by_cases slash : c = '/'
  · subst slash
    by_cases line : rest.head? = some '/'
    · obtain ⟨after, rfl⟩ := List.head?_eq_some_iff.mp line
      exact ⟨_, _, rfl, .inr ⟨rfl, rfl⟩⟩
    by_cases block : rest.head? = some '*'
    · obtain ⟨after, rfl⟩ := List.head?_eq_some_iff.mp block
      exact ⟨_, _, rfl, .inr ⟨rfl, rfl⟩⟩
    · rw [hideComments, scan_code_slash line block]
      exact ⟨_, _, rfl, .inl rfl⟩
  · exact ⟨_, _, (hideComments_cons quote slash rest).1, .inl rfl⟩

end Hidden

/-- Off the front of a text the same is split, whether its comments are hidden or not, and the same
is left up to comments. -/
structure SplitsAlike {α : Type} (split : List Char → α × List Char) (text : List Char) : Prop where
  hidden : split (hideComments text) = ((split text).1, hideComments (split text).2)
  opened : leavesOpen text = leavesOpen (split text).2

namespace SplitsAlike

variable {α : Type} {split : List Char → α × List Char} {c : Char} {rest : List Char}

/-- Nothing is split off in front of a character that does not count. -/
theorem of_passed (counts : Char → Bool) (nothing : α) (space : counts ' ' = false)
    (passed : ∀ d tail, counts d = false → split (d :: tail) = (nothing, d :: tail))
    (here : counts c = false) (rest : List Char) : SplitsAlike split (c :: rest) := by
  obtain ⟨first, behind, hidden, either⟩ := exists_hideComments_cons c rest
  have too : counts first = false := by
    rcases either with rfl | ⟨-, rfl⟩
    · exact here
    · exact space
  refine ⟨?_, by rw [passed c rest here]⟩
  rw [hidden, passed first behind too, passed c rest here, hidden]

/-- A span of characters goes on alike if no slash and no quote belongs to it. -/
theorem span {p : Char → Bool} (quote : p '"' = false) (slash : p '/' = false)
    (space : p ' ' = false) (text : List Char) :
    SplitsAlike (fun text => (text.takeWhile p, text.dropWhile p)) text := by
  induction text with
  | nil => exact ⟨rfl, rfl⟩
  | cons c rest ih =>
    cases inside : p c with
    | true =>
      obtain ⟨hidden, opened⟩ := hideComments_cons_of quote slash inside rest
      obtain ⟨taken, left⟩ := Prod.mk.inj ih.hidden
      refine ⟨?_, ?_⟩
      · simp only [hidden, List.takeWhile_cons_of_pos inside, List.dropWhile_cons_of_pos inside,
          taken, left]
      · simp only [opened, List.dropWhile_cons_of_pos inside, ih.opened]
    | false =>
      refine of_passed p [] space ?_ inside rest
      intro d tail outside
      simp [outside]

theorem digits (text : List Char) :
    SplitsAlike (fun text => (text.takeWhile Char.isDigit, text.dropWhile Char.isDigit)) text :=
  span rfl rfl rfl text

theorem sign (text : List Char) : SplitsAlike Segment.sign text := by
  cases text with
  | nil => exact ⟨rfl, rfl⟩
  | cons c rest =>
    cases signed : c = '+' || c = '-' with
    | true =>
      simp only [Bool.or_eq_true, decide_eq_true_eq] at signed
      rcases signed with rfl | rfl
      · exact ⟨rfl, rfl⟩
      · exact ⟨rfl, rfl⟩
    | false =>
      refine of_passed (fun c => c = '+' || c = '-') [] rfl ?_ signed rest
      intro d tail unsigned
      rw [Segment.sign] <;> grind

theorem head?_any_isDigit (text : List Char) :
    (hideComments text).head?.any Char.isDigit = text.head?.any Char.isDigit := by
  cases text with
  | nil => rfl
  | cons c rest =>
    obtain ⟨first, behind, hidden, rfl | ⟨rfl, rfl⟩⟩ := exists_hideComments_cons c rest
    · rw [hidden]
      rfl
    · rw [hidden]
      rfl

theorem exponent (text : List Char) : SplitsAlike Segment.exponent text := by
  cases text with
  | nil => exact ⟨rfl, rfl⟩
  | cons c rest =>
    cases letter : c = 'e' || c = 'E' with
    | true =>
      obtain ⟨hidden, opened⟩ :=
        @hideComments_cons_of c (fun c => c = 'e' || c = 'E') rfl rfl letter rest
      obtain ⟨taken, left⟩ := Prod.mk.inj (digits (Segment.sign rest).2).hidden
      have behind := (digits (Segment.sign rest).2).opened
      by_cases some_digit : (Segment.sign rest).2.head?.any Char.isDigit = true
      · refine ⟨?_, ?_⟩
        · simp [Segment.exponent, hidden, letter, (sign rest).hidden, head?_any_isDigit,
            some_digit, taken, left]
        · simp [Segment.exponent, letter, opened, (sign rest).opened, some_digit, behind]
      · refine ⟨?_, ?_⟩
        · simp [Segment.exponent, hidden, letter, (sign rest).hidden, head?_any_isDigit,
            some_digit]
        · simp [Segment.exponent, some_digit]
    | false =>
      refine of_passed (fun c => c = 'e' || c = 'E') [] rfl ?_ letter rest
      intro d tail other
      simp [Segment.exponent, other]

theorem number (first : Char) (text : List Char) : SplitsAlike (Segment.number first) text := by
  obtain ⟨taken, left⟩ := Prod.mk.inj (digits text).hidden
  have behind := (digits text).opened
  simp only at behind
  cases dropped : text.dropWhile Char.isDigit with
  | nil =>
    rw [dropped] at left behind
    refine ⟨?_, ?_⟩
    · simp only [Segment.number, taken, left, dropped]
      rfl
    · simp only [Segment.number, dropped, behind]
  | cons c after =>
    rw [dropped] at left behind
    by_cases point : c = '.'
    · subst point
      obtain ⟨hidden, opened⟩ := hideComments_cons (c := '.') (by decide) (by decide) after
      obtain ⟨fraction, power⟩ := Prod.mk.inj (digits after).hidden
      have last := exponent (after.dropWhile Char.isDigit)
      rw [hidden] at left
      refine ⟨?_, ?_⟩
      · simp only [Segment.number, taken, left, dropped, fraction, power, last.hidden]
      · simp only [Segment.number, dropped]
        rw [behind, opened, (digits after).opened, last.opened]
    · have whole : ∀ {text tail : List Char} {d : Char}, text.dropWhile Char.isDigit = d :: tail →
          d ≠ '.' → Segment.number first text =
            (.token (.ofDigits (first :: text.takeWhile Char.isDigit))
              (first :: text.takeWhile Char.isDigit), d :: tail) := by
        intro text tail d dropped point
        simp only [Segment.number, dropped]
        split
        · grind
        · rfl
      obtain ⟨d, tail, hidden, either⟩ := exists_hideComments_cons c after
      have too : d ≠ '.' := by
        rcases either with rfl | ⟨-, rfl⟩
        · exact point
        · decide
      rw [hidden] at left
      refine ⟨?_, ?_⟩
      · rw [whole left too, whole dropped point, taken, hidden]
      · rw [whole dropped point, behind]

theorem dash (text : List Char) : SplitsAlike Segment.dash text := by
  cases text with
  | nil => exact ⟨rfl, rfl⟩
  | cons c rest =>
    cases arrow : decide (c = '>') with
    | true =>
      obtain rfl := of_decide_eq_true arrow
      exact ⟨rfl, rfl⟩
    | false =>
      refine of_passed (fun c => c = '>') (.unreadable ['-']) rfl ?_ arrow rest
      intro d tail other
      rw [Segment.dash]
      grind

/-- Behind any character but a blank, a quote and a slash the piece ends alike. -/
theorem next {first : Char} (solid : Segment.isBlank first = false) (quote : first ≠ '"')
    (slash : first ≠ '/') (text : List Char) : SplitsAlike (Segment.next first) text := by
  have unchanged : ∀ piece : Segment, SplitsAlike (fun text => (piece, text)) text :=
    fun piece => ⟨rfl, rfl⟩
  by_cases start : Segment.isNameStart first
  · have chars := @span Segment.isNameChar rfl rfl rfl text
    obtain ⟨taken, left⟩ := Prod.mk.inj chars.hidden
    refine ⟨?_, ?_⟩
    · simp [Segment.next, solid, start, Segment.name, taken, left]
    · simpa [Segment.next, solid, start, Segment.name] using chars.opened
  by_cases digit : first.isDigit
  · have same : Segment.next first = Segment.number first := by
      funext text
      simp [Segment.next, solid, start, digit]
    exact same ▸ number first text
  by_cases minus : first = '-'
  · subst minus
    exact dash text
  · cases mark : Token.ofMark? first with
    | some token =>
      have same : Segment.next first = fun text => (.token token [first], text) := by
        funext text
        simp [Segment.next, solid, start, digit, slash, quote, minus, mark]
      exact same ▸ unchanged _
    | none =>
      have same : Segment.next first = fun text => (.unreadable [first], text) := by
        funext text
        simp [Segment.next, solid, start, digit, slash, quote, minus, mark]
      exact same ▸ unchanged _

end SplitsAlike

end CircuitBench.Assembly
