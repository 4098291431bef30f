import CircuitBench.Proofs.Assembly.Comment
import CircuitBench.Proofs.Text.Numeral
import Mathlib

/-!
# Comments as layout

Blanks in place of a comment are layout, as the comment is. So a text has the same tokens with its
comments hidden. The pieces that are more than layout are the same, which is shown by induction on
the length: comment by comment, and piece by piece in between.
-/

namespace CircuitBench.Assembly

open Place

section Solids

def Segment.isSolid : Segment → Bool
  | layout _ => false
  | token _ _ => true
  | unreadable _ => true

def solids (text : List Char) : List Segment :=
  (segments text).filter Segment.isSolid

theorem tokenize_eq_solids (text : List Char) : tokenize text = tokensOf (solids text) := by
  rw [tokenize, solids]
  induction segments text with
  | nil => rfl
  | cons piece rest ih =>
    cases piece with
    | layout => exact ih
    | token token text => rw [List.filter_cons_of_pos rfl, tokensOf, tokensOf, ih]
    | unreadable => rfl

theorem leading?_eq_solids (text : List Char) : leading? text = leadingOf (solids text) := by
  rw [leading?, solids]
  induction segments text with
  | nil => rfl
  | cons piece rest ih =>
    cases piece with
    | layout => exact ih
    | token => rfl
    | unreadable => rfl

variable {c : Char} {rest : List Char}

theorem solids_of_layout {text after : List Char}
    (h : Segment.next c rest = (.layout text, after)) : solids (c :: rest) = solids after := by
  rw [solids, segments_cons, h]
  exact List.filter_cons_of_neg nofun

theorem solids_of_token {token : Token} {text after : List Char}
    (h : Segment.next c rest = (.token token text, after)) :
    solids (c :: rest) = .token token text :: solids after := by
  rw [solids, segments_cons, h]
  exact List.filter_cons_of_pos rfl

theorem solids_of_unreadable {text after : List Char}
    (h : Segment.next c rest = (.unreadable text, after)) :
    solids (c :: rest) = [.unreadable text] := by
  rw [solids, segments_cons, h]
  rfl

theorem solids_dropWhile_isBlank (text : List Char) :
    solids (text.dropWhile Segment.isBlank) = solids text := by
  cases text with
  | nil => rfl
  | cons c rest =>
    cases blank : Segment.isBlank c with
    | true =>
      have cut : Segment.next c rest =
          (.layout (c :: rest.takeWhile Segment.isBlank), rest.dropWhile Segment.isBlank) := by
        rw [Segment.next, if_pos blank]
      rw [List.dropWhile_cons_of_pos blank, solids_of_layout cut]
    | false => rw [List.dropWhile_cons_of_neg (by simp [blank])]

/-- A blank in front of a text is layout. -/
theorem solids_cons_of_isBlank (blank : Segment.isBlank c = true) (rest : List Char) :
    solids (c :: rest) = solids rest := by
  rw [← solids_dropWhile_isBlank (c :: rest), List.dropWhile_cons_of_pos blank,
    solids_dropWhile_isBlank]

theorem solids_append_of_blanks {run : List Char} (blanks : ∀ c ∈ run, Segment.isBlank c = true)
    (rest : List Char) : solids (run ++ rest) = solids rest := by
  induction run with
  | nil => rfl
  | cons c run ih =>
    obtain ⟨here, behind⟩ := List.forall_mem_cons.mp blanks
    rw [List.cons_append, solids_cons_of_isBlank here, ih behind]

theorem solids_hide_append (hidden rest : List Char) :
    solids (hidden.map hide ++ rest) = solids rest := by
  refine solids_append_of_blanks (fun c member => ?_) rest
  obtain ⟨d, -, rfl⟩ := List.mem_map.mp member
  exact isBlank_hide d

end Solids

/-- The pieces of a text are those of what comes behind some layout, and they are the same in both
if comments are hidden. -/
structure Skips (text after : List Char) : Prop where
  shown : solids text = solids after
  hidden : solids (hideComments text) = solids (hideComments after)
  opened : leavesOpen text = leavesOpen after
  shorter : after.length < text.length

namespace Skips

theorem blank {c : Char} (blank : Segment.isBlank c = true) (rest : List Char) :
    Skips (c :: rest) rest := by
  obtain ⟨hidden, opened⟩ := hideComments_cons_of (p := Segment.isBlank) rfl rfl blank rest
  refine ⟨solids_cons_of_isBlank blank rest, ?_, opened, Nat.lt_succ_self _⟩
  rw [hidden, solids_cons_of_isBlank blank]

theorem lineComment (rest : List Char) :
    Skips ('/' :: '/' :: rest) (rest.dropWhile (· ≠ '\n')) := by
  have scanned : scan .code ('/' :: '/' :: rest) =
      emit ((' ' :: ' ' :: rest.takeWhile (· ≠ '\n')).map hide)
        (scan .code (rest.dropWhile (· ≠ '\n'))) := by
    rw [scan, scan_lineComment]
    rfl
  refine ⟨solids_of_layout rfl, ?_, ?_, ?_⟩
  · rw [hideComments, scanned]
    exact solids_hide_append _ _
  · rw [leavesOpen, scanned]
    rfl
  · have shorter := (List.dropWhile_sublist (l := rest) fun c => c ≠ '\n').length_le
    simp only [List.length_cons]
    omega

theorem blockComment {rest inside after : List Char}
    (closed : Segment.splitComment rest = some (inside, after)) :
    Skips ('/' :: '*' :: rest) after := by
  have scanned : scan .code ('/' :: '*' :: rest) =
      emit ((' ' :: ' ' :: inside).map hide) (scan .code after) := by
    rw [scan, scan_blockComment closed]
    rfl
  have cut : Segment.next '/' ('*' :: rest) = (.layout ('/' :: '*' :: inside), after) := by
    change Segment.slash ('*' :: rest) = _
    simp only [Segment.slash, closed]
  refine ⟨solids_of_layout cut, ?_, ?_, ?_⟩
  · rw [hideComments, scanned]
    exact solids_hide_append _ _
  · rw [leavesOpen, scanned]
    rfl
  · have whole := congrArg List.length (Segment.splitComment_append closed)
    simp only [List.length_append] at whole
    simp only [List.length_cons]
    omega

end Skips

section Quotation

def isQuoted (c : Char) : Bool :=
  c ≠ '"' && c ≠ '\n'

variable {run : List Char} (inside : ∀ c ∈ run, isQuoted c = true)

include inside

theorem scan_quoted (rest : List Char) :
    scan .quotation (run ++ rest) = emit run (scan .quotation rest) := by
  induction run with
  | nil => rfl
  | cons c run ih =>
    obtain ⟨here, behind⟩ := List.forall_mem_cons.mp inside
    simp only [isQuoted, Bool.and_eq_true, decide_eq_true_eq] at here
    rw [List.cons_append, scan, ih behind]
    · rfl
    · exact here.1
    · exact here.2

theorem quoted_closed (after : List Char) :
    Segment.quoted (run ++ '"' :: after) = (.token .string ('"' :: run ++ ['"']), after) := by
  obtain ⟨taken, left⟩ := Text.span_append inside
    (Text.head?_cons (P := fun c => isQuoted c = false) (c := '"') rfl after)
  unfold isQuoted at taken left
  simp only [Segment.quoted, taken, left]

theorem quoted_unclosed {rest : List Char} (ended : ∀ c ∈ rest.head?, c = '\n') :
    Segment.quoted (run ++ rest) = (.unreadable ('"' :: run), rest) := by
  obtain ⟨taken, left⟩ := Text.span_append inside fun c head => ended c head ▸ rfl
  unfold isQuoted at taken left
  simp only [Segment.quoted, taken, left]
  split
  · exact absurd (ended '"' rfl) (by decide)
  · rfl

end Quotation

/-- A quotation is kept, and the same comes behind it up to comments. -/
theorem exists_hideComments_quoted (rest : List Char) :
    ∃ behind, hideComments ('"' :: rest) = '"' :: behind ∧
      Segment.quoted behind = ((Segment.quoted rest).1, hideComments (Segment.quoted rest).2) ∧
      leavesOpen ('"' :: rest) = leavesOpen (Segment.quoted rest).2 := by
  have inside : ∀ c ∈ rest.takeWhile isQuoted, isQuoted c = true :=
    fun c member => List.mem_takeWhile_imp member
  have whole := List.takeWhile_append_dropWhile (p := isQuoted) (l := rest)
  have opening : scan .code ('"' :: rest) = emit ['"'] (scan .quotation rest) := rfl
  rw [hideComments, leavesOpen, opening, ← whole, scan_quoted inside]
  generalize rest.takeWhile isQuoted = run at inside
  cases dropped : rest.dropWhile isQuoted with
  | nil =>
    refine ⟨run ++ [], rfl, ?_, ?_⟩
    · rw [quoted_unclosed inside (by simp)]
      rfl
    · rw [quoted_unclosed inside (by simp)]
      rfl
  | cons c after =>
    have stop : isQuoted c = false := by
      have head := List.head?_dropWhile_not isQuoted rest
      rwa [dropped] at head
    by_cases quote : c = '"'
    · subst quote
      refine ⟨run ++ '"' :: hideComments after, rfl, ?_, ?_⟩
      · rw [quoted_closed inside, quoted_closed inside]
      · rw [quoted_closed inside]
        rfl
    · obtain rfl : c = '\n' := by simpa [isQuoted, quote] using stop
      have feed := hideComments_cons (c := '\n') (by decide) (by decide) after
      refine ⟨run ++ '\n' :: hideComments after, rfl, ?_, ?_⟩
      · rw [quoted_unclosed inside (by simp), quoted_unclosed inside (by simp), feed.1]
      · rw [quoted_unclosed inside (by simp)]
        rfl

/-- A slash that begins no comment is kept, and so is what comes behind it up to comments. -/
theorem exists_hideComments_slash {rest : List Char} (line : rest.head? ≠ some '/')
    (block : rest.head? ≠ some '*') :
    ∃ behind, hideComments ('/' :: rest) = '/' :: behind ∧
      Segment.slash behind = ((Segment.slash rest).1, hideComments (Segment.slash rest).2) ∧
      leavesOpen ('/' :: rest) = leavesOpen (Segment.slash rest).2 := by
  have alone : ∀ {text : List Char}, text.head? ≠ some '/' → text.head? ≠ some '*' →
      Segment.slash text = (.unreadable ['/'], text) := by
    intro text line block
    rw [Segment.slash] <;> grind
  have still : (hideComments rest).head? ≠ some '/' ∧ (hideComments rest).head? ≠ some '*' := by
    cases rest with
    | nil => exact ⟨by decide, by decide⟩
    | cons c tail =>
      obtain ⟨first, behind, hidden, rfl | ⟨rfl, rfl⟩⟩ := exists_hideComments_cons c tail
      · rw [hidden]
        exact ⟨line, block⟩
      · exact absurd rfl line
  refine ⟨hideComments rest, ?_, ?_, ?_⟩
  · rw [hideComments, scan_code_slash line block]
    rfl
  · rw [alone still.1 still.2, alone line block]
  · rw [alone line block, leavesOpen, scan_code_slash line block]
    rfl

/-- Hidden comments are layout like the comments themselves. -/
theorem solids_hideComments {text : List Char} (closed : leavesOpen text = false) :
    solids (hideComments text) = solids text := by
  induction length : text.length using Nat.strong_induction_on generalizing text with
  | _ n ih =>
  subst length
  have of_skips : ∀ {after : List Char}, Skips text after →
      solids (hideComments text) = solids text := by
    intro after skips
    rw [skips.hidden, skips.shown, ih _ skips.shorter (skips.opened ▸ closed) rfl]
  -- Behind any other piece that is cut off the same is left, up to comments.
  have of_cut : ∀ {c : Char} {rest behind : List Char}, text = c :: rest →
      hideComments text = c :: behind →
      Segment.next c behind = ((Segment.next c rest).1, hideComments (Segment.next c rest).2) →
      leavesOpen text = leavesOpen (Segment.next c rest).2 →
      solids (hideComments text) = solids text := by
    rintro c rest behind rfl hidden cut opened
    have shorter := Segment.next_length c rest
    rw [hidden]
    rcases found : Segment.next c rest with ⟨piece, after⟩
    rw [found] at cut shorter opened
    have same := ih _ shorter (opened ▸ closed) rfl
    cases piece with
    | layout text => rw [solids_of_layout cut, solids_of_layout found, same]
    | token token text => rw [solids_of_token cut, solids_of_token found, same]
    | unreadable text => rw [solids_of_unreadable cut, solids_of_unreadable found]
  cases text with
  | nil => rfl
  | cons c rest =>
    by_cases blank : Segment.isBlank c = true
    · exact of_skips (.blank blank rest)
    by_cases quote : c = '"'
    · subst quote
      obtain ⟨behind, hidden, cut, opened⟩ := exists_hideComments_quoted rest
      exact of_cut rfl hidden cut opened
    by_cases slash : c = '/'
    · subst slash
      by_cases line : rest.head? = some '/'
      · obtain ⟨after, rfl⟩ := List.head?_eq_some_iff.mp line
        exact of_skips (.lineComment after)
      by_cases block : rest.head? = some '*'
      · obtain ⟨after, rfl⟩ := List.head?_eq_some_iff.mp block
        cases split : Segment.splitComment after with
        | none =>
          have opened : leavesOpen ('/' :: '*' :: after) = true := scan_blockComment_open split
          rw [opened] at closed
          cases closed
        | some parts => exact of_skips (.blockComment split)
      · obtain ⟨behind, hidden, cut, opened⟩ := exists_hideComments_slash line block
        exact of_cut rfl hidden cut opened
    · obtain ⟨hidden, opened⟩ := hideComments_cons quote slash rest
      have alike := SplitsAlike.next (Bool.eq_false_iff.mpr blank) quote slash rest
      exact of_cut rfl hidden alike.hidden (opened.trans alike.opened)

/-- A text with blanks for its comments has the same tokens, up to the same unreadable piece. -/
theorem tokenize_hideComments {text : List Char} (closed : leavesOpen text = false) :
    tokenize (hideComments text) = tokenize text := by
  rw [tokenize_eq_solids, solids_hideComments closed, tokenize_eq_solids]

theorem leading?_hideComments {text : List Char} (closed : leavesOpen text = false) :
    leading? (hideComments text) = leading? text := by
  rw [leading?_eq_solids, solids_hideComments closed, leading?_eq_solids]

end CircuitBench.Assembly
