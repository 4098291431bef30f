import CircuitBench.Proofs.Assembly.Lexeme
import Mathlib

/-!
# Layout does not matter

A text that can be read is divided into pieces, each of which ends in front of the next. Blanks and
closed comments can be put in front of any of them. The pieces further ahead still end where they
did, because what is put in begins with a blank or a slash. Only a run of blanks and a comment up to
the end of a line take it in, and both are layout already: of what is put behind such a comment, all
up to the first line break is a part of it, and the rest is layout again. So the tokens are the
same, and they are the same with nothing but a space between them.
-/

namespace CircuitBench.Assembly

open Segment

/-- Blanks, and block comments that are closed on their line. -/
inductive IsLayout : List Char → Prop
  | nil : IsLayout []
  | blank {c : Char} {rest : List Char} (blank : isBlank c = true) (layout : IsLayout rest) :
    IsLayout (c :: rest)
  | comment {inside rest : List Char} (once : ¬['*', '/'] <:+: inside ++ ['*'])
    (line : '\n' ∉ inside) (layout : IsLayout rest) :
    IsLayout ('/' :: '*' :: (inside ++ '*' :: '/' :: rest))

section Layout

variable {inserted rest : List Char}

/-- A comment is closed by the first star with a slash behind it. -/
theorem splitComment_of_once {inside : List Char} (once : ¬['*', '/'] <:+: inside ++ ['*'])
    (rest : List Char) :
    splitComment (inside ++ '*' :: '/' :: rest) = some (inside ++ ['*', '/'], rest) := by
  induction inside with
  | nil => rfl
  | cons c inside ih =>
    have later := ih fun found => once (found.trans (List.suffix_cons c _).isInfix)
    rw [List.cons_append, splitComment, later]
    · rfl
    · rintro behind rfl next
      refine once ⟨[], ?_⟩
      rcases inside with _ | ⟨d, inside⟩
      · cases next
      · obtain ⟨rfl, -⟩ := List.cons.inj next
        exact ⟨inside ++ ['*'], rfl⟩

theorem IsLayout.eq_nil_or_delimiter (layout : IsLayout inserted) :
    inserted = [] ∨ ∃ d other, inserted = d :: other ∧ isDelimiter d = true := by
  cases layout with
  | nil => exact .inl rfl
  | blank blank => exact .inr ⟨_, _, rfl, by rw [isDelimiter, blank, Bool.true_or]⟩
  | comment => exact .inr ⟨_, _, rfl, rfl⟩

/-- Layout in front of a text does not matter. -/
theorem solids_append_of_isLayout (layout : IsLayout inserted) (rest : List Char) :
    solids (inserted ++ rest) = solids rest := by
  induction layout with
  | nil => rfl
  | blank blank _ ih => rw [List.cons_append, solids_cons_of_isBlank blank, ih]
  | @comment inside behind once _ _ ih =>
    have closed := splitComment_of_once once (behind ++ rest)
    rw [← ih, ← (Skips.blockComment closed).shown]
    simp

/-- Layout behind a comment up to the end of a line does not matter. -/
theorem solids_dropWhile_of_isLayout (layout : IsLayout inserted)
    (line : ∀ c ∈ rest.head?, c = '\n') :
    solids ((inserted ++ rest).dropWhile (· ≠ '\n')) = solids rest := by
  induction layout with
  | nil =>
    cases rest with
    | nil => rfl
    | cons c rest =>
      obtain rfl := line c rfl
      rfl
  | @blank c behind blank layout ih =>
    by_cases feed : c = '\n'
    · subst feed
      exact solids_append_of_isLayout (.blank blank layout) rest
    · rw [List.cons_append, List.dropWhile_cons_of_pos (by simpa using feed), ih]
  | @comment inside behind _ one_line _ ih =>
    have whole : '/' :: '*' :: (inside ++ '*' :: '/' :: behind) ++ rest =
        ('/' :: '*' :: (inside ++ ['*', '/'])) ++ (behind ++ rest) := by simp
    have passed : ∀ c ∈ '/' :: '*' :: (inside ++ ['*', '/']), decide (c ≠ '\n') = true := by
      intro c member
      refine decide_eq_true fun feed => ?_
      subst feed
      simp [one_line] at member
    rw [whole, List.dropWhile_append_of_pos passed, ih]

end Layout

section Pieces

def textOf (pieces : List Segment) : List Char :=
  pieces.flatMap Segment.text

@[simp] theorem textOf_nil : textOf [] = [] := rfl

@[simp] theorem textOf_cons (piece : Segment) (pieces : List Segment) :
    textOf (piece :: pieces) = piece.text ++ textOf pieces := List.flatMap_cons

@[simp] theorem textOf_append (front back : List Segment) :
    textOf (front ++ back) = textOf front ++ textOf back := List.flatMap_append

/-- Pieces that stand one behind the other, where each ends in front of the next. -/
inductive Divided : List Segment → Prop
  | nil : Divided []
  | cons {piece : Segment} {pieces : List Segment} (ends : piece.EndsAt (textOf pieces))
    (divided : Divided pieces) : Divided (piece :: pieces)

variable {piece : Segment} {after text : List Char} {pieces : List Segment} {tokens : List Token}

theorem segments_of_endsAt (ends : piece.EndsAt after) :
    segments (piece.text ++ after) = piece :: segments after := by
  obtain ⟨c, rest, whole, cut⟩ := next_of_endsAt ends
  rw [whole, segments_cons, cut]
  cases ends <;> rfl

theorem solids_of_endsAt (ends : piece.EndsAt after) :
    solids (piece.text ++ after) = [piece].filter isSolid ++ solids after := by
  rw [solids, segments_of_endsAt ends, ← List.singleton_append, List.filter_append]
  rfl

theorem segments_of_divided (divided : Divided pieces) : segments (textOf pieces) = pieces := by
  induction divided with
  | nil => rw [textOf_nil, segments]
  | cons ends _ ih => rw [textOf_cons, segments_of_endsAt ends, ih]

/-- A text that can be read is divided into its pieces. -/
theorem divided_of_tokenize (readable : tokenize text = .ok tokens) :
    Divided (segments text) ∧ textOf (segments text) = text := by
  induction text using segments.induct generalizing tokens with
  | case1 =>
    rw [segments]
    exact ⟨.nil, rfl⟩
  | case2 c rest text after cut =>
    rw [tokenize, segments_cons, cut] at readable
    cases readable
  | case3 c rest piece after solid cut ih =>
    have ends := @endsAt_next c rest (by rw [cut]; exact solid)
    have whole := next_append c rest
    rw [cut] at ends whole
    have pieces : segments (c :: rest) = piece :: segments after := by
      rw [← whole, segments_of_endsAt ends]
    obtain ⟨others, behind⟩ : ∃ others, tokenize after = .ok others := by
      rw [tokenize, pieces] at readable
      cases piece with
      | unreadable text => exact absurd rfl (solid text)
      | layout text => exact ⟨_, readable⟩
      | token token text =>
        cases found : tokenize after with
        | ok others => exact ⟨others, rfl⟩
        | error text =>
          rw [tokensOf, ← tokenize, found] at readable
          cases readable
    obtain ⟨divided, same⟩ := ih behind
    rw [pieces, textOf_cons, same]
    exact ⟨.cons (same.symm ▸ ends) divided, whole⟩

end Pieces

section Insertion

variable {piece : Segment} {after inserted : List Char} {front back pieces : List Segment}

/-- What a piece takes in is layout behind layout. -/
theorem solids_of_takes_in (ends : piece.EndsAt after) (takes_in : piece.isClosed = false)
    (layout : IsLayout inserted) :
    solids (piece.text ++ (inserted ++ after)) = [piece].filter isSolid ++ solids after := by
  cases ends with
  | @blanks c run _ first inside stop =>
    have blanks : ∀ d ∈ c :: run, isBlank d = true := List.forall_mem_cons.mpr ⟨first, inside⟩
    exact (solids_append_of_blanks blanks _).trans (solids_append_of_isLayout layout _)
  | @lineComment run _ inside stop =>
    have passed : ∀ d ∈ run, decide (d ≠ '\n') = true :=
      fun d member => decide_eq_true (inside d member)
    refine (Skips.lineComment (run ++ (inserted ++ after))).shown.trans ?_
    rw [List.dropWhile_append_of_pos passed]
    exact solids_dropWhile_of_isLayout layout stop
  | blockComment => cases takes_in
  | name => cases takes_in
  | integer => cases takes_in
  | float => cases takes_in
  | scaledFloat => cases takes_in
  | string => cases takes_in
  | arrow => cases takes_in
  | mark => cases takes_in

/-- Layout between pieces leaves the others as they are. -/
theorem solids_insert (divided : Divided (front ++ back)) (layout : IsLayout inserted) :
    solids (textOf front ++ (inserted ++ textOf back)) = (front ++ back).filter isSolid := by
  induction front with
  | nil =>
    rw [List.nil_append] at divided ⊢
    rw [textOf_nil, List.nil_append, solids_append_of_isLayout layout, solids,
      segments_of_divided divided]
  | cons piece front ih =>
    obtain ⟨ends, divided⟩ : piece.EndsAt (textOf (front ++ back)) ∧ Divided (front ++ back) := by
      cases divided with
      | cons ends divided => exact ⟨ends, divided⟩
    have behind := ih divided
    rw [textOf_append] at ends
    rw [textOf_cons, List.append_assoc, List.cons_append, ← List.singleton_append,
      List.filter_append, ← behind]
    rcases layout.eq_nil_or_delimiter with rfl | ⟨d, other, rfl, delimits⟩
    · exact solids_of_endsAt ends
    by_cases apart : textOf front = [] → piece.isClosed = true
    · exact solids_of_endsAt (ends.before_delimiter delimits apart (other ++ textOf back))
    · obtain ⟨last, takes_in⟩ := Classical.not_imp.mp apart
      rw [last, List.nil_append] at ends ⊢
      rw [solids_append_of_isLayout layout]
      exact solids_of_takes_in ends (Bool.eq_false_iff.mpr takes_in) layout

end Insertion

section Slices

def Segment.slice? : Segment → Option (List Char)
  | token _ text => some text
  | _ => none

variable {piece : Segment} {after : List Char} {pieces : List Segment}

theorem Segment.EndsAt.at_end (ends : piece.EndsAt after) : piece.EndsAt [] := by
  cases ends with
  | blanks first inside => exact .blanks first inside nofun
  | lineComment inside => exact .lineComment inside nofun
  | blockComment closed => exact .blockComment closed
  | name first inside => exact .name first inside nofun
  | integer first inside => exact .integer first inside nofun
  | float first inside places => exact .float first inside places nofun rfl
  | scaledFloat first inside places begins signs nonempty digits =>
    exact .scaledFloat first inside places begins signs nonempty digits nofun
  | string inside => exact .string inside
  | arrow => exact .arrow
  | mark read => exact .mark read

/-- The tokens of a text with single spaces between them. -/
def spaced (pieces : List Segment) : List Char :=
  [' '].intercalate (pieces.filterMap Segment.slice?)

/-- Tokens with single spaces between them end where they did. -/
theorem solids_spaced (divided : Divided pieces) :
    solids (spaced pieces) = pieces.filter isSolid := by
  rw [spaced]
  induction divided with
  | nil =>
    change (segments []).filter isSolid = []
    rw [segments, List.filter_nil]
  | @cons piece pieces ends _ ih =>
    cases piece with
    | unreadable => cases ends
    | layout => exact ih
    | token token text =>
      rw [List.filter_cons_of_pos rfl, ← ih]
      change solids ([' '].intercalate (text :: pieces.filterMap Segment.slice?)) = _
      cases pieces.filterMap Segment.slice? with
      | nil =>
        rw [List.intercalate_singleton]
        have last := solids_of_endsAt ends.at_end
        rwa [List.append_nil] at last
      | cons next slices =>
        have ends : (Segment.token token text).EndsAt
            ([] ++ ' ' :: [' '].intercalate (next :: slices)) :=
          EndsAt.before_delimiter rfl ends (fun _ => rfl) _
        rw [List.intercalate_cons_cons, List.append_assoc,
          ← solids_cons_of_isBlank (c := ' ') rfl ([' '].intercalate (next :: slices))]
        exact solids_of_endsAt ends

end Slices

/-- Blanks, and comments closed on their line, can be put in between any two pieces of a text that
can be read, in front of the first and behind the last, without any change to its tokens. Nor do the
tokens change if they are written with single spaces between them. The first of them is the leading
token of the text. -/
theorem layout_does_not_matter {text : List Char} {tokens : List Token}
    (readable : tokenize text = .ok tokens) :
    textOf (segments text) = text ∧
    (∀ front back, segments text = front ++ back → ∀ inserted, IsLayout inserted →
      tokenize (textOf front ++ inserted ++ textOf back) = .ok tokens) ∧
    tokenize (spaced (segments text)) = .ok tokens ∧
    leading? text = tokens.head? := by
  obtain ⟨divided, whole⟩ := divided_of_tokenize readable
  refine ⟨whole, fun front back split inserted layout => ?_, ?_, leading?_eq_head? readable⟩
  · rw [split] at divided
    rw [List.append_assoc, tokenize_eq_solids, solids_insert divided layout, ← split, ← solids,
      ← tokenize_eq_solids, readable]
  · rw [tokenize_eq_solids, solids_spaced divided, ← solids, ← tokenize_eq_solids, readable]

/-- A float that looks like one with an exponent, a string with a comment in it, and a comment up to
the end of its line. -/
def crowded : List Char :=
  "1.5e->\"/*\"bit2//x\n;".toList

/-- What is put in behind a float, and behind the comment up to the end of the line. -/
theorem layout_does_not_matter_crowded :
    tokenize crowded =
      .ok [.float, .identifier "e", .arrow, .string, .identifier "bit2", .semicolon] ∧
    tokenize "1.5/*;*/\te->\"/*\"bit2//x\n;".toList = tokenize crowded ∧
    tokenize "1.5e->\"/*\"bit2//x/*;*/\t\n;".toList = tokenize crowded ∧
    tokenize "1.5 e -> \"/*\" bit2 ;".toList = tokenize crowded ∧
    leading? crowded = some .float := by
  have readable : tokenize crowded =
      .ok [.float, .identifier "e", .arrow, .string, .identifier "bit2", .semicolon] := by
    decide +kernel
  have layout : IsLayout "/*;*/\t".toList :=
    @IsLayout.comment [';'] _ (by decide) (by decide) (.blank rfl .nil)
  obtain ⟨-, inserted, spaced, leading⟩ := layout_does_not_matter readable
  have behind : ∀ count, tokenize (textOf ((segments crowded).take count) ++ "/*;*/\t".toList ++
      textOf ((segments crowded).drop count)) = tokenize crowded := fun count =>
    (inserted _ _ (List.take_append_drop count _).symm _ layout).trans readable.symm
  have float : "1.5/*;*/\te->\"/*\"bit2//x\n;".toList = textOf ((segments crowded).take 1) ++
      "/*;*/\t".toList ++ textOf ((segments crowded).drop 1) := by decide +kernel
  have comment : "1.5e->\"/*\"bit2//x/*;*/\t\n;".toList = textOf ((segments crowded).take 6) ++
      "/*;*/\t".toList ++ textOf ((segments crowded).drop 6) := by decide +kernel
  have slices : "1.5 e -> \"/*\" bit2 ;".toList = Assembly.spaced (segments crowded) := by
    decide +kernel
  refine ⟨readable, ?_, ?_, ?_, leading⟩
  · rw [float, behind]
  · rw [comment, behind]
  · rw [slices, spaced, readable]

end CircuitBench.Assembly
