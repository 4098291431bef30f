import CircuitBench.Proofs.Assembly.Layout
import Mathlib

/-!
# The pattern of block comments

A block comment has a pattern that never looks ahead: a slash and a star, then anything up to a run
of stars, again and again as long as the run has no slash behind it, and at last the slash. No text
of this pattern goes on behind its first terminator, and none stops in front of it.

Behind the opening there are only two situations: the next star is still to come, or the last
character was a star. The texts that may follow in either of them are given by the other, one
character at a time. A text that lacks nothing but the slash of its first terminator obeys the same
equations, so induction on the text shows that the pattern matches these texts and no others.
-/

namespace CircuitBench.Assembly

open scoped Computability

/-- Patterns of texts. -/
inductive Pattern where
  | char (c : Char)
  | noneOf (excluded : List Char)
  | seq (first second : Pattern)
  | many (repeated : Pattern)
  | atLeastOne (repeated : Pattern)
deriving DecidableEq, Repr

namespace Pattern

/-- The texts of one character that has a property. -/
def single (p : Char → Prop) : Language Char :=
  {text | ∃ c, p c ∧ text = [c]}

/-- The texts that a pattern matches. -/
def language : Pattern → Language Char
  | char c => single (· = c)
  | noneOf excluded => single (· ∉ excluded)
  | seq first second => first.language * second.language
  | many repeated => repeated.language∗
  | atLeastOne repeated => repeated.language * repeated.language∗

/-- Anything up to a run of stars, and the run. -/
def throughStars : Pattern :=
  seq (many (noneOf ['*'])) (atLeastOne (char '*'))

/-- What follows a run of stars that has no slash behind it, up to another run of stars. -/
def anotherRun : Pattern :=
  seq (noneOf ['/', '*']) throughStars

def blockComment : Pattern :=
  seq (char '/') (seq (char '*') (seq throughStars (seq (many anotherRun) (char '/'))))

section Equations

variable {p : Char → Prop} {l : Language Char} {text : List Char}

theorem mem_single_mul :
    text ∈ single p * l ↔ ∃ c rest, text = c :: rest ∧ p c ∧ rest ∈ l := by
  constructor
  · intro matched
    obtain ⟨first, ⟨c, holds, rfl⟩, rest, behind, rfl⟩ := Language.mem_mul.mp matched
    exact ⟨c, rest, rfl, holds, behind⟩
  · rintro ⟨c, rest, rfl, holds, behind⟩
    exact Language.append_mem_mul (a := [c]) ⟨c, holds, rfl⟩ behind

@[simp] theorem nil_mem_single_mul : [] ∈ single p * l ↔ False := by
  simp [mem_single_mul]

@[simp] theorem cons_mem_single_mul {c : Char} : c :: text ∈ single p * l ↔ p c ∧ text ∈ l := by
  simp [mem_single_mul, and_comm]

/-- What may stand between the opening and the last slash of a comment. -/
def beforeStar : Language Char :=
  throughStars.language * (many anotherRun).language

/-- What may stand there behind a star. -/
def behindStar : Language Char :=
  (many (char '*')).language * (many anotherRun).language

theorem beforeStar_eq :
    beforeStar = single (· = '*') * behindStar + single (· ∉ ['*']) * beforeStar := by
  let other := single (· ∉ ['*'])
  let star := single (· = '*')
  let runs := (many anotherRun).language
  calc
    beforeStar = other∗ * (star * star∗) * runs := rfl
    _ = (1 + other * other∗) * (star * star∗) * runs := by
      rw [Language.one_add_self_mul_kstar_eq_kstar]
    _ = star * (star∗ * runs) + other * (other∗ * (star * star∗) * runs) := by
      simp only [add_mul, one_mul, mul_assoc]

theorem behindStar_eq :
    behindStar =
      1 + single (· = '*') * behindStar + single (· ∉ ['/', '*']) * beforeStar := by
  let star := single (· = '*')
  let other := single (· ∉ ['/', '*'])
  let runs := (many anotherRun).language
  have more : runs = 1 + other * (throughStars.language * runs) := by
    calc
      runs = 1 + anotherRun.language * anotherRun.language∗ :=
        (Language.one_add_self_mul_kstar_eq_kstar _).symm
      _ = 1 + other * (throughStars.language * runs) := by
        rw [← mul_assoc]
        rfl
  calc
    behindStar = star∗ * runs := rfl
    _ = (1 + star * star∗) * runs := by rw [Language.one_add_self_mul_kstar_eq_kstar]
    _ = runs + star * (star∗ * runs) := by simp only [add_mul, one_mul, mul_assoc]
    _ = 1 + other * (throughStars.language * runs) + star * (star∗ * runs) := by rw [← more]
    _ = 1 + star * (star∗ * runs) + other * (throughStars.language * runs) := add_right_comm ..

theorem nil_not_mem_beforeStar : [] ∉ beforeStar := by
  rw [beforeStar_eq, Language.mem_add, nil_mem_single_mul, nil_mem_single_mul, or_self]
  exact not_false

theorem cons_mem_beforeStar {c : Char} :
    c :: text ∈ beforeStar ↔ c = '*' ∧ text ∈ behindStar ∨ c ≠ '*' ∧ text ∈ beforeStar := by
  conv_lhs => rw [beforeStar_eq]
  rw [Language.mem_add, cons_mem_single_mul, cons_mem_single_mul, List.mem_singleton]

theorem nil_mem_behindStar : [] ∈ behindStar := by
  rw [behindStar_eq, Language.mem_add, Language.mem_add]
  exact .inl (.inl Language.nil_mem_one)

theorem cons_mem_behindStar {c : Char} :
    c :: text ∈ behindStar ↔
      c = '*' ∧ text ∈ behindStar ∨ (c ≠ '/' ∧ c ≠ '*') ∧ text ∈ beforeStar := by
  conv_lhs => rw [behindStar_eq]
  rw [Language.mem_add, Language.mem_add, cons_mem_single_mul, cons_mem_single_mul]
  simp [Language.mem_one]

end Equations

/-- A text lacks a slash to its first terminator: it ends with a star, and no star of it has a slash
behind it. -/
structure LacksSlash (text : List Char) : Prop where
  last : text.getLast? = some '*'
  unfinished : ¬['*', '/'] <:+: text

section LacksSlash

variable {c : Char} {text : List Char}

theorem not_lacksSlash_nil : ¬LacksSlash [] :=
  fun lacks => nomatch lacks.last

theorem lacksSlash_star : LacksSlash ['*'] :=
  ⟨rfl, by decide⟩

theorem infix_cons_iff_of_ne (other : c ≠ '*') :
    ['*', '/'] <:+: c :: text ↔ ['*', '/'] <:+: text := by
  rw [List.infix_cons_iff, List.cons_prefix_cons]
  simp [other.symm]

theorem lacksSlash_cons (other : c ≠ '*') : LacksSlash (c :: text) ↔ LacksSlash text := by
  cases text with
  | nil =>
    refine iff_of_false (fun lacks => other ?_) not_lacksSlash_nil
    exact Option.some.inj lacks.last
  | cons d text =>
    constructor
    · intro lacks
      exact ⟨lacks.last, mt (infix_cons_iff_of_ne other).mpr lacks.unfinished⟩
    · intro lacks
      exact ⟨lacks.last, mt (infix_cons_iff_of_ne other).mp lacks.unfinished⟩

theorem lacksSlash_star_cons :
    LacksSlash ('*' :: c :: text) ↔ c ≠ '/' ∧ LacksSlash (c :: text) := by
  constructor
  · intro lacks
    refine ⟨?_, lacks.last, fun found => lacks.unfinished (List.infix_cons found)⟩
    rintro rfl
    exact lacks.unfinished ⟨[], text, rfl⟩
  · rintro ⟨noSlash, lacks⟩
    refine ⟨lacks.last, fun found => ?_⟩
    rcases List.infix_cons_iff.mp found with begins | later
    · have second := (List.cons_prefix_cons.mp (List.cons_prefix_cons.mp begins).2).1
      exact noSlash second.symm
    · exact lacks.unfinished later

end LacksSlash

/-- In both situations the pattern matches what lacks a slash to its first terminator. -/
theorem mem_beforeStar_and_behindStar (text : List Char) :
    (text ∈ beforeStar ↔ LacksSlash text) ∧
      (text ∈ behindStar ↔ LacksSlash ('*' :: text)) := by
  induction text with
  | nil =>
    exact ⟨iff_of_false nil_not_mem_beforeStar not_lacksSlash_nil,
      iff_of_true nil_mem_behindStar lacksSlash_star⟩
  | cons c text ih =>
    obtain ⟨before, behind⟩ := ih
    rw [cons_mem_beforeStar, cons_mem_behindStar, lacksSlash_star_cons, before, behind]
    by_cases star : c = '*'
    · subst star
      simp
    · rw [lacksSlash_cons star]
      simp [star]

end Pattern

/-- The first terminator of a text stands behind some characters, and none begins in front of it. -/
structure FirstTerminator (text inside after : List Char) : Prop where
  here : text = inside ++ '*' :: '/' :: after
  first : ∀ k < inside.length, ¬['*', '/'] <+: text.drop k

section FirstTerminator

open Segment

variable {text inside after : List Char}

/-- A terminator that begins in front of another ends in front of its slash. -/
theorem firstTerminator_iff :
    FirstTerminator text inside after ↔
      text = inside ++ '*' :: '/' :: after ∧ ¬['*', '/'] <:+: inside ++ ['*'] := by
  constructor
  · rintro ⟨rfl, first⟩
    refine ⟨rfl, ?_⟩
    rintro ⟨front, back, whole⟩
    have length := congrArg List.length whole
    simp only [List.length_append, List.length_cons, List.length_nil] at length
    apply first front.length (by omega)
    have split : inside ++ '*' :: '/' :: after =
        front ++ (['*', '/'] ++ (back ++ '/' :: after)) := by
      rw [← List.append_assoc, ← List.append_assoc, whole]
      simp
    rw [split, List.drop_left]
    exact List.prefix_append _ _
  · rintro ⟨rfl, once⟩
    refine ⟨rfl, fun k inFront begins => once ?_⟩
    have behind : inside ++ '*' :: '/' :: after = (inside ++ ['*']) ++ '/' :: after := by simp
    rw [behind, List.drop_append_of_le_length (by simp; omega)] at begins
    have within : ['*', '/'] <+: (inside ++ ['*']).drop k :=
      List.prefix_of_prefix_length_le begins (List.prefix_append _ _) (by simp; omega)
    exact within.isInfix.trans (List.drop_suffix k _).isInfix

theorem splitComment_eq_some_iff {front : List Char} :
    splitComment text = some (front, after) ↔
      ∃ inside, front = inside ++ ['*', '/'] ∧ FirstTerminator text inside after := by
  constructor
  · intro closed
    fun_induction splitComment text generalizing front with
    | case1 => cases closed
    | case2 rest =>
      cases closed
      exact ⟨[], rfl, rfl, fun k inFront => absurd inFront (Nat.not_lt_zero k)⟩
    | case3 c rest other ih =>
      obtain ⟨⟨front, after⟩, found, same⟩ := Option.map_eq_some_iff.mp closed
      cases same
      obtain ⟨inside, rfl, here, first⟩ := ih found
      refine ⟨c :: inside, rfl, congrArg (c :: ·) here, fun k inFront begins => ?_⟩
      cases k with
      | zero =>
        obtain ⟨star, behind⟩ := List.cons_prefix_cons.mp begins
        obtain ⟨tail, slash⟩ := behind
        exact other tail star.symm slash.symm
      | succ k => exact first k (Nat.lt_of_succ_lt_succ inFront) begins
  · rintro ⟨inside, rfl, terminator⟩
    obtain ⟨rfl, once⟩ := firstTerminator_iff.mp terminator
    exact splitComment_of_once once after

theorem splitComment_eq_none_iff : splitComment text = none ↔ ¬['*', '/'] <:+: text := by
  fun_induction splitComment text with
  | case1 => simp
  | case2 rest =>
    exact iff_of_false (Option.some_ne_none _) fun none => none ⟨[], rest, rfl⟩
  | case3 c rest other ih =>
    rw [Option.map_eq_none_iff, ih, List.infix_cons_iff, not_or]
    refine ⟨fun none => ⟨fun begins => ?_, none⟩, And.right⟩
    obtain ⟨star, tail, slash⟩ := List.cons_prefix_cons.mp begins
    exact other tail star.symm slash.symm

/-- A text has a first terminator if and only if it has one at all. -/
theorem exists_firstTerminator_iff :
    (∃ inside after, FirstTerminator text inside after) ↔ ['*', '/'] <:+: text := by
  constructor
  · rintro ⟨inside, after, rfl, -⟩
    exact ⟨inside, after, by simp⟩
  · intro found
    cases closed : splitComment text with
    | none => exact absurd found (splitComment_eq_none_iff.mp closed)
    | some parts =>
      obtain ⟨inside, -, terminator⟩ := splitComment_eq_some_iff.mp closed
      exact ⟨inside, parts.2, terminator⟩

theorem FirstTerminator.unique {inside' after' : List Char}
    (terminator : FirstTerminator text inside after)
    (terminator' : FirstTerminator text inside' after') : inside = inside' ∧ after = after' := by
  have closed := splitComment_eq_some_iff.mpr ⟨inside, rfl, terminator⟩
  have closed' := splitComment_eq_some_iff.mpr ⟨inside', rfl, terminator'⟩
  obtain ⟨front, rfl⟩ := Prod.mk.inj (Option.some.inj (closed.symm.trans closed'))
  exact ⟨List.append_cancel_right front, rfl⟩

/-- Cutting takes a comment from its opening to the first terminator behind it. -/
theorem next_eq_layout_iff {piece : List Char} :
    next '/' ('*' :: text) = (.layout piece, after) ↔
      ∃ inside, piece = '/' :: '*' :: (inside ++ ['*', '/']) ∧
        FirstTerminator text inside after := by
  change slash ('*' :: text) = _ ↔ _
  rw [slash]
  cases closed : splitComment text with
  | none =>
    refine iff_of_false (fun cut => ?_) ?_
    · cases cut
    rintro ⟨inside, -, terminator⟩
    have found := splitComment_eq_some_iff.mpr ⟨inside, rfl, terminator⟩
    rw [closed] at found
    cases found
  | some parts =>
    obtain ⟨front, behind⟩ := parts
    obtain ⟨inside, rfl, terminator⟩ := splitComment_eq_some_iff.mp closed
    constructor
    · intro cut
      cases cut
      exact ⟨inside, rfl, terminator⟩
    · rintro ⟨other, rfl, terminator'⟩
      obtain ⟨rfl, rfl⟩ := terminator.unique terminator'
      rfl

end FirstTerminator

namespace Pattern

variable {piece after rest : List Char}

theorem blockComment_eq :
    blockComment.language =
      single (· = '/') * (single (· = '*') * (beforeStar * single (· = '/'))) := by
  rw [beforeStar, mul_assoc]
  rfl

theorem mem_blockComment_iff :
    piece ∈ blockComment.language ↔
      ∃ text, piece = '/' :: '*' :: (text ++ ['/']) ∧ LacksSlash text := by
  rw [blockComment_eq]
  constructor
  · intro matched
    obtain ⟨_, _, rfl, rfl, behindSlash⟩ := mem_single_mul.mp matched
    obtain ⟨_, _, rfl, rfl, behindOpening⟩ := mem_single_mul.mp behindSlash
    obtain ⟨text, before, _, ⟨_, rfl, rfl⟩, rfl⟩ := Language.mem_mul.mp behindOpening
    exact ⟨text, rfl, (mem_beforeStar_and_behindStar text).1.mp before⟩
  · rintro ⟨text, rfl, lacks⟩
    have before := (mem_beforeStar_and_behindStar text).1.mpr lacks
    rw [cons_mem_single_mul, cons_mem_single_mul]
    exact ⟨rfl, rfl, Language.append_mem_mul before ⟨'/', rfl, rfl⟩⟩

/-- A comment reaches from its opening to the first terminator behind it. -/
theorem mem_blockComment_iff_firstTerminator (whole : piece ++ after = '/' :: '*' :: rest) :
    piece ∈ blockComment.language ↔
      ∃ inside, piece = '/' :: '*' :: (inside ++ ['*', '/']) ∧
        FirstTerminator rest inside after := by
  rw [mem_blockComment_iff]
  constructor
  · rintro ⟨text, rfl, last, unfinished⟩
    obtain ⟨inside, rfl⟩ := List.getLast?_eq_some_iff.mp last
    refine ⟨inside, by simp, firstTerminator_iff.mpr ⟨?_, unfinished⟩⟩
    simpa using whole.symm
  · rintro ⟨inside, rfl, terminator⟩
    obtain ⟨-, once⟩ := firstTerminator_iff.mp terminator
    exact ⟨inside ++ ['*'], by simp, by simp, once⟩

end Pattern

open Pattern

/-- A text that opens a block comment begins with one if and only if it has a terminator behind the
opening. It is then the only comment that the text begins with, and it ends with the first
terminator, which may stand right behind the opening but has no character in common with it. This
comment is what is cut off, and the tokens are those of what follows. -/
theorem comments_end_with_first_terminator (rest : List Char) :
    ((∃ piece, piece <+: '/' :: '*' :: rest ∧ piece ∈ blockComment.language) ↔
      ['*', '/'] <:+: rest) ∧
    (∀ piece other, piece <+: '/' :: '*' :: rest → other <+: '/' :: '*' :: rest →
      piece ∈ blockComment.language → other ∈ blockComment.language → piece = other) ∧
    ∀ piece after, piece ++ after = '/' :: '*' :: rest →
      (piece ∈ blockComment.language ↔
        ∃ inside, piece = '/' :: '*' :: (inside ++ ['*', '/']) ∧
          FirstTerminator rest inside after) ∧
      (piece ∈ blockComment.language ↔ Segment.next '/' ('*' :: rest) = (.layout piece, after)) ∧
      (piece ∈ blockComment.language → tokenize ('/' :: '*' :: rest) = tokenize after) := by
  refine ⟨?_, ?_, ?_⟩
  · rw [← exists_firstTerminator_iff]
    constructor
    · rintro ⟨piece, ⟨after, whole⟩, matched⟩
      obtain ⟨inside, -, terminator⟩ := (mem_blockComment_iff_firstTerminator whole).mp matched
      exact ⟨inside, after, terminator⟩
    · rintro ⟨inside, after, terminator⟩
      have whole : '/' :: '*' :: (inside ++ ['*', '/']) ++ after = '/' :: '*' :: rest := by
        simp [terminator.here]
      exact ⟨_, ⟨after, whole⟩,
        (mem_blockComment_iff_firstTerminator whole).mpr ⟨inside, rfl, terminator⟩⟩
  · rintro piece other ⟨after, whole⟩ ⟨after', whole'⟩ matched matched'
    obtain ⟨inside, rfl, terminator⟩ := (mem_blockComment_iff_firstTerminator whole).mp matched
    obtain ⟨inside', rfl, terminator'⟩ := (mem_blockComment_iff_firstTerminator whole').mp matched'
    rw [(terminator.unique terminator').1]
  · intro piece after whole
    have ends := mem_blockComment_iff_firstTerminator whole
    have cut : piece ∈ blockComment.language ↔
        Segment.next '/' ('*' :: rest) = (.layout piece, after) :=
      ends.trans next_eq_layout_iff.symm
    refine ⟨ends, cut, fun matched => ?_⟩
    rw [tokenize_eq_solids, tokenize_eq_solids, solids_of_layout (cut.mp matched)]

/-- The star of the opening closes nothing, and the last star of a run does. -/
example : Segment.next '/' "*/ x".toList = (.unreadable "/*/ x".toList, []) ∧
    Segment.next '/' "*/**/*/".toList = (.layout "/*/**/".toList, ['*', '/']) := by decide

end CircuitBench.Assembly
