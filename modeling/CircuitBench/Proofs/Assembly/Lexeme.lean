import CircuitBench.Proofs.Assembly.CommentLayout
import CircuitBench.Proofs.Assembly.Separation
import Mathlib

/-!
# Where a piece ends

Every kind of piece is a form of text together with what may not stand behind it, because the piece
would go on there. A name ends where no character of a name follows, a number where neither a digit
nor a point does, and a float also where no exponent follows. Strings, closed comments and marks end
of themselves. These are all the ways in which a piece can be cut off, and where one of them holds
the piece is cut off there.

A blank or a slash continues neither names nor numbers. So a piece is still cut off if one of them
takes the place of what stands somewhere behind the piece. Only runs of blanks and comments up to
the end of a line would take it in.
-/

namespace CircuitBench.Assembly

namespace Segment

/-- The piece ends in front of the text. -/
inductive EndsAt : Segment → List Char → Prop
  | blanks {c : Char} {run after : List Char} (first : isBlank c = true)
    (inside : ∀ d ∈ run, isBlank d = true) (stop : ∀ d ∈ after.head?, isBlank d = false) :
    EndsAt (.layout (c :: run)) after
  | lineComment {run after : List Char} (inside : ∀ d ∈ run, d ≠ '\n')
    (stop : ∀ d ∈ after.head?, d = '\n') : EndsAt (.layout ('/' :: '/' :: run)) after
  | blockComment {inside after : List Char} (closed : splitComment inside = some (inside, [])) :
    EndsAt (.layout ('/' :: '*' :: inside)) after
  | name {c : Char} {run after : List Char} (first : isNameStart c = true)
    (inside : ∀ d ∈ run, isNameChar d = true) (stop : ∀ d ∈ after.head?, isNameChar d = false) :
    EndsAt (.token (.ofName (String.ofList (c :: run))) (c :: run)) after
  | integer {c : Char} {run after : List Char} (first : c.isDigit = true)
    (inside : ∀ d ∈ run, d.isDigit = true)
    (stop : ∀ d ∈ after.head?, d.isDigit = false ∧ d ≠ '.') :
    EndsAt (.token (.ofDigits (c :: run)) (c :: run)) after
  | float {c : Char} {run fraction after : List Char} (first : c.isDigit = true)
    (inside : ∀ d ∈ run, d.isDigit = true) (places : ∀ d ∈ fraction, d.isDigit = true)
    (stop : ∀ d ∈ after.head?, d.isDigit = false) (unscaled : exponent after = ([], after)) :
    EndsAt (.token .float (c :: run ++ '.' :: fraction)) after
  | scaledFloat {c e : Char} {run fraction signed power after : List Char}
    (first : c.isDigit = true) (inside : ∀ d ∈ run, d.isDigit = true)
    (places : ∀ d ∈ fraction, d.isDigit = true) (begins : e = 'e' ∨ e = 'E')
    (sign : signed = [] ∨ signed = ['+'] ∨ signed = ['-']) (nonempty : power ≠ [])
    (digits : ∀ d ∈ power, d.isDigit = true) (stop : ∀ d ∈ after.head?, d.isDigit = false) :
    EndsAt (.token .float (c :: run ++ '.' :: fraction ++ (e :: (signed ++ power)))) after
  | string {run after : List Char} (inside : ∀ d ∈ run, isQuoted d = true) :
    EndsAt (.token .string ('"' :: run ++ ['"'])) after
  | arrow {after : List Char} : EndsAt (.token .arrow ['-', '>']) after
  | mark {c : Char} {mark : Token} {after : List Char} (read : Token.ofMark? c = some mark) :
    EndsAt (.token mark [c]) after

theorem head?_dropWhile_stop (p : Char → Bool) (chars : List Char) :
    ∀ c ∈ (chars.dropWhile p).head?, p c = false := by
  intro c head
  have stop := List.head?_dropWhile_not p chars
  rw [Option.mem_def.mp head] at stop
  exact stop

section Exponent

variable {e d : Char} {signed power after : List Char} (begins : e = 'e' ∨ e = 'E')
  (signs : signed = [] ∨ signed = ['+'] ∨ signed = ['-'])

include signs in
theorem sign_of_digit (digit : d.isDigit = true) (rest : List Char) :
    sign (signed ++ d :: rest) = (signed, d :: rest) := by
  rcases signs with rfl | rfl | rfl
  · rw [List.nil_append, sign]
    · intro other same
      obtain ⟨rfl, -⟩ := List.cons.inj same
      exact absurd digit (by decide)
    · intro other same
      obtain ⟨rfl, -⟩ := List.cons.inj same
      exact absurd digit (by decide)
  · rfl
  · rfl

include begins signs

/-- A sign and a digit behind the letter make an exponent, of all digits that follow. -/
theorem exponent_of_digit (digit : d.isDigit = true) (rest : List Char) :
    exponent (e :: (signed ++ d :: rest)) =
      (e :: (signed ++ (d :: rest).takeWhile Char.isDigit),
        (d :: rest).dropWhile Char.isDigit) := by
  have letter : (e = 'e' || e = 'E') = true := by simpa using begins
  simp only [exponent, sign_of_digit signs digit, letter, List.head?_cons, Option.any_some, digit,
    Bool.and_self, if_true]
  rfl

theorem exponent_of_digits (nonempty : power ≠ []) (digits : ∀ d ∈ power, d.isDigit = true)
    (stop : ∀ d ∈ after.head?, d.isDigit = false) :
    exponent (e :: (signed ++ (power ++ after))) = (e :: (signed ++ power), after) := by
  obtain ⟨d, rest, rfl⟩ := List.exists_cons_of_ne_nil nonempty
  have digit := digits d List.mem_cons_self
  obtain ⟨taken, left⟩ := Text.span_append digits stop
  rw [List.cons_append] at taken left ⊢
  rw [exponent_of_digit begins signs digit, taken, left]

end Exponent

theorem sign_cases (chars : List Char) :
    (sign chars).1 = [] ∨ (sign chars).1 = ['+'] ∨ (sign chars).1 = ['-'] := by
  unfold sign
  split
  · exact .inr (.inl rfl)
  · exact .inr (.inr rfl)
  · exact .inl rfl

/-- There is no exponent, or a letter with a sign or none and digits up to the last one. -/
theorem exponent_cases (chars : List Char) :
    exponent chars = ([], chars) ∨
      ∃ (e : Char) (signed power after : List Char), (e = 'e' ∨ e = 'E') ∧
        (signed = [] ∨ signed = ['+'] ∨ signed = ['-']) ∧ power ≠ [] ∧
        (∀ d ∈ power, d.isDigit = true) ∧ (∀ d ∈ after.head?, d.isDigit = false) ∧
        chars = e :: (signed ++ (power ++ after)) := by
  rcases chars with _ | ⟨e, rest⟩
  · exact .inl rfl
  by_cases scaled : ((e = 'e' || e = 'E') && (sign rest).2.head?.any Char.isDigit) = true
  · obtain ⟨letter, digit⟩ := Bool.and_eq_true_iff.mp scaled
    refine .inr ⟨e, (sign rest).1, (sign rest).2.takeWhile Char.isDigit,
      (sign rest).2.dropWhile Char.isDigit, by simpa using letter, sign_cases rest, ?_,
      fun d member => List.mem_takeWhile_imp member, head?_dropWhile_stop _ _, ?_⟩
    · cases cut : (sign rest).2 with
      | nil =>
        rw [cut] at digit
        cases digit
      | cons d more =>
        rw [cut] at digit
        rw [List.takeWhile_cons_of_pos (by simpa using digit)]
        exact List.cons_ne_nil _ _
    · rw [List.takeWhile_append_dropWhile, sign_append]
  · refine .inl ?_
    simp only [exponent, scaled, Bool.false_eq_true, if_false]

section Soundness

variable {c : Char}

theorem endsAt_name (start : isNameStart c = true) (rest : List Char) :
    EndsAt (name c rest).1 (name c rest).2 :=
  .name start (fun _ member => List.mem_takeWhile_imp member) (head?_dropWhile_stop _ _)

theorem endsAt_number (digit : c.isDigit = true) (rest : List Char) :
    EndsAt (number c rest).1 (number c rest).2 := by
  have inside : ∀ d ∈ rest.takeWhile Char.isDigit, d.isDigit = true :=
    fun _ member => List.mem_takeWhile_imp member
  have stop := head?_dropWhile_stop Char.isDigit rest
  unfold number
  dsimp only
  split
  · rename_i after _
    have places : ∀ d ∈ after.takeWhile Char.isDigit, d.isDigit = true :=
      fun _ member => List.mem_takeWhile_imp member
    rcases exponent_cases (after.dropWhile Char.isDigit) with
      unscaled | ⟨e, signed, power, behind, begins, signs, nonempty, digits, stop, cut⟩
    · rw [unscaled, List.append_nil]
      exact .float digit inside places (head?_dropWhile_stop _ _) unscaled
    · rw [cut, exponent_of_digits begins signs nonempty digits stop]
      exact .scaledFloat digit inside places begins signs nonempty digits stop
  · rename_i noPoint
    refine .integer digit inside fun d head => ⟨stop d head, ?_⟩
    rintro rfl
    obtain ⟨after, cut⟩ := List.head?_eq_some_iff.mp head
    exact noPoint after cut

theorem splitComment_self {chars inside after : List Char}
    (closed : splitComment chars = some (inside, after)) :
    splitComment inside = some (inside, []) := by
  fun_induction splitComment chars generalizing inside after with
  | case1 => cases closed
  | case2 rest =>
    cases closed
    rfl
  | case3 c rest other ih =>
    obtain ⟨⟨i, a⟩, found, same⟩ := Option.map_eq_some_iff.mp closed
    cases same
    rw [splitComment, ih found]
    · rfl
    · rintro behind rfl next
      subst next
      exact other _ rfl (splitComment_append found).symm

theorem endsAt_slash {rest : List Char} (readable : ∀ text, (slash rest).1 ≠ .unreadable text) :
    EndsAt (slash rest).1 (slash rest).2 := by
  revert readable
  fun_cases slash rest with
  | case1 after =>
    refine fun _ => .lineComment (fun d member => ?_) fun d head => ?_
    · simpa using List.mem_takeWhile_imp member
    · simpa using head?_dropWhile_stop _ _ d head
  | case2 after inside behind closed => exact fun _ => .blockComment (splitComment_self closed)
  | case3 after unclosed => exact fun readable => absurd rfl (readable _)
  | case4 => exact fun readable => absurd rfl (readable _)

theorem endsAt_quoted {rest : List Char} (readable : ∀ text, (quoted rest).1 ≠ .unreadable text) :
    EndsAt (quoted rest).1 (quoted rest).2 := by
  unfold quoted at readable ⊢
  dsimp only at readable ⊢
  split at readable
  · exact .string fun d member => List.mem_takeWhile_imp member
  · exact absurd rfl (readable _)

theorem endsAt_dash {rest : List Char} (readable : ∀ text, (dash rest).1 ≠ .unreadable text) :
    EndsAt (dash rest).1 (dash rest).2 := by
  unfold dash at readable ⊢
  split at readable
  · exact .arrow
  · exact absurd rfl (readable _)

/-- A piece that is cut off ends there. -/
theorem endsAt_next {rest : List Char} (readable : ∀ text, (next c rest).1 ≠ .unreadable text) :
    EndsAt (next c rest).1 (next c rest).2 := by
  unfold next at readable ⊢
  split_ifs at readable ⊢ with blank start digit slashed quote dashed
  · exact .blanks blank (fun d member => List.mem_takeWhile_imp member) (head?_dropWhile_stop _ _)
  · exact endsAt_name start rest
  · exact endsAt_number digit rest
  · exact endsAt_slash readable
  · exact endsAt_quoted readable
  · exact endsAt_dash readable
  · cases read : Token.ofMark? c with
    | none =>
      rw [read] at readable
      exact absurd rfl (readable [c])
    | some mark => exact .mark read

end Soundness

section Completeness

variable {c : Char}

/-- A point behind digits makes a float, with an exponent if there is one. -/
theorem number_of_point {run fraction tail : List Char} (inside : ∀ d ∈ run, d.isDigit = true)
    (places : ∀ d ∈ fraction, d.isDigit = true) (stop : ∀ d ∈ tail.head?, d.isDigit = false) :
    number c (run ++ '.' :: (fraction ++ tail)) =
      (.token .float (c :: run ++ '.' :: fraction ++ (exponent tail).1), (exponent tail).2) := by
  obtain ⟨taken, left⟩ := Text.span_append inside
    (Text.head?_cons (P := fun d => d.isDigit = false) (c := '.') rfl (fraction ++ tail))
  obtain ⟨taken', left'⟩ := Text.span_append places stop
  simp only [number, taken, left, taken', left']

/-- A piece is cut off where it ends. -/
theorem next_of_endsAt {piece : Segment} {after : List Char} (ends : EndsAt piece after) :
    ∃ c rest, piece.text ++ after = c :: rest ∧ next c rest = (piece, after) := by
  cases ends with
  | @blanks c run _ first inside stop =>
    obtain ⟨taken, left⟩ := Text.span_append inside stop
    refine ⟨c, run ++ after, rfl, ?_⟩
    rw [next, if_pos first, taken, left]
  | @lineComment run _ inside stop =>
    obtain ⟨taken, left⟩ := Text.span_append (p := fun d => d ≠ '\n') (by simpa using inside)
      (by simpa using stop)
    refine ⟨'/', '/' :: (run ++ after), rfl, ?_⟩
    change slash ('/' :: (run ++ after)) = _
    simp only [slash, taken, left]
  | @blockComment inside _ closed =>
    refine ⟨'/', '*' :: (inside ++ after), rfl, ?_⟩
    change slash ('*' :: (inside ++ after)) = _
    simp only [slash, splitComment_append_of_eq_some closed, List.nil_append]
  | @name c run _ first inside stop =>
    obtain ⟨taken, left⟩ := Text.span_append inside stop
    refine ⟨c, run ++ after, rfl, ?_⟩
    rw [next_of_isNameStart first, name, taken, left]
  | @integer c run _ first inside stop =>
    obtain ⟨taken, left⟩ := Text.span_append inside fun d head => (stop d head).1
    have noPoint : ∀ behind, after ≠ '.' :: behind := by
      rintro behind rfl
      exact (stop '.' rfl).2 rfl
    refine ⟨c, run ++ after, rfl, ?_⟩
    simp only [next_of_isDigit first, number, taken, left]
  | @float c run fraction _ first inside places stop unscaled =>
    refine ⟨c, run ++ '.' :: (fraction ++ after), by simp [text], ?_⟩
    rw [next_of_isDigit first, number_of_point inside places stop, unscaled, List.append_nil]
  | @scaledFloat c e run fraction signed power _ first inside places begins signs nonempty digits
      stop =>
    have letter : e.isDigit = false := by
      rcases begins with rfl | rfl <;> rfl
    refine ⟨c, run ++ '.' :: (fraction ++ e :: (signed ++ (power ++ after))), by simp [text], ?_⟩
    rw [next_of_isDigit first, number_of_point inside places (Text.head?_cons letter _),
      exponent_of_digits begins signs nonempty digits stop]
  | @string run _ inside =>
    refine ⟨'"', run ++ '"' :: after, by simp [text], ?_⟩
    exact quoted_closed inside after
  | arrow => exact ⟨'-', '>' :: after, rfl, rfl⟩
  | @mark c mark _ read =>
    refine ⟨c, after, rfl, ?_⟩
    unfold Token.ofMark? at read
    split at read <;> cases read <;> rfl

end Completeness

section Delimiters

/-- A blank or a slash, which continues neither names nor numbers. -/
def isDelimiter (d : Char) : Bool :=
  isBlank d || d = '/'

variable {d : Char} (delimits : isDelimiter d = true)

include delimits

theorem not_isNameChar_of_isDelimiter : isNameChar d = false := by
  refine Bool.eq_false_iff.mpr fun inside => ?_
  have solid := not_isBlank_of_isNameChar inside
  obtain rfl : d = '/' := by simpa [isDelimiter, solid] using delimits
  exact absurd inside (by decide)

theorem not_isDigit_of_isDelimiter : d.isDigit = false := by
  refine Bool.eq_false_iff.mpr fun digit => ?_
  have none := not_isNameChar_of_isDelimiter delimits
  rw [isNameChar_of_isDigit digit] at none
  cases none

/-- A delimiter is not in a run without delimiters, so the run stands in front of it. -/
theorem exists_append_of_isDelimiter {run behind front other : List Char}
    (inside : ∀ c ∈ run, isDelimiter c = false) (same : front ++ d :: other = run ++ behind) :
    ∃ rest, front = run ++ rest := by
  rcases List.append_eq_append_iff.mp same with ⟨rest, whole, tail⟩ | ⟨rest, whole, -⟩
  · rcases rest with _ | ⟨c, rest⟩
    · exact ⟨[], by simpa using whole.symm⟩
    · obtain ⟨rfl, -⟩ := List.cons.inj tail
      have outside := inside d (by rw [whole]; simp)
      rw [delimits] at outside
      cases outside
  · exact ⟨rest, whole⟩

/-- Where no exponent begins, none begins with a delimiter somewhere behind. -/
theorem exponent_before_delimiter {front back : List Char}
    (unscaled : exponent (front ++ back) = ([], front ++ back)) (other : List Char) :
    exponent (front ++ d :: other) = ([], front ++ d :: other) := by
  rcases exponent_cases (front ++ d :: other) with
    unscaled | ⟨e, signed, power, after, begins, signs, nonempty, digits, -, cut⟩
  · exact unscaled
  obtain ⟨p, power, rfl⟩ := List.exists_cons_of_ne_nil nonempty
  have digit := digits p List.mem_cons_self
  have letter : isDelimiter e = false := by
    rcases begins with rfl | rfl <;> rfl
  have marks : ∀ c ∈ signed, isDelimiter c = false := by
    rcases signs with rfl | rfl | rfl <;> simp [isDelimiter, isBlank]
  have figure : isDelimiter p = false := by
    refine Bool.eq_false_iff.mpr fun delimiter => ?_
    rw [not_isDigit_of_isDelimiter delimiter] at digit
    cases digit
  have inside : ∀ c ∈ e :: (signed ++ [p]), isDelimiter c = false := by
    refine List.forall_mem_cons.mpr ⟨letter, fun c member => ?_⟩
    rcases List.mem_append.mp member with marked | last
    · exact marks c marked
    · rwa [List.mem_singleton.mp last]
  obtain ⟨rest, rfl⟩ := exists_append_of_isDelimiter delimits inside
    (show front ++ d :: other = e :: (signed ++ [p]) ++ (power ++ after) by simpa using cut)
  have scaled := exponent_of_digit begins signs digit (rest ++ back)
  rw [show e :: (signed ++ [p]) ++ rest ++ back = e :: (signed ++ p :: (rest ++ back)) by simp,
    scaled] at unscaled
  cases unscaled

omit delimits in
theorem stop_before {P : Char → Prop} {front back : List Char} (here : front = [] → P d)
    (stop : ∀ c ∈ (front ++ back).head?, P c) (other : List Char) :
    ∀ c ∈ (front ++ d :: other).head?, P c := by
  cases front with
  | nil => exact Text.head?_cons (here rfl) other
  | cons c front => exact stop

/-- Whether a piece takes in no blank or slash behind it. -/
def isClosed : Segment → Bool
  | layout ('/' :: '*' :: _) => true
  | layout _ => false
  | _ => true

/-- A piece still ends where it does with a delimiter in the place of what stands behind it, further
on or, if the piece takes no delimiter in, at once. -/
theorem EndsAt.before_delimiter {piece : Segment} {front back : List Char}
    (ends : EndsAt piece (front ++ back)) (apart : front = [] → piece.isClosed = true)
    (other : List Char) : EndsAt piece (front ++ d :: other) := by
  have noDigit := not_isDigit_of_isDelimiter delimits
  cases ends with
  | blanks first inside stop =>
    refine .blanks first inside (stop_before (fun empty => ?_) stop other)
    have closed := apart empty
    unfold isClosed at closed
    split at closed
    · rename_i same
      cases same
      exact absurd first (by decide)
    · cases closed
    · rename_i noLayout
      exact absurd rfl (noLayout _)
  | lineComment inside stop =>
    exact .lineComment inside (stop_before (fun empty => nomatch apart empty) stop other)
  | blockComment closed => exact .blockComment closed
  | name first inside stop =>
    exact .name first inside
      (stop_before (fun _ => not_isNameChar_of_isDelimiter delimits) stop other)
  | integer first inside stop =>
    refine .integer first inside (stop_before (fun _ => ⟨noDigit, ?_⟩) stop other)
    rintro rfl
    exact absurd delimits (by decide)
  | float first inside places stop unscaled =>
    exact .float first inside places (stop_before (fun _ => noDigit) stop other)
      (exponent_before_delimiter delimits unscaled other)
  | scaledFloat first inside places begins signs nonempty digits stop =>
    exact .scaledFloat first inside places begins signs nonempty digits
      (stop_before (fun _ => noDigit) stop other)
  | string inside => exact .string inside
  | arrow => exact .arrow
  | mark read => exact .mark read

end Delimiters

end Segment

end CircuitBench.Assembly
