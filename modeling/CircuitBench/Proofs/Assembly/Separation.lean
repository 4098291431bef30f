import CircuitBench.Proofs.Assembly.Lexing

/-!
# Cutting a line at a semicolon

No name, number, mark or run of blanks goes on over a semicolon. Only comments and quoted
texts can take a semicolon in, and whether one does is settled in front of it. So a piece
either ends in front of a semicolon, and then it is the same whatever stands behind, or it
goes on behind the semicolon, again whatever stands there.

It follows that a semicolon among the tokens of a line separates the line: the text up to it
has the tokens up to it, with any text behind, and the text behind it has the other tokens.
-/

namespace CircuitBench.Assembly

section Spans

/-- A run of a class without the semicolon ends at a semicolon at the latest. -/
theorem span_semicolon (p : Char → Bool) (outside : p ';' = false) (front back : List Char) :
    (front ++ ';' :: back).takeWhile p = front.takeWhile p ∧
      (front ++ ';' :: back).dropWhile p = front.dropWhile p ++ ';' :: back := by
  induction front with
  | nil => simp [outside]
  | cons c front ih =>
    obtain ⟨taken, left⟩ := ih
    simp only [List.cons_append, List.takeWhile_cons, List.dropWhile_cons, taken, left]
    split <;> simp

variable {p : Char → Bool} {front : List Char}

/-- A run that ends within a text ends there whatever is put behind the text. -/
theorem span_append_of_dropWhile_ne_nil (ends : front.dropWhile p ≠ []) (back : List Char) :
    (front ++ back).takeWhile p = front.takeWhile p ∧
      (front ++ back).dropWhile p = front.dropWhile p ++ back := by
  induction front with
  | nil => exact absurd rfl ends
  | cons c front ih =>
    rw [List.dropWhile_cons] at ends
    simp only [List.cons_append, List.takeWhile_cons, List.dropWhile_cons]
    split
    · rename_i inside
      rw [if_pos inside] at ends
      obtain ⟨taken, left⟩ := ih ends
      exact ⟨congrArg (c :: ·) taken, left⟩
    · exact ⟨rfl, rfl⟩

/-- A run that fills a text goes on over a semicolon of its class. -/
theorem dropWhile_over_semicolon (full : front.dropWhile p = []) (inside : p ';' = true)
    (back : List Char) : (front ++ ';' :: back).dropWhile p = back.dropWhile p := by
  rw [List.dropWhile_append_of_pos (List.dropWhile_eq_nil_iff.mp full),
    List.dropWhile_cons_of_pos inside]

end Spans

namespace Segment

/-- The cut leaves a semicolon behind `front` alone, and what it cuts off is told by `front`. -/
def Stops (cut : List Char → Segment × List Char) (front : List Char) : Prop :=
  ∀ back, cut (front ++ ';' :: back) = ((cut front).1, (cut front).2 ++ ';' :: back)

/-- The cut takes a semicolon behind `front` in. -/
def Swallows (cut : List Char → Segment × List Char) (front : List Char) : Prop :=
  ∀ back, (cut (front ++ ';' :: back)).2.length ≤ back.length

variable {front back : List Char}

theorem sign_semicolon (front back : List Char) :
    sign (front ++ ';' :: back) = ((sign front).1, (sign front).2 ++ ';' :: back) := by
  fun_cases sign front with
  | case1 => rfl
  | case2 => rfl
  | case3 noPlus noMinus =>
    rcases front with _ | ⟨c, front⟩
    · rfl
    · rw [List.cons_append]
      unfold sign
      split <;> simp_all

theorem exponent_semicolon (front back : List Char) :
    exponent (front ++ ';' :: back) =
      ((exponent front).1, (exponent front).2 ++ ';' :: back) := by
  rcases front with _ | ⟨e, front⟩
  · rfl
  · have first : ((sign front).2 ++ ';' :: back).head?.any Char.isDigit =
        (sign front).2.head?.any Char.isDigit := by
      cases (sign front).2 <;> rfl
    obtain ⟨taken, left⟩ := span_semicolon Char.isDigit rfl (sign front).2 back
    simp only [List.cons_append, exponent, sign_semicolon, first, taken, left]
    split <;> rfl

theorem number_stops (c : Char) (front : List Char) : Stops (number c) front := by
  intro back
  obtain ⟨taken, left⟩ := span_semicolon Char.isDigit rfl front back
  unfold number
  rw [taken, left]
  rcases front.dropWhile Char.isDigit with _ | ⟨d, behind⟩
  · rfl
  by_cases point : d = '.'
  · subst point
    obtain ⟨fraction, behind'⟩ := span_semicolon Char.isDigit rfl behind back
    simp only [List.cons_append, fraction, behind', exponent_semicolon]
  · simp [point]

theorem name_stops (c : Char) (front : List Char) : Stops (name c) front := by
  intro back
  obtain ⟨taken, left⟩ := span_semicolon isNameChar (by decide) front back
  rw [name, taken, left, name]

theorem dash_stops (front : List Char) : Stops dash front := by
  intro back
  rcases front with _ | ⟨c, front⟩
  · rfl
  · by_cases arrow : c = '>'
    · subst arrow
      rfl
    · simp [dash, arrow]

/-- A comment that is closed ends there, whatever is put behind. -/
theorem splitComment_append_of_eq_some {inside after : List Char}
    (closed : splitComment front = some (inside, after)) (back : List Char) :
    splitComment (front ++ back) = some (inside, after ++ back) := by
  fun_induction splitComment front generalizing inside after with
  | case1 => cases closed
  | case2 rest =>
    cases closed
    rfl
  | case3 c rest other ih =>
    obtain ⟨⟨i, a⟩, found, same⟩ := Option.map_eq_some_iff.mp closed
    cases same
    rw [List.cons_append, splitComment, ih found]
    · rfl
    · rintro behind rfl next
      rcases rest with _ | ⟨d, rest⟩
      · cases found
      · obtain ⟨rfl, -⟩ := List.cons.inj next
        exact other rest rfl rfl

/-- A comment that is not closed takes a semicolon in and goes on behind it. -/
theorem splitComment_over (unclosed : splitComment front = none) (back : List Char) :
    splitComment (front ++ ';' :: back) =
      (splitComment back).map fun (inside, after) => (front ++ ';' :: inside, after) := by
  fun_induction splitComment front with
  | case1 => rfl
  | case2 rest => cases unclosed
  | case3 c rest other ih =>
    rw [List.cons_append, splitComment, ih (Option.map_eq_none_iff.mp unclosed), Option.map_map]
    · rfl
    · rintro behind rfl next
      rcases rest with _ | ⟨d, rest⟩
      · cases next
      · obtain ⟨rfl, -⟩ := List.cons.inj next
        exact other rest rfl rfl

theorem slash_stops_or_swallows (front : List Char) :
    Stops slash front ∨ Swallows slash front := by
  fun_cases slash front with
  | case1 front =>
    by_cases full : front.dropWhile (· ≠ '\n') = []
    · refine .inr fun back => ?_
      rw [List.cons_append, slash, dropWhile_over_semicolon full (by decide)]
      exact (List.dropWhile_sublist _).length_le
    · refine .inl fun back => ?_
      obtain ⟨taken, left⟩ := span_append_of_dropWhile_ne_nil full (';' :: back)
      simp only [List.cons_append, slash, taken, left]
  | case2 front inside after closed =>
    refine .inl fun back => ?_
    simp only [List.cons_append, slash, closed, splitComment_append_of_eq_some closed]
  | case3 front unclosed =>
    refine .inr fun back => ?_
    simp only [List.cons_append, slash, splitComment_over unclosed]
    cases found : splitComment back with
    | none => exact Nat.zero_le _
    | some parts =>
      have whole := congrArg List.length (splitComment_append found)
      rw [List.length_append] at whole
      exact Nat.le.intro (Nat.add_comm _ _ ▸ whole)
  | case4 noLine noBlock =>
    refine .inl fun back => ?_
    rcases front with _ | ⟨c, front⟩
    · rfl
    · rw [List.cons_append]
      unfold slash
      split <;> simp_all

theorem quoted_stops_or_swallows (front : List Char) :
    Stops quoted front ∨ Swallows quoted front := by
  by_cases full : (front.dropWhile fun c => c ≠ '"' && c ≠ '\n') = []
  · refine .inr fun back => ?_
    have behind : (back.dropWhile fun c => c ≠ '"' && c ≠ '\n').length ≤ back.length :=
      (List.dropWhile_sublist _).length_le
    unfold quoted
    rw [dropWhile_over_semicolon full (by decide)]
    dsimp only
    split
    · rename_i after cut
      rw [cut] at behind
      exact Nat.le_of_succ_le behind
    · exact behind
  · refine .inl fun back => ?_
    obtain ⟨taken, left⟩ := span_append_of_dropWhile_ne_nil full (';' :: back)
    unfold quoted
    rw [taken, left]
    obtain ⟨d, behind, cut⟩ := List.exists_cons_of_ne_nil full
    rw [cut]
    by_cases quote : d = '"'
    · subst quote
      rfl
    · simp [quote]

/-- A piece in front of a semicolon ends there or goes on behind the semicolon, and which of
the two does not depend on what stands behind. -/
theorem next_stops_or_swallows (c : Char) (front : List Char) :
    Stops (next c) front ∨ Swallows (next c) front := by
  unfold next
  split_ifs with blank start digit slashed quote dashed
  · refine .inl fun back => ?_
    obtain ⟨taken, left⟩ := span_semicolon isBlank (by decide) front back
    simp only [taken, left]
  · exact .inl (name_stops c front)
  · exact .inl (number_stops c front)
  · exact slash_stops_or_swallows front
  · exact quoted_stops_or_swallows front
  · exact .inl (dash_stops front)
  · refine .inl fun back => ?_
    dsimp only
    split <;> rfl

/-- A piece that leaves a semicolon alone is cut off whatever stands behind the semicolon. -/
theorem next_eq_of_semicolon_left {c : Char} {rest left back : List Char} {piece : Segment}
    (cut : next c rest = (piece, left ++ ';' :: back)) :
    ∃ front, c :: front = piece.text ++ left ∧ rest = front ++ ';' :: back ∧
      ∀ other, next c (front ++ ';' :: other) = (piece, left ++ ';' :: other) := by
  have whole := next_append c rest
  have nonempty := next_text_ne_nil c rest
  rw [cut] at whole nonempty
  obtain ⟨d, inside, text⟩ := List.exists_cons_of_ne_nil nonempty
  rw [text, List.cons_append, ← List.append_assoc] at whole
  obtain ⟨rfl, rfl⟩ := List.cons.inj whole
  refine ⟨inside ++ left, by rw [text, List.cons_append], rfl, ?_⟩
  rcases next_stops_or_swallows d (inside ++ left) with stops | swallows
  · intro other
    obtain ⟨same, cutOff⟩ := Prod.mk.inj (cut.symm.trans (stops back))
    rw [stops other, ← same, ← List.append_cancel_right cutOff]
  · have short := swallows back
    rw [cut, List.length_append, List.length_cons] at short
    omega

theorem ofName_cases (name : String) :
    Token.ofName name = .identifier name ∨ Token.ofName name ∈ Token.keywords.map Prod.snd := by
  rw [Token.ofName]
  cases found : Token.keywords.lookup name with
  | none => exact .inl rfl
  | some keyword =>
    obtain ⟨front, back, listed, -⟩ := List.lookup_eq_some_iff.mp found
    exact .inr (by simp [listed])

/-- The token of a name is none that is neither an identifier nor a keyword. -/
theorem ofName_ne {token : Token} (no_word : ∀ name, .identifier name ≠ token)
    (no_keyword : token ∉ Token.keywords.map Prod.snd) (name : String) :
    Token.ofName name ≠ token := by
  rintro rfl
  obtain word | keyword := ofName_cases name
  · exact no_word name word.symm
  · exact no_keyword keyword

theorem ofName_ne_semicolon (name : String) : Token.ofName name ≠ .semicolon :=
  ofName_ne (by simp) (by decide) name

theorem eq_of_ofMark?_eq_semicolon {c : Char} (h : Token.ofMark? c = some .semicolon) :
    c = ';' := by
  unfold Token.ofMark? at h
  split at h <;> cases h
  rfl

/-- Only the mark itself is read as a semicolon. -/
theorem eq_of_next_eq_semicolon {c : Char} {rest text after : List Char}
    (cut : next c rest = (.token .semicolon text, after)) : c = ';' := by
  unfold next at cut
  split_ifs at cut
  · cases cut
  · exact absurd (token.inj (Prod.mk.inj cut).1).1 (ofName_ne_semicolon _)
  · unfold number at cut
    dsimp only at cut
    split at cut <;> simp [Token.ofDigits] at cut
  · unfold slash at cut
    split at cut
    · cases cut
    · split at cut <;> cases cut
    · cases cut
  · unfold quoted at cut
    dsimp only at cut
    split at cut <;> cases cut
  · unfold dash at cut
    split at cut <;> cases cut
  · cases mark : Token.ofMark? c with
    | none =>
      rw [mark] at cut
      cases cut
    | some token =>
      rw [mark] at cut
      cases cut
      exact eq_of_ofMark?_eq_semicolon mark

end Segment

def upToSemicolon : List Segment → List Char
  | [] => []
  | .token .semicolon text :: _ => text
  | piece :: rest => piece.text ++ upToSemicolon rest

def firstStatement (line : List Char) : List Char :=
  upToSemicolon (segments line)

section Separation

variable {c : Char} {rest after text line : List Char} {tokens more : List Token}

theorem firstStatement_of_layout (h : Segment.next c rest = (.layout text, after)) :
    firstStatement (c :: rest) = text ++ firstStatement after := by
  rw [firstStatement, segments_cons, h]
  rfl

theorem firstStatement_of_token {token : Token}
    (h : Segment.next c rest = (.token token text, after)) (other : token ≠ .semicolon) :
    firstStatement (c :: rest) = text ++ firstStatement after := by
  rw [firstStatement, segments_cons, h]
  cases token with
  | semicolon => exact absurd rfl other
  | _ => rfl

theorem firstStatement_semicolon (rest : List Char) : firstStatement (';' :: rest) = [';'] := by
  rw [firstStatement, segments_cons]
  rfl

/-- A semicolon among the tokens of a line is a place of the line. The text up to that place
reads the same with any other text behind it. -/
theorem exists_semicolon (cut : tokenize line = .ok (tokens ++ .semicolon :: more)) :
    ∃ front back, line = front ++ ';' :: back ∧ tokenize back = .ok more ∧
      (∀ other, Reads (front ++ ';' :: other) (tokens ++ [.semicolon]) other) ∧
      (.semicolon ∉ tokens → firstStatement line = front ++ [';']) := by
  induction line using segments.induct generalizing tokens with
  | case1 => simp [tokenize, segments, tokensOf] at cut
  | case2 c rest text after piece =>
    rw [tokenize, segments_cons, piece] at cut
    cases cut
  | case3 c rest piece after readable found ih =>
    rw [tokenize, segments_cons, found] at cut
    cases piece with
    | unreadable text => exact (readable text rfl).elim
    | layout text =>
      obtain ⟨front, back, rfl, later, reads, first⟩ := ih cut
      obtain ⟨behind, whole, rfl, again⟩ := Segment.next_eq_of_semicolon_left found
      refine ⟨c :: behind, back, rfl, later,
        fun other => (Reads.of_layout text (again other)).append (reads other), fun absent => ?_⟩
      rw [firstStatement_of_layout found, first absent, whole, List.append_assoc]
      rfl
    | token token text =>
      change (tokenize after).map (token :: ·) = _ at cut
      cases behind : tokenize after with
      | error text => rw [behind] at cut; cases cut
      | ok others =>
        rw [behind] at cut
        rcases tokens with _ | ⟨first, tokens⟩
        · cases cut
          obtain rfl := Segment.eq_of_next_eq_semicolon found
          cases found
          exact ⟨[], rest, rfl, behind, Reads.mark rfl, fun _ => firstStatement_semicolon rest⟩
        · cases cut
          obtain ⟨front, back, rfl, later, reads, first⟩ := ih behind
          obtain ⟨behind, whole, rfl, again⟩ := Segment.next_eq_of_semicolon_left found
          refine ⟨c :: behind, back, rfl, later,
            fun other => (Reads.of_token text (again other)).append (reads other),
            fun absent => ?_⟩
          obtain ⟨here, absent⟩ := List.ne_and_not_mem_of_not_mem_cons absent
          rw [firstStatement_of_token found here.symm, first absent, whole, List.append_assoc]
          rfl

/-- The first statement of a line is a part of the line with the tokens up to the first
semicolon, and the text behind it has the others. -/
theorem firstStatement_of_tokenize (cut : tokenize line = .ok (tokens ++ .semicolon :: more))
    (absent : .semicolon ∉ tokens) :
    (∃ back, line = firstStatement line ++ back ∧ tokenize back = .ok more) ∧
      tokenize (firstStatement line) = .ok (tokens ++ [.semicolon]) := by
  obtain ⟨front, back, whole, later, reads, first⟩ := exists_semicolon cut
  rw [first absent]
  exact ⟨⟨back, by rw [whole, List.append_assoc]; rfl, later⟩, (reads []).tokenize_nil⟩

end Separation

end CircuitBench.Assembly
