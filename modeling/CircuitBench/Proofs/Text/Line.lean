import CircuitBench.Text.Line
import CircuitBench.Proofs.Text.Numeral

/-!
# Lines put together and cut apart

A text is empty, or a single line, or a line with a line feed and the text behind it, and the
lines of it are found accordingly. So lines without line feeds and carriage returns, each
followed by a line feed, are the lines of the text they make up.
-/

namespace CircuitBench.Text

def isUnbroken (line : List Char) : Bool :=
  line.all fun c => c ≠ '\n' && c ≠ '\r'

@[simp] theorem isUnbroken_nil : isUnbroken [] = true := rfl

@[simp] theorem isUnbroken_cons (c : Char) (line : List Char) :
    isUnbroken (c :: line) = (c ≠ '\n' && c ≠ '\r' && isUnbroken line) := rfl

@[simp] theorem isUnbroken_append (front back : List Char) :
    isUnbroken (front ++ back) = (isUnbroken front && isUnbroken back) :=
  List.all_append

@[simp] theorem isUnbroken_toDigits (n : Nat) : isUnbroken (Nat.toDigits 10 n) = true := by
  refine List.all_eq_true.mpr fun c member => ?_
  have digit := isDigit_of_mem_toDigits member
  have noFeed : c ≠ '\n' := by
    rintro rfl
    revert digit
    decide
  have noReturn : c ≠ '\r' := by
    rintro rfl
    revert digit
    decide
  simp [noFeed, noReturn]

theorem dropReturn_of_isUnbroken {line : List Char} (h : isUnbroken line) :
    dropReturn line = line := by
  rw [dropReturn, if_neg]
  intro last
  have := List.all_eq_true.mp h '\r' (List.mem_of_getLast? last)
  simp at this

theorem not_mem_of_isUnbroken {line : List Char} (h : isUnbroken line) : '\n' ∉ line := by
  intro member
  have := List.all_eq_true.mp h '\n' member
  simp at this

/-- Characters that are no line feed are kept as part of the first line. -/
theorem linesFrom_front {front : List Char} (unbroken : '\n' ∉ front) (current rest : List Char) :
    linesFrom current (front ++ rest) = linesFrom (front.reverse ++ current) rest := by
  induction front generalizing current with
  | nil => rfl
  | cons c front ih =>
    obtain ⟨feed, behind⟩ := List.ne_and_not_mem_of_not_mem_cons unbroken
    rw [List.cons_append, linesFrom, if_neg feed.symm, ih behind, List.reverse_cons,
      List.append_assoc]
    rfl

theorem linesFrom_append {line : List Char} (unbroken : '\n' ∉ line) (current rest : List Char) :
    linesFrom current (line ++ '\n' :: rest) =
      dropReturn (current.reverse ++ line) :: linesFrom [] rest := by
  rw [linesFrom_front unbroken]
  simp [linesFrom]

/-- The line up to the first line feed, and those of the text behind it. -/
theorem lines_append {line : List Char} (unbroken : '\n' ∉ line) (rest : List Char) :
    Text.lines (line ++ '\n' :: rest) = dropReturn line :: Text.lines rest :=
  linesFrom_append unbroken [] rest

theorem linesFrom_of_not_mem {line : List Char} (unbroken : '\n' ∉ line) (current : List Char) :
    linesFrom current line =
      if (current.reverse ++ line).isEmpty then [] else [current.reverse ++ line] := by
  rw [← List.append_nil line, linesFrom_front unbroken, List.append_nil]
  cases found : line.reverse ++ current with
  | nil => simp_all [linesFrom]
  | cons c others =>
    have read : current.reverse ++ line = (c :: others).reverse := by simp [← found]
    simp [linesFrom, read]

/-- A text without a line feed is one line, if it has any characters at all. -/
theorem lines_of_not_mem {line : List Char} (unbroken : '\n' ∉ line) (nonempty : line ≠ []) :
    Text.lines line = [line] := by
  rw [Text.lines, linesFrom_of_not_mem unbroken]
  simp [nonempty]

/-- A text is empty, or its last line, or a line and the text behind it. -/
theorem induction_on_lines {P : List Char → Prop} (nil : P [])
    (last : ∀ line, '\n' ∉ line → line ≠ [] → P line)
    (append : ∀ line rest, '\n' ∉ line → P rest → P (line ++ '\n' :: rest))
    (text : List Char) : P text := by
  induction length : text.length using Nat.strongRecOn generalizing text with
  | ind n ih =>
  subst length
  by_cases empty : text = []
  · exact empty ▸ nil
  by_cases broken : '\n' ∈ text
  · obtain ⟨line, rest, rfl, unbroken⟩ := List.eq_append_cons_of_mem broken
    exact append line rest unbroken (ih _ (by simp; omega) rest rfl)
  · exact last text broken empty

theorem lines_flatMap {lines : List (List Char)} (h : ∀ line ∈ lines, isUnbroken line) :
    Text.lines (lines.flatMap (· ++ ['\n'])) = lines := by
  induction lines with
  | nil => rfl
  | cons line rest ih =>
    have unbroken := h line List.mem_cons_self
    have behind := ih fun other member => h other (.tail line member)
    rw [List.flatMap_cons, List.append_assoc, List.singleton_append,
      lines_append (not_mem_of_isUnbroken unbroken), behind, dropReturn_of_isUnbroken unbroken]

theorem not_mem_of_mem_lines {text line : List Char} (member : line ∈ Text.lines text) :
    '\n' ∉ line := by
  induction text using induction_on_lines with
  | nil => cases member
  | last whole unbroken nonempty =>
    rw [lines_of_not_mem unbroken nonempty, List.mem_singleton] at member
    exact member ▸ unbroken
  | append first rest unbroken ih =>
    rw [lines_append unbroken] at member
    rcases List.mem_cons.mp member with rfl | behind
    · rw [dropReturn]
      split
      · exact fun feed => unbroken (List.dropLast_subset _ feed)
      · exact unbroken
    · exact ih behind

/-- Any lines are those of some text. One that ends with a carriage return needs another one in
front of its line feed, and so every line gets one. -/
theorem exists_lines {lines : List (List Char)} (unbroken : ∀ line ∈ lines, '\n' ∉ line) :
    ∃ text, Text.lines text = lines := by
  induction lines with
  | nil => exact ⟨[], rfl⟩
  | cons line rest ih =>
    obtain ⟨here, behind⟩ := List.forall_mem_cons.mp unbroken
    obtain ⟨text, same⟩ := ih behind
    have ended : '\n' ∉ line ++ ['\r'] := by simpa using here
    have dropped : dropReturn (line ++ ['\r']) = line := by simp [dropReturn]
    exact ⟨line ++ ['\r'] ++ '\n' :: text, by rw [lines_append ended, dropped, same]⟩

/-- The first lines of a text are those of the text up to where they end. -/
theorem exists_front_lines (text : List Char) (n : Nat) :
    ∃ front, front <+: text ∧ Text.lines front = (Text.lines text).take n := by
  induction text using induction_on_lines generalizing n with
  | nil => exact ⟨[], List.nil_prefix, by simp⟩
  | last line unbroken nonempty =>
    cases n with
    | zero => exact ⟨[], List.nil_prefix, rfl⟩
    | succ n => exact ⟨line, List.prefix_rfl, by simp [lines_of_not_mem unbroken nonempty]⟩
  | append line rest unbroken ih =>
    cases n with
    | zero => exact ⟨[], List.nil_prefix, rfl⟩
    | succ n =>
      obtain ⟨front, begins, same⟩ := ih n
      refine ⟨line ++ '\n' :: front, ?_, ?_⟩
      · exact (List.prefix_append_right_inj line).mpr (List.cons_prefix_cons.mpr ⟨rfl, begins⟩)
      · rw [lines_append unbroken, lines_append unbroken, same, List.take_succ_cons]

end CircuitBench.Text
