import CircuitBench.Proofs.Assembly.CommentLayout
import CircuitBench.Proofs.Assembly.Reader
import CircuitBench.Proofs.Text.Line
import Mathlib

/-!
# Texts with comments

A text is read line by line. With its comments hidden it has the same lines, each with its own
comments hidden, provided that each line closes the block comments that begin on it. A comment
that goes on behind its line is no comment to the reading: its first line cannot be cut and is
passed over or refused, and a statement on one of the next lines is read.
-/

namespace CircuitBench.Assembly

open Place

section Lines

theorem hide_hide (c : Char) : hide (hide c) = hide c := by
  unfold hide
  grind

/-- Only what is hidden anyway tells a text with hidden comments from the text. -/
theorem map_hide_scan (place : Place) (text : List Char) :
    (scan place text).1.map hide = text.map hide := by
  have slash : hide '/' = hide ' ' := rfl
  have star : hide '*' = hide ' ' := rfl
  fun_induction scan place text with
  | case1 => rfl
  | _ => simp [emit, hide_hide, *]

/-- Behind a line the scan goes on from some place, unless a slash or a star comes next. -/
theorem exists_scan_append (place : Place) (line : List Char) :
    ∃ next : Place, (scan place line).2 = decide (next = .blockComment) ∧
      ∀ rest : List Char, rest.head? ≠ some '/' → rest.head? ≠ some '*' →
        scan place (line ++ rest) = emit (scan place line).1 (scan next rest) := by
  fun_induction scan place line
  case case1 place => exact ⟨place, rfl, fun rest _ _ => rfl⟩
  -- What comes next can only change a step that looks at two characters, a slash or a star first.
  all_goals
    rename_i ih
    obtain ⟨next, opened, behind⟩ := ih
    refine ⟨next, opened, fun rest slash star => ?_⟩
    rw [List.cons_append]
    try rw [List.cons_append]
    rw [scan, behind rest slash star]
    · rfl
    all_goals grind [List.append_eq_cons_iff]

variable {line : List Char}

theorem hideComments_append_feed (closed : leavesOpen line = false) (rest : List Char) :
    hideComments (line ++ '\n' :: rest) = hideComments line ++ '\n' :: hideComments rest := by
  obtain ⟨next, opened, behind⟩ := exists_scan_append .code line
  rw [leavesOpen, opened] at closed
  have feed : scan next ('\n' :: rest) = emit ['\n'] (scan .code rest) := by
    cases next with
    | code => exact scan_code_cons (by decide) (by decide)
    | quotation => rfl
    | lineComment => rfl
    | blockComment => cases closed
  rw [hideComments, behind ('\n' :: rest) (by simp) (by simp), feed]
  rfl

theorem hideComments_append_return (line : List Char) :
    hideComments (line ++ ['\r']) = hideComments line ++ ['\r'] ∧
      leavesOpen (line ++ ['\r']) = leavesOpen line := by
  obtain ⟨next, opened, behind⟩ := exists_scan_append .code line
  have scanned := behind ['\r'] (by decide) (by decide)
  have single : scan next ['\r'] = (['\r'], decide (next = .blockComment)) := by
    cases next <;> rfl
  rw [hideComments, leavesOpen, leavesOpen, scanned, single, opened]
  exact ⟨rfl, rfl⟩

/-- A carriage return at the end of a line is no comment's. -/
theorem dropReturn_hideComments (line : List Char) :
    Text.dropReturn (hideComments line) = hideComments (Text.dropReturn line) ∧
      leavesOpen (Text.dropReturn line) = leavesOpen line := by
  by_cases returned : line.getLast? = some '\r'
  · obtain ⟨front, rfl⟩ := List.getLast?_eq_some_iff.mp returned
    obtain ⟨hidden, opened⟩ := hideComments_append_return front
    simp [Text.dropReturn, hidden, opened]
  · have still : (hideComments line).getLast? ≠ some '\r' := by
      intro last
      have same := congrArg List.getLast? (map_hide_scan .code line)
      rw [List.getLast?_map, List.getLast?_map] at same
      change (hideComments line).getLast?.map hide = _ at same
      rw [last] at same
      obtain ⟨c, here, hidden⟩ := Option.map_eq_some_iff.mp same.symm
      have kept : c = '\r' := by
        unfold hide at hidden
        grind
      exact returned (kept ▸ here)
    rw [Text.dropReturn, Text.dropReturn, if_neg returned, if_neg still]
    exact ⟨rfl, rfl⟩

theorem not_mem_hideComments (unbroken : '\n' ∉ line) : '\n' ∉ hideComments line := by
  intro member
  have there : '\n' ∈ line.map hide := by
    rw [← map_hide_scan .code line]
    exact List.mem_map.mpr ⟨'\n', member, rfl⟩
  obtain ⟨c, here, hidden⟩ := List.mem_map.mp there
  have kept : c = '\n' := by
    unfold hide at hidden
    grind
  exact unbroken (kept ▸ here)

/-- If every line closes its block comments, comments are hidden line by line. -/
theorem lines_hideComments {text : List Char}
    (closed : ∀ line ∈ Text.lines text, leavesOpen line = false) :
    Text.lines (hideComments text) = (Text.lines text).map hideComments := by
  induction text using Text.induction_on_lines with
  | nil => rfl
  | last line unbroken nonempty =>
    have length := congrArg List.length (map_hide_scan .code line)
    rw [List.length_map, List.length_map] at length
    have still : hideComments line ≠ [] := by
      intro empty
      change (hideComments line).length = _ at length
      rw [empty] at length
      exact nonempty (List.eq_nil_of_length_eq_zero length.symm)
    rw [Text.lines_of_not_mem unbroken nonempty,
      Text.lines_of_not_mem (not_mem_hideComments unbroken) still]
    rfl
  | append line rest unbroken ih =>
    rw [Text.lines_append unbroken, List.forall_mem_cons] at closed
    obtain ⟨here, behind⟩ := closed
    obtain ⟨dropped, opened⟩ := dropReturn_hideComments line
    rw [hideComments_append_feed (opened ▸ here), Text.lines_append unbroken, List.map_cons,
      Text.lines_append (not_mem_hideComments unbroken), dropped, ih behind]

end Lines

theorem ofLine_hideComments {line : List Char} (closed : leavesOpen line = false) :
    Statement.ofLine (hideComments line) = Statement.ofLine line := by
  simp only [Statement.ofLine, Statement.afterLeading, tokenize_hideComments closed,
    leading?_hideComments closed]

/-- Lines count by their statements only. -/
theorem readLines_map {f : List Char → List Char} (limit number : Nat) (registers : Registers)
    {lines : List (List Char)}
    (same : ∀ line ∈ lines, Statement.ofLine (f line) = Statement.ofLine line) :
    readLines limit registers number (lines.map f) = readLines limit registers number lines := by
  induction lines generalizing number registers with
  | nil => rfl
  | cons line rest ih =>
    obtain ⟨here, behind⟩ := List.forall_mem_cons.mp same
    simp only [List.map_cons, readLines, here, ih _ _ behind]

/-- A text with blanks for all of its comments. -/
def hiddenComments (source : String) : String :=
  String.ofList (hideComments source.toList)

/-- Comments are blanks to the cutting into tokens, on however many lines. To the reading of a text
they are if none of them goes on behind its line. -/
theorem comments_are_blanks (limit : Nat) (source : String) :
    (leavesOpen source.toList = false →
      tokenize (hideComments source.toList) = tokenize source.toList ∧
        leading? (hideComments source.toList) = leading? source.toList) ∧
    ((∀ line ∈ Text.lines source.toList, leavesOpen line = false) →
      read limit (hiddenComments source) = read limit source) := by
  refine ⟨fun closed => ⟨tokenize_hideComments closed, leading?_hideComments closed⟩, ?_⟩
  intro closed
  have same : ∀ line ∈ Text.lines source.toList,
      Statement.ofLine (hideComments line) = Statement.ofLine line :=
    fun line member => ofLine_hideComments (closed line member)
  rw [read, read, hiddenComments, String.toList_ofList, lines_hideComments closed,
    readLines_map limit 1 [] same]

/-- A text with comments behind a declaration, on a line of their own and within a gate, and with
slashes in a string. -/
def annotated : String :=
  "include \"//\";\nqreg q[2]; /* h q[0]; */\n// x q[1];\nh /**/ q[0]; //\n"

theorem comments_are_blanks_annotated :
    hiddenComments annotated =
      "include \"//\";\nqreg q[2];              \n          \nh      q[0];   \n" ∧
    read maxQubits (hiddenComments annotated) = read maxQubits annotated ∧
    tokenize (hideComments "h /*\n*/ q".toList) = tokenize "h /*\n*/ q".toList := by
  refine ⟨by decide +kernel, (comments_are_blanks maxQubits annotated).2 ?_,
    ((comments_are_blanks maxQubits "h /*\n*/ q").1 (by decide)).1⟩
  decide +kernel

/-- The gate between two lines of a comment is applied. -/
theorem comments_over_lines_are_read :
    ¬∀ source : String, leavesOpen source.toList = false →
      read maxQubits (hiddenComments source) = read maxQubits source := by
  intro skipped
  have same := skipped "qreg q[1];\n/*\nx q[0];\n*/\n" (by decide)
  have gates : (read maxQubits "qreg q[1];\n/*\nx q[0];\n*/\n").toOption.map (·.ops) =
      some [.single .x 0] := by decide +kernel
  rw [← same] at gates
  revert gates
  decide +kernel

end CircuitBench.Assembly
