import CircuitBench.Proofs.Assembly.LineForm
import CircuitBench.Proofs.Assembly.LineStep
import CircuitBench.Proofs.Text.Line
import Mathlib

/-!
# Lines that do not matter

A line that begins with nothing that can be read, or with a word that opens neither a register nor
a gate of the catalog, does nothing to a reading, whatever stands behind its first word. A
measurement does nothing either, be it well-formed or not. So such a line can be put at any place
of a text: the text is read as before, and only the lines behind that place have other numbers.
-/

namespace CircuitBench.Assembly

/-- Whether a line opens neither a register nor a gate of the catalog. Only its first word counts,
and a line without a first word opens nothing. -/
def isInert (line : List Char) : Bool :=
  match leading? line with
  | some .qreg | some .qubit => false
  | some (.identifier name) => (Gate.ofName? name).isNone
  | _ => true

/-- An error as it is after a line has been put in behind as many lines as `place` says. -/
def ReadError.withLineAt (place : Nat) : ReadError → ReadError
  | .statement number fault => .statement (if place < number then number + 1 else number) fault
  | .missingRegister => .missingRegister
  | .circuit e => .circuit e

section Inert

variable {line : List Char}

theorem leading?_of_isInert (inert : isInert line = true) :
    leading? line = none ∨ leading? line = some .measure ∨
      ∃ word, leading? line = some word ∧ Statement.isIdle word = true := by
  rw [isInert] at inert
  cases first : leading? line with
  | none => exact .inl rfl
  | some word =>
    rw [first] at inert
    cases word with
    | qreg => cases inert
    | qubit => cases inert
    | measure => exact .inr (.inl rfl)
    | identifier name => exact .inr (.inr ⟨_, rfl, inert⟩)
    | _ => exact .inr (.inr ⟨_, rfl, rfl⟩)

/-- The rest of a measurement is looked at, but what is wrong with it is not told. -/
theorem ofLine_of_measure (first : leading? line = some .measure) :
    Statement.ofLine line = .ok none ∨
      ∃ qubit bit, Statement.ofLine line = .ok (some (.measure qubit bit)) := by
  rw [Statement.ofLine, first]
  dsimp only
  cases found : (Statement.afterLeading line).toOption.bind Statement.measurement? with
  | none => exact .inl rfl
  | some statement =>
    obtain ⟨tokens, -, measured⟩ := Option.bind_eq_some_iff.mp found
    obtain ⟨qubit, bit, rest, -, -, rfl⟩ := measurement?_eq_some_iff.mp measured
    exact .inr ⟨qubit, bit, rfl⟩

theorem readLine_of_isInert (limit : Nat) (registers : Registers) (inert : isInert line = true) :
    readLine limit registers line = .ok ⟨registers, []⟩ := by
  rw [readLine]
  rcases leading?_of_isInert inert with nothing | measures | ⟨word, first, idle⟩
  · rw [Statement.ofLine, nothing]
  · rcases ofLine_of_measure measures with skipped | ⟨qubit, bit, read⟩
    · rw [skipped]
    · rw [read]
  · rw [Statement.ofLine_of_isIdle first idle]

end Inert

section Run

variable {limit number place : Nat} {registers : Registers} {line : List Char}

/-- An error behind a line is moved with the lines behind it. -/
theorem mapError_map_followedBy (f : ReadError → ReadError) (here : Contents)
    (behind : Except ReadError Contents) :
    (behind.mapError f).map here.followedBy = (behind.map here.followedBy).mapError f := by
  cases behind <;> rfl

/-- Lines that begin at a later number are read alike. -/
theorem readLines_later (below : place < number) (lines : List (List Char)) :
    readLines limit registers (number + 1) lines =
      (readLines limit registers number lines).mapError (.withLineAt place) := by
  induction lines generalizing registers number with
  | nil => rfl
  | cons line rest ih =>
    cases step : readLine limit registers line with
    | error fault =>
      rw [readLines_of_refused step, readLines_of_refused step, Except.mapError,
        ReadError.withLineAt, if_pos below]
    | ok here =>
      rw [readLines_of_read step, readLines_of_read step, ih (Nat.lt_succ_of_lt below),
        mapError_map_followedBy]

/-- The lines in front keep their numbers, and those behind are one further on. -/
theorem readLines_insert (inert : isInert line = true) (before after : List (List Char))
    (counted : number + before.length = place + 1) :
    readLines limit registers number (before ++ line :: after) =
      (readLines limit registers number (before ++ after)).mapError (.withLineAt place) := by
  induction before generalizing registers number with
  | nil =>
    have below : place < number := by
      rw [List.length_nil] at counted
      omega
    rw [List.nil_append, List.nil_append,
      readLines_of_read (readLine_of_isInert limit registers inert), map_followedBy_nil,
      readLines_later below]
  | cons first before ih =>
    rw [List.length_cons] at counted
    cases step : readLine limit registers first with
    | error fault =>
      have above : ¬place < number := by omega
      rw [List.cons_append, List.cons_append, readLines_of_refused step,
        readLines_of_refused step, Except.mapError, ReadError.withLineAt, if_neg above]
    | ok here =>
      have behind := @ih (number + 1) here.registers (by omega)
      rw [List.cons_append, List.cons_append, readLines_of_read step, readLines_of_read step,
        behind, mapError_map_followedBy]

end Run

section Text

variable {limit : Nat} {source longer : String} {line : List Char} {before after : List (List Char)}

theorem read_insert (inert : isInert line = true)
    (shorter : Text.lines source.toList = before ++ after)
    (inserted : Text.lines longer.toList = before ++ line :: after) :
    read limit longer = (read limit source).mapError (.withLineAt before.length) := by
  rw [read, read, shorter, inserted,
    readLines_insert inert before after (Nat.add_comm 1 before.length)]
  cases readLines limit [] 1 (before ++ after) with
  | error e => rfl
  | ok contents => exact (contents.mapError_circuit rfl fun _ => rfl).symm

end Text

/-- A line that opens neither a register nor a gate can be put at any place of a text, and the text
is read as before. If a line of the text is refused, it is refused with the same fault, and it has
the next number if the new line stands in front of it. -/
theorem inert_lines_do_not_matter (limit : Nat) {source : String} {line : List Char}
    {before after : List (List Char)} (inert : isInert line = true) (unbroken : '\n' ∉ line)
    (split : Text.lines source.toList = before ++ after) :
    (∃ longer : String, Text.lines longer.toList = before ++ line :: after) ∧
    ∀ longer : String, Text.lines longer.toList = before ++ line :: after →
      (∀ c, read limit longer = .ok c ↔ read limit source = .ok c) ∧
      (∀ number fault, read limit source = .error (.statement number fault) →
        read limit longer =
          .error (.statement (if before.length + 1 ≤ number then number + 1 else number) fault)) ∧
      (read limit longer = .error .missingRegister ↔
        read limit source = .error .missingRegister) ∧
      ∀ e, read limit longer = .error (.circuit e) ↔ read limit source = .error (.circuit e) := by
  constructor
  · have whole : ∀ other ∈ before ++ line :: after, '\n' ∉ other := by
      intro other member
      have origin : other = line ∨ other ∈ Text.lines source.toList := by
        rw [split]
        simpa [or_left_comm] using member
      rcases origin with rfl | member
      · exact unbroken
      · exact Text.not_mem_of_mem_lines member
    obtain ⟨text, same⟩ := Text.exists_lines whole
    exact ⟨String.ofList text, by rw [String.toList_ofList, same]⟩
  intro longer inserted
  rw [read_insert inert split inserted]
  cases read limit source with
  | ok c => simp [Except.mapError]
  | error e =>
    cases e with
    | statement number fault => simp [Except.mapError, ReadError.withLineAt]
    | missingRegister => simp [Except.mapError, ReadError.withLineAt]
    | circuit e => simp [Except.mapError, ReadError.withLineAt]

/-- A measurement that cannot be cut into tokens, in front of a line that is refused. -/
theorem inert_lines_do_not_matter_measured :
    isInert "measure $;".toList = true ∧
    read 5 "qreg q[1];\nh q[0;\n" =
      .error (.statement 2 (.line (.unexpected (.token .rightBracket) (some .semicolon)))) ∧
    read 5 "qreg q[1];\nmeasure $;\nh q[0;\n" =
      .error (.statement 3 (.line (.unexpected (.token .rightBracket) (some .semicolon)))) := by
  have inert : isInert "measure $;".toList = true := by decide +kernel
  have refused : read 5 "qreg q[1];\nh q[0;\n" =
      .error (.statement 2 (.line (.unexpected (.token .rightBracket) (some .semicolon)))) := by
    decide +kernel
  have split : Text.lines "qreg q[1];\nh q[0;\n".toList =
      ["qreg q[1];".toList] ++ ["h q[0;".toList] := by decide +kernel
  have inserted : Text.lines "qreg q[1];\nmeasure $;\nh q[0;\n".toList =
      ["qreg q[1];".toList] ++ "measure $;".toList :: ["h q[0;".toList] := by decide +kernel
  obtain ⟨-, alike⟩ := inert_lines_do_not_matter 5 inert (by decide +kernel) split
  obtain ⟨-, moved, -, -⟩ := alike _ inserted
  exact ⟨inert, refused, moved 2 _ refused⟩

end CircuitBench.Assembly
