import CircuitBench.Proofs.Assembly.Limit
import CircuitBench.Proofs.Assembly.LineStep
import CircuitBench.Proofs.Assembly.WholeFault
import CircuitBench.Proofs.Text.Line
import Mathlib

/-!
# The first fault of a text

Whether a line is refused depends on the registers that are declared in front of it. The reading
stops at the first line that is refused, so what stands behind that line does not matter, and the
lines in front of it can be read. Faults of the whole text come last: that there is no register is
reported if no line is refused, and that the gates form no circuit if there is a register as well.
-/

namespace CircuitBench.Assembly

/-- A line is refused behind the registers that are declared in front of it. -/
def FaultAt (limit : Nat) (lines : List (List Char)) (place : Nat) (fault : Fault) : Prop :=
  ∃ line, lines[place]? = some line ∧
    readLine limit (declarations (lines.take place)) line = .error fault

/-- No line is refused. -/
def Faultless (limit : Nat) (lines : List (List Char)) : Prop :=
  ∀ place fault, ¬FaultAt limit lines place fault

/-- A line is refused, and none in front of it is. -/
structure FirstFault (limit : Nat) (lines : List (List Char)) (place : Nat) (fault : Fault) :
    Prop where
  here : FaultAt limit lines place fault
  before : Faultless limit (lines.take place)

section Lines

variable {limit place place' n : Nat} {lines : List (List Char)} {fault fault' : Fault}
  {contents : Contents}

theorem FaultAt.lt_length (refused : FaultAt limit lines place fault) : place < lines.length := by
  obtain ⟨line, found, -⟩ := refused
  exact (List.getElem?_eq_some_iff.mp found).1

/-- Lines behind a fault do not matter to it. -/
theorem faultAt_take (inside : place < n) :
    FaultAt limit (lines.take n) place fault ↔ FaultAt limit lines place fault := by
  rw [FaultAt, FaultAt, List.getElem?_take_of_lt inside, List.take_take,
    Nat.min_eq_left inside.le]

theorem FaultAt.unique (refused : FaultAt limit lines place fault)
    (refused' : FaultAt limit lines place fault') : fault = fault' := by
  obtain ⟨line, found, here⟩ := refused
  obtain ⟨line', found', here'⟩ := refused'
  obtain rfl := Option.some.inj (found.symm.trans found')
  exact Except.error.inj (here.symm.trans here')

theorem FirstFault.not_lt (first : FirstFault limit lines place fault)
    (refused : FaultAt limit lines place' fault') : ¬place' < place :=
  fun earlier => first.before place' fault' ((faultAt_take earlier).mpr refused)

theorem FirstFault.unique (first : FirstFault limit lines place fault)
    (first' : FirstFault limit lines place' fault') : place = place' ∧ fault = fault' := by
  obtain rfl : place = place' :=
    Nat.le_antisymm (Nat.not_lt.mp (first.not_lt first'.here))
      (Nat.not_lt.mp (first'.not_lt first.here))
  exact ⟨rfl, first.here.unique first'.here⟩

/-- The first fault of some lines is also that of lines that begin with them. -/
theorem firstFault_take (inside : place < n) :
    FirstFault limit (lines.take n) place fault ↔ FirstFault limit lines place fault := by
  have front : (lines.take n).take place = lines.take place := by
    rw [List.take_take, Nat.min_eq_left inside.le]
  constructor
  · intro first
    exact ⟨(faultAt_take inside).mp first.here, front ▸ first.before⟩
  · intro first
    exact ⟨(faultAt_take inside).mpr first.here, front.symm ▸ first.before⟩

theorem faultless_of_readLines (read : readLines limit [] 1 lines = .ok contents) :
    Faultless limit lines := by
  rintro place fault ⟨line, found, refused⟩
  obtain ⟨inside, rfl⟩ := List.getElem?_eq_some_iff.mp found
  have split : lines = lines.take place ++ lines[place] :: lines.drop (place + 1) := by
    rw [← List.drop_eq_getElem_cons inside, List.take_append_drop]
  obtain ⟨front, front_read⟩ := exists_readLines_of_append (split ▸ read)
  have failed : readLines limit [] 1 lines = .error _ :=
    readLines_eq_error_iff.mpr ⟨_, _, _, front, fault, split, front_read,
      registers_of_readLines front_read ▸ refused, rfl⟩
  rw [read] at failed
  cases failed

/-- A reading that fails does so at the first fault of its lines. -/
theorem firstFault_of_readLines {e : ReadError} (failed : readLines limit [] 1 lines = .error e) :
    ∃ place fault, e = .statement (place + 1) fault ∧ FirstFault limit lines place fault := by
  obtain ⟨before, line, after, front, fault, rfl, read, refused, rfl⟩ :=
    readLines_eq_error_iff.mp failed
  refine ⟨before.length, fault, by rw [Nat.add_comm], ⟨line, by simp, ?_⟩, ?_⟩
  · rwa [List.take_left, ← registers_of_readLines read]
  · rw [List.take_left]
    exact faultless_of_readLines read

theorem readLines_eq_statement_iff :
    readLines limit [] 1 lines = .error (.statement (place + 1) fault) ↔
      FirstFault limit lines place fault := by
  constructor
  · intro failed
    obtain ⟨place', fault', same, first⟩ := firstFault_of_readLines failed
    cases same
    exact first
  · intro first
    cases read : readLines limit [] 1 lines with
    | ok contents => exact absurd first.here (faultless_of_readLines read place fault)
    | error e =>
      obtain ⟨place', fault', rfl, first'⟩ := firstFault_of_readLines read
      obtain ⟨rfl, rfl⟩ := first.unique first'
      rfl

theorem exists_readLines_iff :
    (∃ contents, readLines limit [] 1 lines = .ok contents) ↔ Faultless limit lines := by
  constructor
  · rintro ⟨contents, read⟩
    exact faultless_of_readLines read
  · intro faultless
    cases read : readLines limit [] 1 lines with
    | ok contents => exact ⟨contents, rfl⟩
    | error e =>
      obtain ⟨place, fault, -, first⟩ := firstFault_of_readLines read
      exact absurd first.here (faultless place fault)

end Lines

section Text

variable {limit number place : Nat} {source : String} {fault : Fault} {contents : Contents}

/-- What is judged of the whole text is no fault of a line. -/
theorem Contents.circuit_ne_statement (contents : Contents) :
    contents.circuit ≠ .error (.statement number fault) := by
  rw [Contents.circuit]
  split
  · simp
  · split <;> simp

theorem Contents.circuit_eq_missingRegister_iff :
    contents.circuit = .error .missingRegister ↔ contents.registers = [] := by
  rw [Contents.circuit, ← List.isEmpty_iff]
  split
  next empty => exact iff_of_true rfl empty
  next some_register =>
    refine iff_of_false ?_ some_register
    split <;> simp

theorem read_eq_statement_iff :
    read limit source = .error (.statement (place + 1) fault) ↔
      FirstFault limit (Text.lines source.toList) place fault := by
  rw [← readLines_eq_statement_iff, read]
  cases readLines limit [] 1 (Text.lines source.toList) with
  | error e => simp
  | ok contents => exact iff_of_false contents.circuit_ne_statement (by simp)

/-- An error of a line has its number, which is that of a line of the text. -/
theorem exists_firstFault (refused : read limit source = .error (.statement number fault)) :
    ∃ place, number = place + 1 ∧ FirstFault limit (Text.lines source.toList) place fault := by
  cases found : readLines limit [] 1 (Text.lines source.toList) with
  | ok contents =>
    rw [read, found] at refused
    exact absurd refused contents.circuit_ne_statement
  | error e =>
    rw [read, found] at refused
    cases refused
    obtain ⟨place, fault', same, first⟩ := firstFault_of_readLines found
    cases same
    exact ⟨place, rfl, first⟩

/-- Only a text without a fault in a line is judged as a whole. -/
theorem read_eq_whole_iff {e : ReadError} (whole : ∀ number fault, e ≠ .statement number fault) :
    read limit source = .error e ↔
      ∃ contents, readLines limit [] 1 (Text.lines source.toList) = .ok contents ∧
        contents.circuit = .error e := by
  cases found : readLines limit [] 1 (Text.lines source.toList) with
  | ok contents => simp [read, found]
  | error e' =>
    obtain ⟨place, fault, rfl, -⟩ := firstFault_of_readLines found
    simp [read, found, (whole _ _).symm]

theorem read_eq_missingRegister_iff :
    read limit source = .error .missingRegister ↔
      Faultless limit (Text.lines source.toList) ∧
        declarations (Text.lines source.toList) = [] := by
  rw [read_eq_whole_iff (by simp), ← exists_readLines_iff, ← exists_and_right]
  refine exists_congr fun contents => and_congr_right fun found => ?_
  rw [Contents.circuit_eq_missingRegister_iff, registers_of_readLines found]

theorem read_eq_circuit_iff {e : CircuitError} :
    read limit source = .error (.circuit e) ↔
      Faultless limit (Text.lines source.toList) ∧
        declarations (Text.lines source.toList) ≠ [] ∧
        WholeFault (declarations (Text.lines source.toList))
          (applications (Text.lines source.toList)) e := by
  rw [read_eq_whole_iff (by simp), ← exists_readLines_iff, ← exists_and_right]
  refine exists_congr fun contents => and_congr_right fun found => ?_
  obtain ⟨-, side, placed⟩ := contents_of_readLines (.nil limit) found
  rw [circuit_eq_error_iff side placed, registers_of_readLines found]

end Text

/-- An error of a line is that of the first line that is refused behind the registers in front of
it. It has the number of this line, every text with the same lines up to there has the same error,
and the lines in front of it, which make up a text of their own, have no fault. That there is no
register is reported only if no line is refused. That the gates form no circuit is reported only if
there is a register as well, and then there is no qubit, or the first gate that cannot be placed
has the wrong number of operands or twice the same one. -/
theorem first_fault_ends_reading (limit : Nat) (source : String) :
    let lines := Text.lines source.toList
    (∀ number fault, read limit source = .error (.statement number fault) →
      1 ≤ number ∧ number ≤ lines.length ∧ FirstFault limit lines (number - 1) fault ∧
      (∀ other : String, (Text.lines other.toList).take number = lines.take number →
        read limit other = .error (.statement number fault)) ∧
      (∃ front : String, front.toList <+: source.toList ∧
        Text.lines front.toList = lines.take (number - 1)) ∧
      ∀ front : String, Text.lines front.toList = lines.take (number - 1) →
        ∀ number' fault', read limit front ≠ .error (.statement number' fault')) ∧
    (∀ place fault, FirstFault limit lines place fault →
      read limit source = .error (.statement (place + 1) fault)) ∧
    (read limit source = .error .missingRegister ↔
      Faultless limit lines ∧ declarations lines = []) ∧
    ∀ e, read limit source = .error (.circuit e) ↔
      Faultless limit lines ∧ declarations lines ≠ [] ∧
        WholeFault (declarations lines) (applications lines) e := by
  intro lines
  refine ⟨?_, fun place fault => read_eq_statement_iff.mpr, read_eq_missingRegister_iff,
    fun e => read_eq_circuit_iff⟩
  intro number fault refused
  obtain ⟨place, rfl, first⟩ := exists_firstFault refused
  refine ⟨Nat.le_add_left 1 place, first.here.lt_length, first, ?_, ?_, ?_⟩
  · intro other same
    refine read_eq_statement_iff.mpr ((firstFault_take (Nat.lt_succ_self place)).mp ?_)
    rw [same]
    exact (firstFault_take (Nat.lt_succ_self place)).mpr first
  · obtain ⟨front, begins, same⟩ := Text.exists_front_lines source.toList place
    exact ⟨String.ofList front, by simpa using begins, by simpa using same⟩
  · intro front same number' fault' refused'
    obtain ⟨place', -, first'⟩ := exists_firstFault refused'
    rw [same] at first'
    exact first.before place' fault' first'.here

/-- An index out of range in front of a line that is cut off, and a gate on one qubit twice. -/
theorem first_fault_ends_reading_index :
    read 5 "qreg q[2];\nh q[2];\n" =
      .error (.statement 2 (.register (.indexOutOfRange 2 "q" 2))) ∧
    read 5 "qreg q[2];\nh q[2];\ncx q[0" =
      .error (.statement 2 (.register (.indexOutOfRange 2 "q" 2))) ∧
    read 5 "qreg q[2];\ncx q[1], q[1];\n" =
      .error (.circuit (.placement .cnot 0 (.repeated 1))) ∧
    Faultless 5 (Text.lines "qreg q[2];\ncx q[1], q[1];\n".toList) := by
  have refused : read 5 "qreg q[2];\nh q[2];\n" =
      .error (.statement 2 (.register (.indexOutOfRange 2 "q" 2))) := by decide +kernel
  have misplaced : read 5 "qreg q[2];\ncx q[1], q[1];\n" =
      .error (.circuit (.placement .cnot 0 (.repeated 1))) := by decide +kernel
  obtain ⟨located, -⟩ := first_fault_ends_reading 5 "qreg q[2];\nh q[2];\n"
  obtain ⟨-, -, -, alike, -⟩ := located _ _ refused
  obtain ⟨-, -, -, whole⟩ := first_fault_ends_reading 5 "qreg q[2];\ncx q[1], q[1];\n"
  obtain ⟨faultless, -⟩ := (whole _).mp misplaced
  exact ⟨refused, alike _ (by decide +kernel), misplaced, faultless⟩

end CircuitBench.Assembly
