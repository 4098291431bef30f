import CircuitBench.Proofs.Assembly.Reader

/-!
# One line after the other

What a line does to a reading depends on the line and on the registers in front of it, and not on
its number: it is refused with a fault, or it leaves registers and places gates. So a reading
fails at one line only, which is refused behind lines that are read, and the number in the error
is all that tells at which place the reading began.
-/

namespace CircuitBench.Assembly

/-- What a line does behind some registers: the registers after it and what it places, or the
fault that it is refused with. -/
def readLine (limit : Nat) (registers : Registers) (line : List Char) : Except Fault Contents :=
  match Statement.ofLine line with
  | .error fault => .error (.line fault)
  | .ok (some (.declare name size)) =>
    match registers.declare limit name size with
    | .error fault => .error (.register fault)
    | .ok after => .ok ⟨after, []⟩
  | .ok (some (.apply gate operands)) =>
    match registers.resolveAll operands with
    | .error fault => .error (.register fault)
    | .ok qubits => .ok ⟨registers, [⟨gate, qubits, []⟩]⟩
  | .ok _ => .ok ⟨registers, []⟩

/-- The contents of lines together with those of the lines behind them. Registers are kept up to
date in reading, and those behind all lines count. -/
def Contents.followedBy (front behind : Contents) : Contents :=
  ⟨behind.registers, front.placements ++ behind.placements⟩

section Step

variable {limit number : Nat} {registers : Registers} {line : List Char} {rest : List (List Char)}
  {here : Contents} {fault : Fault}

/-- Nothing is placed by a line that applies no gate. -/
theorem map_followedBy_nil (after : Registers) (behind : Except ReadError Contents) :
    behind.map (Contents.followedBy ⟨after, []⟩) = behind :=
  congrFun Except.map_id behind

theorem readLines_cons (limit number : Nat) (registers : Registers) (line : List Char)
    (rest : List (List Char)) :
    readLines limit registers number (line :: rest) =
      match readLine limit registers line with
      | .error fault => .error (.statement number fault)
      | .ok here => (readLines limit here.registers (number + 1) rest).map here.followedBy := by
  rw [readLines, readLine]
  cases Statement.ofLine line with
  | error fault => rfl
  | ok statement =>
    cases statement with
    | none => exact (map_followedBy_nil registers _).symm
    | some statement =>
      cases statement with
      | measure qubit bit => exact (map_followedBy_nil registers _).symm
      | declare name size =>
        dsimp only
        cases registers.declare limit name size with
        | error fault => rfl
        | ok after => exact (map_followedBy_nil after _).symm
      | apply gate operands =>
        dsimp only
        cases registers.resolveAll operands with
        | error fault => rfl
        | ok qubits =>
          dsimp only
          cases readLines limit registers (number + 1) rest <;> rfl

theorem readLines_of_refused (refused : readLine limit registers line = .error fault) :
    readLines limit registers number (line :: rest) = .error (.statement number fault) := by
  rw [readLines_cons, refused]

theorem readLines_of_read (read : readLine limit registers line = .ok here) :
    readLines limit registers number (line :: rest) =
      (readLines limit here.registers (number + 1) rest).map here.followedBy := by
  rw [readLines_cons, read]

theorem readLines_cons_eq_error_iff {e : ReadError} :
    readLines limit registers number (line :: rest) = .error e ↔
      (∃ fault, readLine limit registers line = .error fault ∧ e = .statement number fault) ∨
      ∃ here, readLine limit registers line = .ok here ∧
        readLines limit here.registers (number + 1) rest = .error e := by
  cases step : readLine limit registers line with
  | error fault => simp [readLines_of_refused step, eq_comm]
  | ok here =>
    rw [readLines_of_read step]
    cases behind : readLines limit here.registers (number + 1) rest <;>
      simp [Except.map, behind]

theorem readLines_cons_eq_followedBy_iff {contents : Contents} :
    readLines limit registers number (line :: rest) = .ok contents ↔
      ∃ here behind, readLine limit registers line = .ok here ∧
        readLines limit here.registers (number + 1) rest = .ok behind ∧
        contents = here.followedBy behind := by
  cases step : readLine limit registers line with
  | error fault => simp [readLines_of_refused step]
  | ok here =>
    rw [readLines_of_read step]
    cases behind : readLines limit here.registers (number + 1) rest <;>
      simp [Except.map, behind, eq_comm]

end Step

section Run

variable {limit number : Nat} {registers : Registers} {lines : List (List Char)} {e : ReadError}

/-- A reading fails at a line that is refused behind lines that are read. -/
theorem readLines_eq_error_iff :
    readLines limit registers number lines = .error e ↔
      ∃ before line after front fault, lines = before ++ line :: after ∧
        readLines limit registers number before = .ok front ∧
        readLine limit front.registers line = .error fault ∧
        e = .statement (number + before.length) fault := by
  constructor
  · intro failed
    induction lines generalizing registers number with
    | nil => cases failed
    | cons line rest ih =>
      rcases readLines_cons_eq_error_iff.mp failed with ⟨fault, refused, rfl⟩ | ⟨here, step, behind⟩
      · exact ⟨[], line, rest, ⟨registers, []⟩, fault, rfl, rfl, refused, rfl⟩
      · obtain ⟨before, other, after, front, fault, rfl, read, refused, rfl⟩ := ih behind
        refine ⟨line :: before, other, after, here.followedBy front, fault, rfl, ?_, refused, ?_⟩
        · exact readLines_cons_eq_followedBy_iff.mpr ⟨here, front, step, read, rfl⟩
        · rw [List.length_cons, Nat.add_right_comm, Nat.add_assoc]
  · rintro ⟨before, line, after, front, fault, rfl, read, refused, rfl⟩
    induction before generalizing registers number front with
    | nil =>
      cases read
      exact readLines_of_refused refused
    | cons first before ih =>
      obtain ⟨here, behind, step, front_read, rfl⟩ := readLines_cons_eq_followedBy_iff.mp read
      have failed := ih behind front_read refused
      rw [Nat.add_assoc, Nat.add_comm 1] at failed
      exact readLines_cons_eq_error_iff.mpr (.inr ⟨here, step, failed⟩)

end Run

/-- What is wrong with a whole text is not changed by what changes faults of lines only. -/
theorem Contents.mapError_circuit (contents : Contents) {f : ReadError → ReadError}
    (missing : f .missingRegister = .missingRegister) (whole : ∀ e, f (.circuit e) = .circuit e) :
    contents.circuit.mapError f = contents.circuit := by
  rw [Contents.circuit]
  split
  · exact congrArg Except.error missing
  · split
    · rfl
    · exact congrArg Except.error (whole _)

end CircuitBench.Assembly
