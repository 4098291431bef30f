import CircuitBench.Assembly.Reader
import CircuitBench.Proofs.Assembly.FirstStatement
import Mathlib

/-!
# The forms of a line

The forms that a line can have are written down as a relation between its tokens and what is read
from it, without a word about how it is read. A line that can be cut into tokens is read as the
relation says: it gives a statement if it has the form of one, and nothing if it is passed over.
A line that has no form at all begins with a keyword of a register or with a gate, and it is
refused.
-/

namespace CircuitBench.Assembly

def Operand.tokens (operand : Operand) : List Token :=
  [.identifier operand.register, .leftBracket, .integer operand.index, .rightBracket]

def listTokens (operands : List Operand) : List Token :=
  [Token.comma].intercalate (operands.map Operand.tokens)

/-- A name stands for a whole register: a comma, a semicolon or the end of the line follows it. -/
def NamesWholeRegister (tokens : List Token) : Prop :=
  ∃ front name behind, tokens = front ++ .identifier name :: behind ∧
    (behind = [] ∨ behind.head? = some .comma ∨ behind.head? = some .semicolon)

/-- What follows a gate that is passed over: parameters, or operands with a whole register. -/
def PassesOver (tokens : List Token) : Prop :=
  tokens.head? = some .leftParen ∨ NamesWholeRegister tokens

/-- What is read from tokens that have a form. -/
inductive LineForm : List Token → Option Statement → Prop where
  /-- `qreg NAME [ SIZE ]` -/
  | sizedRegister {name size rest} (ended : isEnd rest = true) :
    LineForm (.qreg :: .identifier name :: .leftBracket :: .integer size :: .rightBracket :: rest)
      (some (.declare name size))
  /-- `qubit [ SIZE ] NAME` -/
  | qubits {name size rest} (ended : isEnd rest = true) :
    LineForm (.qubit :: .leftBracket :: .integer size :: .rightBracket :: .identifier name :: rest)
      (some (.declare name size))
  /-- `qubit NAME` -/
  | oneQubit {name rest} (ended : isEnd rest = true) :
    LineForm (.qubit :: .identifier name :: rest) (some (.declare name 1))
  /-- `GATE NAME [ INDEX ] , ... , NAME [ INDEX ]` -/
  | gate {name gate operands rest} (known : Gate.ofName? name = some gate)
      (kept : ¬PassesOver (listTokens operands ++ rest)) (some_operand : operands ≠ [])
      (ended : isEnd rest = true) :
    LineForm (.identifier name :: (listTokens operands ++ rest)) (some (.apply gate operands))
  | passedGate {name gate tokens} (known : Gate.ofName? name = some gate)
      (passed : PassesOver tokens) : LineForm (.identifier name :: tokens) none
  /-- `measure NAME [ INDEX ] -> NAME [ INDEX ]` -/
  | measurement {qubit bit : Operand} {rest} (ended : isEnd rest = true) :
    LineForm (.measure :: (qubit.tokens ++ .arrow :: (bit.tokens ++ rest)))
      (some (.measure qubit bit))
  | otherMeasurement {tokens} (other : ∀ (qubit bit : Operand) (rest : List Token),
      isEnd rest = true → tokens ≠ qubit.tokens ++ .arrow :: (bit.tokens ++ rest)) :
    LineForm (.measure :: tokens) none
  | empty : LineForm [] none
  /-- Any other first word. -/
  | idle {word tokens} (other : Statement.isIdle word = true) : LineForm (word :: tokens) none

section Operands

variable {operands found : List Operand} {tokens rest : List Token}

@[simp] theorem listTokens_singleton (operand : Operand) :
    listTokens [operand] = operand.tokens := by
  simp [listTokens, List.intercalate]

@[simp] theorem listTokens_cons (operand next : Operand) (more : List Operand) :
    listTokens (operand :: next :: more) =
      operand.tokens ++ .comma :: listTokens (next :: more) := by
  simp [listTokens, List.intercalate]

theorem head?_ne_comma (ended : isEnd rest = true) : rest.head? ≠ some .comma := by
  rcases rest with _ | ⟨token, rest⟩
  · simp
  · rintro ⟨⟩
    cases ended

theorem operands_listTokens (some_operand : operands ≠ []) (last : rest.head? ≠ some .comma) :
    Statement.operands (listTokens operands ++ rest) = .ok (operands, rest) := by
  induction operands with
  | nil => exact absurd rfl some_operand
  | cons operand more ih =>
    rcases more with _ | ⟨next, more⟩
    · rw [listTokens_singleton]
      rcases rest with _ | ⟨token, rest⟩
      · rfl
      · cases token with
        | comma => exact absurd rfl last
        | _ => rfl
    · have behind := ih (by simp)
      rw [listTokens_cons, List.append_assoc, List.cons_append]
      simp only [Operand.tokens, List.cons_append, List.nil_append, Statement.operands, behind]

/-- Operands are read as far as there are commas between them. -/
theorem operands_eq_ok_iff :
    Statement.operands tokens = .ok (found, rest) ↔
      found ≠ [] ∧ tokens = listTokens found ++ rest ∧ rest.head? ≠ some .comma := by
  constructor
  · intro read
    fun_induction Statement.operands tokens generalizing found rest with
    | case1 register index tokens behind after parts ih =>
      cases read
      obtain ⟨some_operand, whole, last⟩ := ih parts
      obtain ⟨next, more, rfl⟩ := List.exists_cons_of_ne_nil some_operand
      refine ⟨by simp, ?_, last⟩
      rw [listTokens_cons, whole]
      simp [Operand.tokens]
    | case2 register index tokens fault failed ih => cases read
    | case3 register index tokens other =>
      cases read
      refine ⟨by simp, by simp [Operand.tokens], ?_⟩
      intro next
      obtain ⟨more, rfl⟩ := List.head?_eq_some_iff.mp next
      exact other more rfl
    | case4 tokens other other' => cases read
  · rintro ⟨some_operand, rfl, last⟩
    exact operands_listTokens some_operand last

end Operands

theorem hasWholeRegister_iff {tokens : List Token} :
    Statement.hasWholeRegister tokens = true ↔ NamesWholeRegister tokens := by
  induction tokens with
  | nil => exact iff_of_false nofun (by rintro ⟨front, name, behind, whole, -⟩; simp at whole)
  | cons token tokens ih =>
    rw [Statement.hasWholeRegister_cons, Bool.or_eq_true, ih]
    constructor
    · rintro (here | ⟨front, name, behind, rfl, last⟩)
      · cases token with
        | identifier name =>
          refine ⟨[], name, tokens, rfl, ?_⟩
          rcases tokens with _ | ⟨next, tokens⟩
          · exact .inl rfl
          · simpa using here
        | _ => cases here
      · exact ⟨token :: front, name, behind, rfl, last⟩
    · rintro ⟨front, name, behind, whole, last⟩
      rcases front with _ | ⟨first, front⟩
      · obtain ⟨rfl, rfl⟩ := List.cons.inj whole
        refine .inl ?_
        rcases tokens with _ | ⟨next, tokens⟩
        · rfl
        · simpa using last
      · obtain ⟨-, rfl⟩ := List.cons.inj whole
        exact .inr ⟨front, name, behind, rfl, last⟩

theorem passesOver_iff {tokens : List Token} :
    (decide (tokens.head? = some .leftParen) || Statement.hasWholeRegister tokens) = true ↔
      PassesOver tokens := by
  rw [Bool.or_eq_true, decide_eq_true_iff, hasWholeRegister_iff, PassesOver]

section Gates

variable {gate : Gate} {tokens : List Token} {result : Option Statement}

theorem application_of_passesOver (gate : Gate) (passed : PassesOver tokens) :
    Statement.application gate tokens = .ok none :=
  if_pos (passesOver_iff.mpr passed)

/-- The operands of a gate that is not passed over are read, and the statement ends with them. -/
theorem application_eq_ok_iff (kept : ¬PassesOver tokens) :
    Statement.application gate tokens = .ok result ↔
      ∃ operands rest, operands ≠ [] ∧ tokens = listTokens operands ++ rest ∧
        isEnd rest = true ∧ result = some (.apply gate operands) := by
  rw [Statement.application, if_neg (mt passesOver_iff.mp kept)]
  constructor
  · intro read
    cases parts : Statement.operands tokens with
    | error fault =>
      rw [parts] at read
      cases read
    | ok parsed =>
      obtain ⟨operands, rest⟩ := parsed
      rw [parts] at read
      obtain ⟨some_operand, whole, -⟩ := operands_eq_ok_iff.mp parts
      cases done : (Statement.apply gate operands).finish rest with
      | error fault =>
        simp only [done] at read
        cases read
      | ok statement =>
        simp only [done] at read
        cases read
        obtain ⟨ended, rfl⟩ := finish_eq_ok_iff.mp done
        exact ⟨operands, rest, some_operand, whole, ended, rfl⟩
  · rintro ⟨operands, rest, some_operand, rfl, ended, rfl⟩
    rw [operands_listTokens some_operand (head?_ne_comma ended)]
    exact map_some_eq_ok_iff.mpr (finish_eq_ok_iff.mpr ⟨ended, rfl⟩)

end Gates

theorem measurement?_eq_some_iff {tokens : List Token} {found : Statement} :
    Statement.measurement? tokens = some found ↔
      ∃ (qubit bit : Operand) (rest : List Token), isEnd rest = true ∧
        tokens = qubit.tokens ++ .arrow :: (bit.tokens ++ rest) ∧ found = .measure qubit bit := by
  constructor
  · intro read
    fun_cases Statement.measurement? tokens with
    | case1 qubits i bits j rest =>
      cases done : (Statement.measure ⟨qubits, i⟩ ⟨bits, j⟩).finish rest with
      | error fault => simp [Statement.measurement?, done, Except.toOption] at read
      | ok statement =>
        obtain ⟨ended, rfl⟩ := finish_eq_ok_iff.mp done
        simp [Statement.measurement?, done, Except.toOption] at read
        exact ⟨⟨qubits, i⟩, ⟨bits, j⟩, rest, ended, rfl, read.symm⟩
    | case2 => simp_all [Statement.measurement?]
  · rintro ⟨qubit, bit, rest, ended, rfl, rfl⟩
    have done : (Statement.measure qubit bit).finish rest = .ok (.measure qubit bit) :=
      finish_eq_ok_iff.mpr ⟨ended, rfl⟩
    exact congrArg Except.toOption done

theorem declarationOf_eq_some_iff {tokens : List Token} {name : String} {size : Nat} :
    declarationOf tokens = some (name, size) ↔ LineForm tokens (some (.declare name size)) := by
  constructor
  · intro declared
    unfold declarationOf at declared
    split at declared
    · split_ifs at declared with ended
      cases declared
      exact .sizedRegister ended
    · split_ifs at declared with ended
      cases declared
      exact .qubits ended
    · split_ifs at declared with ended
      cases declared
      exact .oneQubit ended
    · cases declared
  · intro form
    cases form with
    | sizedRegister ended => exact if_pos ended
    | qubits ended => exact if_pos ended
    | oneQubit ended => exact if_pos ended

/-- What has a form is read as the form says. -/
theorem ofTokens_of_lineForm {tokens : List Token} {result : Option Statement}
    (form : LineForm tokens result) : Statement.ofTokens tokens = .ok result := by
  cases form with
  | sizedRegister ended => exact ofTokens_eq_declare_iff.mpr (if_pos ended)
  | qubits ended => exact ofTokens_eq_declare_iff.mpr (if_pos ended)
  | oneQubit ended => exact ofTokens_eq_declare_iff.mpr (if_pos ended)
  | gate known kept some_operand ended =>
    simp only [Statement.ofTokens, known]
    exact (application_eq_ok_iff kept).mpr ⟨_, _, some_operand, rfl, ended, rfl⟩
  | passedGate known passed =>
    simp only [Statement.ofTokens, known]
    exact application_of_passesOver _ passed
  | @measurement qubit bit rest ended =>
    exact congrArg Except.ok (measurement?_eq_some_iff.mpr ⟨qubit, bit, rest, ended, rfl, rfl⟩)
  | otherMeasurement other =>
    refine congrArg Except.ok (Option.eq_none_iff_forall_ne_some.mpr fun found read => ?_)
    obtain ⟨qubit, bit, rest, ended, whole, -⟩ := measurement?_eq_some_iff.mp read
    exact other qubit bit rest ended whole
  | empty => rfl
  | @idle word tokens other =>
    cases word with
    | identifier name =>
      have unknown : Gate.ofName? name = none := Option.isNone_iff_eq_none.mp other
      simp only [Statement.ofTokens, unknown]
    | qreg => cases other
    | qubit => cases other
    | measure => cases other
    | _ => rfl

theorem exists_of_map_some {α β : Type} {e : Except α β} {result : Option β}
    (h : e.map some = .ok result) : ∃ value, e = .ok value ∧ result = some value := by
  cases e with
  | error fault => cases h
  | ok value => exact ⟨value, rfl, (Except.ok.inj h).symm⟩

/-- What is read has a form that says so. -/
theorem lineForm_of_ofTokens {tokens : List Token} {result : Option Statement}
    (read : Statement.ofTokens tokens = .ok result) : LineForm tokens result := by
  fun_cases Statement.ofTokens tokens with
  | case1 tokens =>
    obtain ⟨found, sized, rfl⟩ := exists_of_map_some read
    obtain ⟨name, size, declared, rfl⟩ := sizedRegister_eq_ok_iff.mp sized
    exact declarationOf_eq_some_iff.mp declared
  | case2 tokens =>
    obtain ⟨found, sized, rfl⟩ := exists_of_map_some read
    obtain ⟨name, size, declared, rfl⟩ := qubitRegister_eq_ok_iff.mp sized
    exact declarationOf_eq_some_iff.mp declared
  | case3 tokens =>
    cases Except.ok.inj read
    cases measured : Statement.measurement? tokens with
    | none =>
      refine .otherMeasurement fun qubit bit rest ended whole => ?_
      have found := measurement?_eq_some_iff.mpr ⟨qubit, bit, rest, ended, whole, rfl⟩
      rw [measured] at found
      cases found
    | some found =>
      obtain ⟨qubit, bit, rest, ended, rfl, rfl⟩ := measurement?_eq_some_iff.mp measured
      exact .measurement ended
  | case4 name tokens gate known =>
    simp only [Statement.ofTokens, known] at read
    by_cases passed : PassesOver tokens
    · rw [application_of_passesOver gate passed] at read
      cases read
      exact .passedGate known passed
    · obtain ⟨operands, rest, some_operand, rfl, ended, rfl⟩ :=
        (application_eq_ok_iff passed).mp read
      exact .gate known passed some_operand ended
  | case5 name tokens unknown =>
    simp only [Statement.ofTokens, unknown] at read
    cases read
    exact .idle (Option.isNone_iff_eq_none.mpr unknown)
  | case6 tokens noSized noQubits noMeasurement noName =>
    rcases tokens with _ | ⟨word, rest⟩
    · cases read
      exact .empty
    · have other : Statement.isIdle word = true := by
        cases word with
        | qreg => exact absurd rfl (noSized rest)
        | qubit => exact absurd rfl (noQubits rest)
        | measure => exact absurd rfl (noMeasurement rest)
        | identifier name => exact absurd rfl (noName name rest)
        | _ => rfl
      rw [ofTokens_of_lineForm (.idle other)] at read
      cases read
      exact .idle other

/-- Tokens that have no form begin with the keyword of a register or with a gate. -/
theorem opens_of_formless {tokens : List Token} (formless : ∀ result, ¬LineForm tokens result) :
    ∃ word rest, tokens = word :: rest ∧
      (word = .qreg ∨ word = .qubit ∨
        ∃ name gate, word = .identifier name ∧ Gate.ofName? name = some gate) := by
  rcases tokens with _ | ⟨word, rest⟩
  · exact absurd .empty (formless none)
  refine ⟨word, rest, rfl, ?_⟩
  have busy : Statement.isIdle word ≠ true := fun idle => formless none (.idle idle)
  cases word with
  | qreg => exact .inl rfl
  | qubit => exact .inr (.inl rfl)
  | measure => exact absurd (lineForm_of_ofTokens rfl) (formless _)
  | identifier name =>
    obtain ⟨gate, known⟩ := Option.ne_none_iff_exists'.mp (mt Option.isNone_iff_eq_none.mpr busy)
    exact .inr (.inr ⟨name, gate, rfl, known⟩)
  | _ => exact absurd rfl busy

/-- A line that can be cut into tokens is read as its form says: it is the statement of that form,
or nothing is read from it. A line without a form begins with the keyword of a register or with a
gate, and it is refused with a fault in this line. -/
theorem lines_are_read_by_their_forms {line : List Char} {tokens : List Token}
    (lexed : tokenize line = .ok tokens) :
    (∀ result, Statement.ofLine line = .ok result ↔ LineForm tokens result) ∧
    ((∀ result, ¬LineForm tokens result) →
      (∃ word rest, tokens = word :: rest ∧
        (word = .qreg ∨ word = .qubit ∨
          ∃ name gate, word = .identifier name ∧ Gate.ofName? name = some gate)) ∧
      ∃ fault, Statement.ofLine line = .error fault ∧
        ∀ limit registers number rest, readLines limit registers number (line :: rest) =
          .error (.statement number (.line fault))) := by
  rw [Statement.ofLine_eq_ofTokens lexed]
  refine ⟨fun result => ⟨lineForm_of_ofTokens, ofTokens_of_lineForm⟩, fun formless => ?_⟩
  refine ⟨opens_of_formless formless, ?_⟩
  cases read : Statement.ofTokens tokens with
  | ok result => exact absurd (lineForm_of_ofTokens read) (formless result)
  | error fault =>
    refine ⟨fault, rfl, fun limit registers number rest => ?_⟩
    rw [readLines, Statement.ofLine_eq_ofTokens lexed, read]

/-- A gate with its operands in order, in front of another statement, and a register whose bracket
is not closed. -/
theorem lines_are_read_by_their_forms_mixed :
    tokenize "cx q[0], r[1]; h r[0];".toList =
      .ok (.identifier "cx" :: (listTokens [⟨"q", 0⟩, ⟨"r", 1⟩] ++
        .semicolon :: .identifier "h" :: (listTokens [⟨"r", 0⟩] ++ [.semicolon]))) ∧
    LineForm (.identifier "cx" :: (listTokens [⟨"q", 0⟩, ⟨"r", 1⟩] ++
        .semicolon :: .identifier "h" :: (listTokens [⟨"r", 0⟩] ++ [.semicolon])))
      (some (.apply .cnot [⟨"q", 0⟩, ⟨"r", 1⟩])) ∧
    tokenize "qubit[2 q;".toList =
      .ok [.qubit, .leftBracket, .integer 2, .identifier "q", .semicolon] ∧
    (∀ result, ¬LineForm [.qubit, .leftBracket, .integer 2, .identifier "q", .semicolon] result) ∧
    ∃ fault, readLines 5 [] 3 ["qubit[2 q;".toList] = .error (.statement 3 (.line fault)) := by
  have lexed : tokenize "cx q[0], r[1]; h r[0];".toList =
      .ok (.identifier "cx" :: (listTokens [⟨"q", 0⟩, ⟨"r", 1⟩] ++
        .semicolon :: .identifier "h" :: (listTokens [⟨"r", 0⟩] ++ [.semicolon]))) := by
    decide +kernel
  have lexed' : tokenize "qubit[2 q;".toList =
      .ok [.qubit, .leftBracket, .integer 2, .identifier "q", .semicolon] := by decide +kernel
  obtain ⟨reads, -⟩ := lines_are_read_by_their_forms lexed
  obtain ⟨reads', refuses⟩ := lines_are_read_by_their_forms lexed'
  have refused : Statement.ofLine "qubit[2 q;".toList =
      .error (.unexpected (.token .rightBracket) (some (.identifier "q"))) := by decide +kernel
  have formless : ∀ result,
      ¬LineForm [.qubit, .leftBracket, .integer 2, .identifier "q", .semicolon] result := by
    intro result form
    have read := (reads' result).mpr form
    rw [refused] at read
    cases read
  obtain ⟨-, fault, -, ends⟩ := refuses formless
  exact ⟨lexed, (reads _).mp (by decide +kernel), lexed', formless, fault, ends 5 [] 3 []⟩

end CircuitBench.Assembly
