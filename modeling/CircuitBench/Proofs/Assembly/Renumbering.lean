import CircuitBench.Proofs.Assembly.FirstStatement

/-!
# Other numbers in a line

Reading a statement copies the numbers of a line and never looks at them. Whether tokens have the
form of a statement, and where they leave it, does not depend on which numbers they have. So with
other numbers in a line the statement that is read has the other numbers too, and a fault is the
same up to the number that it names.
-/

namespace CircuitBench.Assembly

def Token.renumber (f : Nat → Nat) : Token → Token
  | .integer value => .integer (f value)
  | token => token

def Operand.renumber (f : Nat → Nat) (operand : Operand) : Operand :=
  ⟨operand.register, f operand.index⟩

namespace Statement

def renumber (f : Nat → Nat) : Statement → Statement
  | declare name size => declare name (f size)
  | apply gate operands => apply gate (operands.map (·.renumber f))
  | measure qubit bit => measure (qubit.renumber f) (bit.renumber f)

end Statement

namespace LineFault

def renumber (f : Nat → Nat) : LineFault → LineFault
  | unreadable text => unreadable text
  | unexpected expected found => unexpected expected (found.map (·.renumber f))

end LineFault

def renumberResult {α : Type} (f : Nat → Nat) (change : α → α) (result : Except LineFault α) :
    Except LineFault α :=
  (result.map change).mapError (·.renumber f)

section Tokens

variable {f : Nat → Nat} {token other : Token} {tokens : List Token} {number : Nat}

@[simp] theorem renumber_eq_iff (mark : ∀ n, other ≠ .integer n) :
    token.renumber f = other ↔ token = other := by
  cases token with
  | integer n => exact iff_of_false (mark (f n)).symm (mark n).symm
  | _ => rfl

theorem renumber_eq_integer_iff :
    token.renumber f = .integer number ↔ ∃ n, token = .integer n ∧ f n = number := by
  cases token <;> simp [Token.renumber]

/-- A number is admitted in one place as well as any other number. -/
theorem Expected.admits_renumber {expected : Expected}
    (mark : ∀ n, expected ≠ .token (.integer n)) :
    expected.admits (token.renumber f) = expected.admits token := by
  cases expected with
  | token other =>
    have same : token.renumber f = other ↔ token = other :=
      renumber_eq_iff fun n found => mark n (congrArg Expected.token found)
    simp only [admits, same]
  | registerName => cases token <;> rfl
  | registerIndex => cases token <;> rfl
  | registerSize => cases token <;> rfl

theorem LineFault.against_renumber {form : List Expected}
    (marks : ∀ expected ∈ form, ∀ n, expected ≠ .token (.integer n)) (tokens : List Token) :
    against form (tokens.map (·.renumber f)) = (against form tokens).renumber f := by
  induction tokens generalizing form with
  | nil => cases form <;> rfl
  | cons token tokens ih =>
    cases form with
    | nil => rfl
    | cons expected form =>
      obtain ⟨here, behind⟩ := List.forall_mem_cons.mp marks
      rw [List.map_cons, against, against, Expected.admits_renumber here, ih behind]
      split <;> rfl

end Tokens

section Shapes

variable {f : Nat → Nat} {tokens rest : List Token} {name : String} {number : Nat}

theorem head_of_map_renumber {token : Token} (mark : ∀ n, token ≠ .integer n)
    (same : tokens.map (·.renumber f) = token :: rest) :
    ∃ behind, tokens = token :: behind ∧ behind.map (·.renumber f) = rest := by
  obtain ⟨first, behind, rfl, here, more⟩ := List.map_eq_cons_iff.mp same
  rw [renumber_eq_iff mark] at here
  exact ⟨behind, by rw [here], more⟩

theorem integer_of_map_renumber (same : tokens.map (·.renumber f) = .integer number :: rest) :
    ∃ n behind, tokens = .integer n :: behind ∧ behind.map (·.renumber f) = rest := by
  obtain ⟨first, behind, rfl, here, more⟩ := List.map_eq_cons_iff.mp same
  obtain ⟨n, rfl, -⟩ := renumber_eq_integer_iff.mp here
  exact ⟨n, behind, rfl, more⟩

/-- Tokens begin with an element of a register if they do so with another index. -/
theorem element_of_map_renumber
    (same : tokens.map (·.renumber f) =
      .identifier name :: .leftBracket :: .integer number :: .rightBracket :: rest) :
    ∃ n behind, tokens = .identifier name :: .leftBracket :: .integer n :: .rightBracket :: behind ∧
      behind.map (·.renumber f) = rest := by
  obtain ⟨opening, rfl, bracket⟩ := head_of_map_renumber (by simp) same
  obtain ⟨index, rfl, digits⟩ := head_of_map_renumber (by simp) bracket
  obtain ⟨n, closing, rfl, bracket'⟩ := integer_of_map_renumber digits
  obtain ⟨behind, rfl, more⟩ := head_of_map_renumber (by simp) bracket'
  exact ⟨n, behind, rfl, more⟩

end Shapes

namespace Statement

variable {f : Nat → Nat} {tokens : List Token}

theorem finish_renumber (statement : Statement) (rest : List Token) :
    (statement.renumber f).finish (rest.map (·.renumber f)) =
      renumberResult f (renumber f) (statement.finish rest) := by
  cases rest with
  | nil => rfl
  | cons token rest => cases token <;> rfl

theorem sizedRegister_renumber (tokens : List Token) :
    sizedRegister (tokens.map (·.renumber f)) =
      renumberResult f (renumber f) (sizedRegister tokens) := by
  fun_cases sizedRegister tokens with
  | case1 name size rest => exact finish_renumber (declare name size) rest
  | case2 _ other =>
    rw [sizedRegister, LineFault.against_renumber (by simp)]
    · rfl
    · intro name size rest same
      obtain ⟨n, behind, rfl, -⟩ := element_of_map_renumber same
      exact other name n behind rfl

/-- A register of one qubit has no number to be changed. -/
theorem qubitRegister_renumber (one : f 1 = 1) (tokens : List Token) :
    qubitRegister (tokens.map (·.renumber f)) =
      renumberResult f (renumber f) (qubitRegister tokens) := by
  fun_cases qubitRegister tokens with
  | case1 size name rest => exact finish_renumber (declare name size) rest
  | case2 rest other =>
    change qubitRegister (.leftBracket :: rest.map (·.renumber f)) = _
    rw [qubitRegister, LineFault.against_renumber (by simp)]
    · rfl
    · intro size name behind same
      obtain ⟨n, closing, rfl, bracket⟩ := integer_of_map_renumber same
      obtain ⟨named, rfl, word⟩ := head_of_map_renumber (by simp) bracket
      obtain ⟨rest, rfl, -⟩ := head_of_map_renumber (by simp) word
      exact other n name rest rfl
  | case3 name rest =>
    have single := @finish_renumber f (declare name 1) rest
    rwa [renumber, one] at single
  | case4 tokens _ noSize noName =>
    rw [qubitRegister, LineFault.against_renumber (by simp)]
    · rfl
    · intro size name rest same
      obtain ⟨behind, rfl, -⟩ := head_of_map_renumber (by simp) same
      exact noSize behind rfl
    · intro rest same
      obtain ⟨behind, rfl, -⟩ := head_of_map_renumber (by simp) same
      exact noSize behind rfl
    · intro name rest same
      obtain ⟨behind, rfl, -⟩ := head_of_map_renumber (by simp) same
      exact noName name behind rfl

theorem measurement?_renumber (tokens : List Token) :
    measurement? (tokens.map (·.renumber f)) = (measurement? tokens).map (renumber f) := by
  fun_cases measurement? tokens with
  | case1 qubits i bits j rest =>
    have ended := @finish_renumber f (measure ⟨qubits, i⟩ ⟨bits, j⟩) rest
    change ((measure ⟨qubits, f i⟩ ⟨bits, f j⟩).finish (rest.map (·.renumber f))).toOption = _
    rw [renumber, Operand.renumber, Operand.renumber] at ended
    rw [ended]
    cases (measure ⟨qubits, i⟩ ⟨bits, j⟩).finish rest <;> rfl
  | case2 _ other =>
    rw [measurement?]
    · rfl
    · intro qubits i bits j rest same
      obtain ⟨n, _, rfl, arrow⟩ := element_of_map_renumber same
      obtain ⟨_, rfl, target⟩ := head_of_map_renumber (by simp) arrow
      obtain ⟨m, behind, rfl, -⟩ := element_of_map_renumber target
      exact other qubits n bits m behind rfl

/-- The operands are found in the same place. -/
theorem operands_renumber (tokens : List Token) :
    operands (tokens.map (·.renumber f)) =
      renumberResult f (fun (found, rest) => (found.map (·.renumber f), rest.map (·.renumber f)))
        (operands tokens) := by
  fun_induction operands tokens with
  | case1 register index rest found after read ih =>
    change operands (.identifier register :: .leftBracket :: .integer (f index) ::
      .rightBracket :: .comma :: rest.map (·.renumber f)) = _
    rw [operands, ih, read]
    rfl
  | case2 register index rest fault read ih =>
    change operands (.identifier register :: .leftBracket :: .integer (f index) ::
      .rightBracket :: .comma :: rest.map (·.renumber f)) = _
    rw [operands, ih, read]
    rfl
  | case3 register index rest other =>
    change operands (.identifier register :: .leftBracket :: .integer (f index) ::
      .rightBracket :: rest.map (·.renumber f)) = _
    rw [operands]
    · rfl
    · intro behind same
      obtain ⟨behind, rfl, -⟩ := head_of_map_renumber (by simp) same
      exact other behind rfl
  | case4 tokens other other' =>
    rw [operands, LineFault.against_renumber (by simp [operandForm])]
    · rfl
    · intro register index rest same
      obtain ⟨n, _, rfl, comma⟩ := element_of_map_renumber same
      obtain ⟨behind, rfl, -⟩ := head_of_map_renumber (by simp) comma
      exact other register n behind rfl
    · intro register index rest same
      obtain ⟨n, behind, rfl, -⟩ := element_of_map_renumber same
      exact other' register n behind rfl

theorem hasWholeRegister_renumber (tokens : List Token) :
    hasWholeRegister (tokens.map (·.renumber f)) = hasWholeRegister tokens := by
  induction tokens with
  | nil => rfl
  | cons token tokens ih =>
    rw [List.map_cons, hasWholeRegister_cons, hasWholeRegister_cons, ih]
    cases token with
    | identifier name =>
      cases tokens with
      | nil => rfl
      | cons next tokens => cases next <;> rfl
    | _ => rfl

theorem application_renumber (gate : Gate) (tokens : List Token) :
    application gate (tokens.map (·.renumber f)) =
      renumberResult f (Option.map (renumber f)) (application gate tokens) := by
  have opens : (tokens.map (·.renumber f)).head? = some .leftParen ↔
      tokens.head? = some .leftParen := by
    cases tokens with
    | nil => rfl
    | cons token tokens => simp
  rw [application, application, hasWholeRegister_renumber, operands_renumber]
  simp only [opens]
  split_ifs
  · rfl
  · cases operands tokens with
    | error fault => rfl
    | ok parts =>
      obtain ⟨found, rest⟩ := parts
      have ended := @finish_renumber f (apply gate found) rest
      change ((apply gate (found.map (·.renumber f))).finish (rest.map (·.renumber f))).map some = _
      rw [renumber] at ended
      rw [ended]
      dsimp only
      cases (apply gate found).finish rest <;> rfl

theorem map_some_renumberResult (result : Except LineFault Statement) :
    (renumberResult f (renumber f) result).map some =
      renumberResult f (Option.map (renumber f)) (result.map some) := by
  cases result <;> rfl

end Statement

section Pieces

def Segment.renumber (f : Nat → Nat) : Segment → Segment
  | token found text => token (found.renumber f) text
  | piece => piece

variable {f : Nat → Nat}

theorem tokensOf_renumber (pieces : List Segment) :
    tokensOf (pieces.map (·.renumber f)) =
      (tokensOf pieces).map (List.map (·.renumber f)) := by
  induction pieces with
  | nil => rfl
  | cons piece pieces ih =>
    cases piece with
    | layout text => exact ih
    | unreadable text => rfl
    | token token text =>
      rw [List.map_cons, Segment.renumber, tokensOf, tokensOf, ih]
      cases tokensOf pieces <;> rfl

theorem leadingOf_renumber (pieces : List Segment) :
    leadingOf (pieces.map (·.renumber f)) = (leadingOf pieces).map (·.renumber f) := by
  induction pieces with
  | nil => rfl
  | cons piece pieces ih =>
    cases piece with
    | layout text => exact ih
    | unreadable text => rfl
    | token token text => rfl

end Pieces

namespace Statement

variable {f : Nat → Nat}

def behindLeading (pieces : List Segment) : Except LineFault (List Token) :=
  match tokensOf pieces with
  | .ok tokens => .ok tokens.tail
  | .error text => .error (.unreadable (String.ofList text))

def ofPieces (pieces : List Segment) : Except LineFault (Option Statement) :=
  match leadingOf pieces with
  | some .qreg => (behindLeading pieces).bind fun tokens => (sizedRegister tokens).map some
  | some .qubit => (behindLeading pieces).bind fun tokens => (qubitRegister tokens).map some
  | some .measure => .ok ((behindLeading pieces).toOption.bind measurement?)
  | some (.identifier name) =>
    match Gate.ofName? name with
    | some gate => (behindLeading pieces).bind (application gate)
    | none => .ok none
  | _ => .ok none

theorem ofLine_eq_ofPieces (line : List Char) : ofLine line = ofPieces (segments line) := rfl

theorem ofPieces_of_gate {pieces : List Segment} {name : String} {gate : Gate}
    (first : leadingOf pieces = some (.identifier name)) (known : Gate.ofName? name = some gate) :
    ofPieces pieces = (behindLeading pieces).bind (application gate) := by
  rw [ofPieces, first]
  simp only [known]

/-- What is read behind the leading token is renumbered if its reading is, because no number is in
the text of a piece that cannot be read. -/
theorem bind_behindLeading_renumber
    {reading : List Token → Except LineFault (Option Statement)}
    (renumbers : ∀ tokens, reading (tokens.map (·.renumber f)) =
      renumberResult f (Option.map (renumber f)) (reading tokens)) (pieces : List Segment) :
    (behindLeading (pieces.map (·.renumber f))).bind reading =
      renumberResult f (Option.map (renumber f)) ((behindLeading pieces).bind reading) := by
  rw [behindLeading, behindLeading, tokensOf_renumber]
  cases tokensOf pieces with
  | error text => rfl
  | ok tokens =>
    have behind := renumbers tokens.tail
    rwa [List.map_tail] at behind

/-- With other numbers the same statement is read, up to its numbers, or the same fault is found. -/
theorem ofPieces_renumber (one : f 1 = 1) (pieces : List Segment) :
    ofPieces (pieces.map (·.renumber f)) =
      renumberResult f (Option.map (renumber f)) (ofPieces pieces) := by
  rw [ofPieces, ofPieces, leadingOf_renumber]
  cases leadingOf pieces with
  | none => rfl
  | some token =>
    cases token with
    | qreg =>
      refine bind_behindLeading_renumber (fun tokens => ?_) pieces
      rw [sizedRegister_renumber, map_some_renumberResult]
    | qubit =>
      refine bind_behindLeading_renumber (fun tokens => ?_) pieces
      rw [qubitRegister_renumber one, map_some_renumberResult]
    | measure =>
      rw [behindLeading, behindLeading, tokensOf_renumber]
      cases tokensOf pieces with
      | error text => rfl
      | ok tokens =>
        have behind := @measurement?_renumber f tokens.tail
        rw [List.map_tail] at behind
        exact congrArg Except.ok behind
    | identifier name =>
      dsimp only [Option.map_some, Token.renumber]
      cases Gate.ofName? name with
      | none => rfl
      | some gate => exact bind_behindLeading_renumber (application_renumber gate) pieces
    | _ => rfl

end Statement

end CircuitBench.Assembly
