import CircuitBench.Proofs.Assembly.Declaration
import CircuitBench.Proofs.Assembly.Separation

/-!
# One statement a line

A declaration and a measurement are read up to the first semicolon of their line and no
further, and so are the operands of a gate: cut behind that semicolon, a line has the same
statement or the same fault. The one thing that is looked for in all of the line is a whole
register. One behind the semicolon is taken for an operand of the gate in front of it, which
then is passed over.
-/

namespace CircuitBench.Assembly

def throughSemicolon : List Token → List Token
  | [] => []
  | .semicolon :: _ => [.semicolon]
  | token :: rest => token :: throughSemicolon rest

section Tokens

variable {token : Token} {tokens front : List Token}

@[simp] theorem throughSemicolon_semicolon (rest : List Token) :
    throughSemicolon (.semicolon :: rest) = [.semicolon] := rfl

theorem throughSemicolon_cons (other : token ≠ .semicolon) (rest : List Token) :
    throughSemicolon (token :: rest) = token :: throughSemicolon rest := by
  cases token with
  | semicolon => exact absurd rfl other
  | _ => rfl

theorem throughSemicolon_append (absent : .semicolon ∉ front) (rest : List Token) :
    throughSemicolon (front ++ rest) = front ++ throughSemicolon rest := by
  induction front with
  | nil => rfl
  | cons token front ih =>
    obtain ⟨here, absent⟩ := List.ne_and_not_mem_of_not_mem_cons absent
    rw [List.cons_append, throughSemicolon_cons here.symm, ih absent, List.cons_append]

theorem throughSemicolon_eq (absent : .semicolon ∉ front) (more : List Token) :
    throughSemicolon (front ++ .semicolon :: more) = front ++ [.semicolon] :=
  throughSemicolon_append absent (.semicolon :: more)

/-- Tokens that do not begin in a certain way do not begin so up to the first semicolon. -/
theorem throughSemicolon_ne_append (front : List Token) (absent : .semicolon ∉ front)
    (other : ∀ rest, tokens ≠ front ++ rest) (rest : List Token) :
    throughSemicolon tokens ≠ front ++ rest := by
  intro same
  induction front generalizing tokens with
  | nil => exact other tokens rfl
  | cons token front ih =>
    obtain ⟨here, behind⟩ := List.ne_and_not_mem_of_not_mem_cons absent
    rcases tokens with _ | ⟨first, tokens⟩
    · cases same
    by_cases mark : first = .semicolon
    · subst mark
      exact here (List.cons.inj same).1
    · rw [throughSemicolon_cons mark] at same
      obtain ⟨rfl, same'⟩ := List.cons.inj same
      exact ih behind (fun rest whole => other rest (congrArg (first :: ·) whole)) same'

end Tokens

/-- Where no semicolon fits, tokens leave a form at the first semicolon or in front of it. -/
theorem LineFault.against_throughSemicolon {form : List Expected}
    (unfit : ∀ expected ∈ form, expected.admits .semicolon = false) (tokens : List Token) :
    against form (throughSemicolon tokens) = against form tokens := by
  induction tokens generalizing form with
  | nil => rfl
  | cons token tokens ih =>
    by_cases mark : token = .semicolon
    · subst mark
      rcases form with _ | ⟨expected, form⟩
      · rfl
      · simp [against, unfit]
    · rw [throughSemicolon_cons mark]
      rcases form with _ | ⟨expected, form⟩
      · rfl
      · rw [against, against, ih fun other member => unfit other (.tail expected member)]

namespace Statement

variable {tokens more : List Token}

theorem finish_throughSemicolon (statement : Statement) (tokens : List Token) :
    statement.finish (throughSemicolon tokens) = statement.finish tokens := by
  rcases tokens with _ | ⟨token, tokens⟩
  · rfl
  · cases token <;> rfl

theorem sizedRegister_throughSemicolon (tokens : List Token) :
    sizedRegister (throughSemicolon tokens) = sizedRegister tokens := by
  fun_cases sizedRegister tokens with
  | case1 name size rest => exact finish_throughSemicolon _ rest
  | case2 _ other =>
    rw [sizedRegister, LineFault.against_throughSemicolon (by decide)]
    intro name size
    exact throughSemicolon_ne_append
      [.identifier name, .leftBracket, .integer size, .rightBracket] (by simp)
      (other name size)

theorem qubitRegister_throughSemicolon (tokens : List Token) :
    qubitRegister (throughSemicolon tokens) = qubitRegister tokens := by
  fun_cases qubitRegister tokens with
  | case1 size name rest => exact finish_throughSemicolon _ rest
  | case2 rest other =>
    rw [throughSemicolon_cons (by simp), qubitRegister,
      LineFault.against_throughSemicolon (by decide)]
    intro size name
    exact throughSemicolon_ne_append
      [.integer size, .rightBracket, .identifier name] (by simp) (other size name)
  | case3 name rest => exact finish_throughSemicolon _ rest
  | case4 tokens _ noSize noName =>
    have sizeless := throughSemicolon_ne_append [.leftBracket] (by simp) noSize
    have nameless := fun name =>
      throughSemicolon_ne_append [.identifier name] (by simp) (noName name)
    rw [qubitRegister, LineFault.against_throughSemicolon (by decide)]
    · exact fun size name rest => sizeless _
    · exact sizeless
    · exact nameless

theorem measurement?_throughSemicolon (tokens : List Token) :
    measurement? (throughSemicolon tokens) = measurement? tokens := by
  fun_cases measurement? tokens with
  | case1 qubits i bits j rest =>
    exact congrArg Except.toOption (finish_throughSemicolon _ rest)
  | case2 _ other =>
    rw [measurement?]
    intro qubits i bits j
    exact throughSemicolon_ne_append
      [.identifier qubits, .leftBracket, .integer i, .rightBracket, .arrow,
        .identifier bits, .leftBracket, .integer j, .rightBracket] (by simp)
      (other qubits i bits j)

/-- The operands and what follows them are found in front of the first semicolon. -/
theorem operands_throughSemicolon (tokens : List Token) :
    operands (throughSemicolon tokens) =
      (operands tokens).map fun (found, rest) => (found, throughSemicolon rest) := by
  fun_induction operands tokens with
  | case1 register index rest found after read ih =>
    simp only [throughSemicolon, operands, ih, read]
    rfl
  | case2 register index rest fault read ih =>
    simp only [throughSemicolon, operands, ih, read]
    rfl
  | case3 register index rest other =>
    have last := throughSemicolon_ne_append [.comma] (by simp) other
    simp only [throughSemicolon]
    rw [operands]
    · rfl
    · exact last
  | case4 tokens other other' =>
    rw [operands, LineFault.against_throughSemicolon (by decide)]
    · rfl
    · exact fun register index rest => throughSemicolon_ne_append
        [.identifier register, .leftBracket, .integer index, .rightBracket] (by simp)
        (other' register index) _
    · exact fun register index => throughSemicolon_ne_append
        [.identifier register, .leftBracket, .integer index, .rightBracket] (by simp)
        (other' register index)

theorem hasWholeRegister_cons (token : Token) (rest : List Token) :
    hasWholeRegister (token :: rest) =
      ((match token with
        | .identifier _ => rest.head?.all fun next => next = .comma || next = .semicolon
        | _ => false) || hasWholeRegister rest) := by
  cases token with
  | identifier name =>
    rcases rest with _ | ⟨next, rest⟩
    · rfl
    · cases next <;> simp [hasWholeRegister]
  | _ => simp [hasWholeRegister]

theorem head?_semicolon (tokens more : List Token) :
    (tokens ++ Token.semicolon :: more).head? = (tokens ++ [Token.semicolon]).head? := by
  cases tokens <;> rfl

/-- A whole register stands up to a semicolon or behind it. -/
theorem hasWholeRegister_semicolon (tokens more : List Token) :
    hasWholeRegister (tokens ++ .semicolon :: more) =
      (hasWholeRegister (tokens ++ [.semicolon]) || hasWholeRegister more) := by
  induction tokens with
  | nil => rfl
  | cons token tokens ih =>
    rw [List.cons_append, List.cons_append, hasWholeRegister_cons, hasWholeRegister_cons,
      head?_semicolon, ih, Bool.or_assoc]

/-- A whole register behind the semicolon hides a gate. Otherwise the gate is read as if the
line ended at the semicolon. -/
theorem application_semicolon (gate : Gate) (absent : .semicolon ∉ tokens) (more : List Token) :
    application gate (tokens ++ .semicolon :: more) =
      if hasWholeRegister more then .ok none
      else application gate (tokens ++ [.semicolon]) := by
  have read := operands_throughSemicolon (tokens ++ .semicolon :: more)
  rw [throughSemicolon_eq absent] at read
  rw [application, application, hasWholeRegister_semicolon, head?_semicolon, read]
  cases hasWholeRegister more with
  | true => simp
  | false =>
    rw [Bool.or_false, if_neg Bool.false_ne_true]
    cases operands (tokens ++ .semicolon :: more) with
    | error fault => rfl
    | ok parts =>
      simp only [Except.map, finish_throughSemicolon]

def opensGate : List Token → Bool
  | .identifier name :: _ => (Gate.ofName? name).isSome
  | _ => false

/-- Cut behind its first semicolon a line has the same statement, unless it begins with a gate
and a whole register stands behind the semicolon. -/
theorem ofTokens_semicolon (absent : .semicolon ∉ tokens) (more : List Token) :
    ofTokens (tokens ++ .semicolon :: more) =
      if opensGate tokens && hasWholeRegister more then .ok none
      else ofTokens (tokens ++ [.semicolon]) := by
  rcases tokens with _ | ⟨token, tokens⟩
  · rfl
  obtain ⟨-, behind⟩ := List.ne_and_not_mem_of_not_mem_cons absent
  have cut := throughSemicolon_eq behind more
  rw [List.cons_append, List.cons_append]
  cases token with
  | identifier name =>
    rw [ofTokens, ofTokens, opensGate]
    cases Gate.ofName? name with
    | none => rfl
    | some gate => exact application_semicolon gate behind more
  | qreg =>
    rw [ofTokens, ofTokens, ← cut, sizedRegister_throughSemicolon]
    rfl
  | qubit =>
    rw [ofTokens, ofTokens, ← cut, qubitRegister_throughSemicolon]
    rfl
  | measure =>
    rw [ofTokens, ofTokens, ← cut, measurement?_throughSemicolon]
    rfl
  | _ => rfl

end Statement

/-- What a line says is said up to its first semicolon, with one exception. Where the line
begins with a gate and a whole register stands anywhere behind the semicolon, nothing is read
from the line, neither the gate nor a fault of it. -/
theorem whole_registers_reach_over_semicolons {line : List Char} {tokens more : List Token}
    (cut : tokenize line = .ok (tokens ++ .semicolon :: more)) (first : .semicolon ∉ tokens) :
    (∃ back, line = firstStatement line ++ back ∧ tokenize back = .ok more) ∧
      tokenize (firstStatement line) = .ok (tokens ++ [.semicolon]) ∧
      Statement.ofLine line =
        if Statement.opensGate tokens && Statement.hasWholeRegister more then .ok none
        else Statement.ofLine (firstStatement line) := by
  obtain ⟨back, front⟩ := firstStatement_of_tokenize cut first
  refine ⟨back, front, ?_⟩
  rw [Statement.ofLine_eq_ofTokens cut, Statement.ofLine_eq_ofTokens front]
  exact Statement.ofTokens_semicolon first more

theorem whole_registers_reach_over_semicolons_barrier :
    Statement.ofLine "h q[0]; barrier q;".toList = .ok none ∧
      Statement.ofLine (firstStatement "h q[0]; barrier q;".toList) =
        .ok (some (.apply (.single .h) [⟨"q", 0⟩])) := by
  have cut : tokenize "h q[0]; barrier q;".toList =
      .ok ([.identifier "h", .identifier "q", .leftBracket, .integer 0, .rightBracket] ++
        .semicolon :: [.barrier, .identifier "q", .semicolon]) := by decide +kernel
  obtain ⟨-, -, whole⟩ := whole_registers_reach_over_semicolons cut (by decide)
  exact ⟨whole.trans (by decide +kernel), by decide +kernel⟩

/-- A barrier behind the semicolon hides the gate in front of it. -/
theorem barrier_behind_semicolon_hides_gate :
    ¬ ∀ (line : List Char) (word : Token) (tokens more : List Token),
      tokenize line = .ok (word :: tokens ++ .semicolon :: more) → .semicolon ∉ word :: tokens →
      Statement.isIdle word = false →
      Statement.ofLine line = Statement.ofLine (firstStatement line) := by
  intro alone
  have same := alone "h q[0]; barrier q;".toList (.identifier "h")
    [.identifier "q", .leftBracket, .integer 0, .rightBracket]
    [.barrier, .identifier "q", .semicolon] (by decide +kernel) (by decide) (by decide +kernel)
  revert same
  decide +kernel

end CircuitBench.Assembly
