import CircuitBench.Assembly.Statement
import CircuitBench.Proofs.Assembly.Lexing

/-!
# Statements as functions of tokens

Which statement a line holds depends on its leading token and, for the statements that
are read at all, on its tokens. A line that can be cut to its end is therefore known
by its tokens, whatever layout stands between them.
-/

namespace CircuitBench.Assembly.Statement

def ofTokens : List Token → Except LineFault (Option Statement)
  | .qreg :: tokens => (sizedRegister tokens).map some
  | .qubit :: tokens => (qubitRegister tokens).map some
  | .measure :: tokens => .ok (measurement? tokens)
  | .identifier name :: tokens =>
    match Gate.ofName? name with
    | some gate => application gate tokens
    | none => .ok none
  | _ => .ok none

theorem ofLine_eq_ofTokens {line : List Char} {tokens : List Token}
    (h : tokenize line = .ok tokens) : ofLine line = ofTokens tokens := by
  have behind : afterLeading line = .ok tokens.tail := by rw [afterLeading, h]
  rw [ofLine, leading?_eq_head? h, behind]
  cases tokens with
  | nil => rfl
  | cons token tokens =>
    cases token with
    | identifier name =>
      simp only [List.head?_cons, ofTokens]
      cases Gate.ofName? name <;> rfl
    | _ => rfl

/-- The words that open a line of which nothing is read. -/
def isIdle : Token → Bool
  | .qreg | .qubit | .measure => false
  | .identifier name => (Gate.ofName? name).isNone
  | _ => true

/-- A line that opens with any other word is passed over, whatever follows. -/
theorem ofLine_of_isIdle {line : List Char} {token : Token} (h : leading? line = some token)
    (idle : isIdle token) : ofLine line = .ok none := by
  rw [ofLine, h]
  cases token with
  | qreg => cases idle
  | qubit => cases idle
  | measure => cases idle
  | identifier name =>
    have unknown : Gate.ofName? name = none := Option.isNone_iff_eq_none.mp idle
    simp only [unknown]
  | _ => rfl

end CircuitBench.Assembly.Statement
