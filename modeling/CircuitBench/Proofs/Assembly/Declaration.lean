import CircuitBench.Assembly.Registers
import CircuitBench.Proofs.Assembly.Statement
import Mathlib

/-!
# Lines that declare a register

A line declares a register if and only if its tokens have one of three forms: a keyword with a
name and a size behind it, a keyword with a size and a name behind it, or for a single qubit a
keyword and a name. Whatever else the line has must come behind a semicolon.
-/

namespace CircuitBench.Assembly

def isEnd : List Token → Bool
  | [] => true
  | .semicolon :: _ => true
  | _ => false

/-- The name and the size of the register that tokens declare: `qreg NAME [ SIZE ]`,
`qubit [ SIZE ] NAME` or, for a single qubit, `qubit NAME`. -/
def declarationOf : List Token → Option (String × Nat)
  | .qreg :: .identifier name :: .leftBracket :: .integer size :: .rightBracket :: rest =>
    if isEnd rest then some (name, size) else none
  | .qubit :: .leftBracket :: .integer size :: .rightBracket :: .identifier name :: rest =>
    if isEnd rest then some (name, size) else none
  | .qubit :: .identifier name :: rest => if isEnd rest then some (name, 1) else none
  | _ => none

def declaration? (line : List Char) : Option (String × Nat) :=
  (tokenize line).toOption.bind declarationOf

def application? (line : List Char) : Option (Gate × List Operand) :=
  match Statement.ofLine line with
  | .ok (some (.apply gate operands)) => some (gate, operands)
  | _ => none

def declarations (lines : List (List Char)) : Registers :=
  lines.filterMap declaration?

def applications (lines : List (List Char)) : List (Gate × List Operand) :=
  lines.filterMap application?

theorem finish_eq_ok_iff {statement found : Statement} {rest : List Token} :
    statement.finish rest = .ok found ↔ isEnd rest = true ∧ found = statement := by
  fun_cases Statement.finish statement rest <;> simp_all [isEnd, eq_comm]

theorem sizedRegister_eq_ok_iff {tokens : List Token} {found : Statement} :
    Statement.sizedRegister tokens = .ok found ↔
      ∃ name size, declarationOf (.qreg :: tokens) = some (name, size) ∧
        found = .declare name size := by
  fun_cases Statement.sizedRegister tokens with
  | case1 name size rest =>
    cases ended : isEnd rest <;> simp [declarationOf, finish_eq_ok_iff, ended]
  | case2 other =>
    have none : declarationOf (.qreg :: tokens) = none := by
      unfold declarationOf
      split <;> simp_all
    simp [none]

theorem qubitRegister_eq_ok_iff {tokens : List Token} {found : Statement} :
    Statement.qubitRegister tokens = .ok found ↔
      ∃ name size, declarationOf (.qubit :: tokens) = some (name, size) ∧
        found = .declare name size := by
  fun_cases Statement.qubitRegister tokens with
  | case1 size name rest =>
    cases ended : isEnd rest <;> simp [declarationOf, finish_eq_ok_iff, ended]
  | case2 rest other =>
    have none : declarationOf (.qubit :: .leftBracket :: rest) = none := by
      unfold declarationOf
      split <;> simp_all
    simp [none]
  | case3 name rest =>
    cases ended : isEnd rest <;> simp [declarationOf, finish_eq_ok_iff, ended]
  | case4 =>
    have none : declarationOf (.qubit :: tokens) = none := by
      unfold declarationOf
      split <;> simp_all
    simp [none]

/-- A gate declares nothing. -/
theorem application_ne_declare (gate : Gate) (tokens : List Token) (name : String) (size : Nat) :
    Statement.application gate tokens ≠ .ok (some (.declare name size)) := by
  rw [Statement.application]
  split_ifs
  · nofun
  · cases Statement.operands tokens with
    | error fault => nofun
    | ok parts =>
      obtain ⟨found, rest⟩ := parts
      cases done : (Statement.apply gate found).finish rest with
      | error fault => simp [done, Except.map]
      | ok statement =>
        obtain ⟨-, rfl⟩ := finish_eq_ok_iff.mp done
        simp [done, Except.map]

theorem map_some_eq_ok_iff {α β : Type} {e : Except α β} {value : β} :
    e.map some = .ok (some value) ↔ e = .ok value := by
  cases e <;> simp [Except.map]

theorem ofTokens_eq_declare_iff {tokens : List Token} {name : String} {size : Nat} :
    Statement.ofTokens tokens = .ok (some (.declare name size)) ↔
      declarationOf tokens = some (name, size) := by
  fun_cases Statement.ofTokens tokens with
  | case1 tokens => simp [map_some_eq_ok_iff, sizedRegister_eq_ok_iff]
  | case2 tokens => simp [map_some_eq_ok_iff, qubitRegister_eq_ok_iff]
  | case3 tokens =>
    refine iff_of_false (fun same => ?_) nofun
    fun_cases Statement.measurement? tokens with
    | case1 qubits i bits j rest =>
      cases done : (Statement.measure ⟨qubits, i⟩ ⟨bits, j⟩).finish rest with
      | error fault => simp [Statement.measurement?, done, Except.toOption] at same
      | ok statement =>
        obtain ⟨-, rfl⟩ := finish_eq_ok_iff.mp done
        simp [Statement.measurement?, done, Except.toOption] at same
    | case2 => simp_all [Statement.measurement?]
  | case4 name tokens gate known =>
    exact iff_of_false (application_ne_declare gate tokens _ _) nofun
  | case5 name tokens unknown => exact iff_of_false nofun nofun
  | case6 =>
    refine iff_of_false nofun fun declared => ?_
    unfold declarationOf at declared
    split at declared <;> simp_all

/-- A line declares a register if and only if its tokens do. -/
theorem declaration?_eq_some_iff {line : List Char} {name : String} {size : Nat} :
    declaration? line = some (name, size) ↔
      Statement.ofLine line = .ok (some (.declare name size)) := by
  cases cut : tokenize line with
  | ok tokens =>
    rw [Statement.ofLine_eq_ofTokens cut, ofTokens_eq_declare_iff, declaration?, cut]
    rfl
  | error text =>
    have behind : Statement.afterLeading line = .error (.unreadable (String.ofList text)) := by
      rw [Statement.afterLeading, cut]
    refine iff_of_false ?_ ?_
    · rw [declaration?, cut]
      intro found
      cases found
    · rw [Statement.ofLine, behind]
      intro found
      split at found
      case h_4 => split at found <;> cases found
      all_goals cases found

theorem declaration?_eq_none {line : List Char} {statement : Option Statement}
    (read : Statement.ofLine line = .ok statement)
    (other : ∀ name size, statement ≠ some (.declare name size)) : declaration? line = none := by
  refine Option.eq_none_iff_forall_ne_some.mpr fun register declared => ?_
  have declares := declaration?_eq_some_iff.mp declared
  rw [read] at declares
  exact other _ _ (Except.ok.inj declares)

end CircuitBench.Assembly
