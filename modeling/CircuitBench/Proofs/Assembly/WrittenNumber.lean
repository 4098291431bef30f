import CircuitBench.Proofs.Assembly.Layout
import CircuitBench.Proofs.Assembly.PrintedLine
import CircuitBench.Proofs.Assembly.Renumbering
import Mathlib

/-!
# Numbers as they are written

A token holds no number above `2 ^ 64 - 1`, but the piece of the text that it was made from has all
digits of it. So a line can also be read with the numbers that are written in it, however many
digits they have. What the lexer makes of the line is this with each number capped.

Digits without a point behind them are the only text with a number. Between brackets they are the
size of a register or the index of a qubit, with as many leading zeros as one likes.
-/

namespace CircuitBench.Assembly

open Segment

/-- The largest number not above `n` that a token can hold. -/
def capped (n : Nat) : Nat :=
  Text.saturate 64 n

def Segment.written : Segment → Segment
  | token (.integer _) text => token (.integer (Text.decimalValue text)) text
  | piece => piece

def Statement.written (line : List Char) : Except LineFault (Option Statement) :=
  ofPieces ((segments line).map Segment.written)

section Pieces

variable {piece : Segment} {after : List Char}

theorem ofName_ne_integer (name : String) (n : Nat) : Token.ofName name ≠ .integer n :=
  ofName_ne (by simp) (by simp [Token.keywords]) name

theorem ofMark?_ne_integer (c : Char) (n : Nat) : Token.ofMark? c ≠ some (.integer n) := by
  intro same
  unfold Token.ofMark? at same
  split at same <;> cases same

/-- A piece without a number is written as it is. -/
theorem renumber_written_of_ne {token : Token} (other : ∀ n, token ≠ .integer n)
    (f : Nat → Nat) (text : List Char) :
    (Segment.token token text).written.renumber f = .token token text := by
  cases token with
  | integer n => exact absurd rfl (other n)
  | _ => rfl

/-- The number of a piece that is cut off is the capped one of its digits. -/
theorem renumber_written_of_endsAt (ends : piece.EndsAt after) :
    piece.written.renumber capped = piece := by
  cases ends with
  | blanks => rfl
  | lineComment => rfl
  | blockComment => rfl
  | name => exact renumber_written_of_ne (ofName_ne_integer _) _ _
  | integer => rfl
  | float => rfl
  | scaledFloat => rfl
  | string => rfl
  | arrow => rfl
  | mark read =>
    refine renumber_written_of_ne (fun n same => ?_) _ _
    exact ofMark?_ne_integer _ n (same ▸ read)

theorem renumber_written (text : List Char) :
    ((segments text).map Segment.written).map (·.renumber capped) = segments text := by
  induction text using segments.induct with
  | case1 =>
    rw [segments]
    rfl
  | case2 c rest text after cut =>
    rw [segments_cons, cut]
    rfl
  | case3 c rest piece after solid cut ih =>
    have ends := @endsAt_next c rest (by rw [cut]; exact solid)
    have whole := next_append c rest
    rw [cut] at ends whole
    rw [← whole, segments_of_endsAt ends, List.map_cons, List.map_cons, ih,
      renumber_written_of_endsAt ends]

/-- What is read from a line is what is written there with each number capped. -/
theorem ofLine_eq_capped_written (line : List Char) :
    Statement.ofLine line =
      renumberResult capped (Option.map (Statement.renumber capped)) (Statement.written line) := by
  have same := @Statement.ofPieces_renumber capped rfl ((segments line).map Segment.written)
  rwa [renumber_written, ← Statement.ofLine_eq_ofPieces] at same

end Pieces

section Texts

variable {name : String} {digits : List Char} {pieces behind : List Segment}

def elementPieces (name : String) (digits : List Char) : List Segment :=
  [.token (.identifier name) name.toList, .token .leftBracket ['['],
    .token (.ofDigits digits) digits, .token .rightBracket [']']]

theorem endsAt_word (word : String) {after : List Char} (letters : Reads.isName word.toList)
    (stop : ∀ d ∈ after.head?, isNameChar d = false) :
    (Segment.token (.ofName word) word.toList).EndsAt after := by
  cases chars : word.toList with
  | nil =>
    rw [chars] at letters
    cases letters
  | cons c run =>
    rw [chars] at letters
    obtain ⟨start, inside⟩ := Bool.and_eq_true_iff.mp letters
    have ends := EndsAt.name start (List.all_eq_true.mp inside) stop
    rwa [← chars, String.ofList_toList, chars] at ends

theorem divided_number (numeral : Text.isNumeral digits)
    (stop : ∀ d ∈ (textOf behind).head?, d.isDigit = false ∧ d ≠ '.')
    (divided : Divided behind) : Divided (.token (.ofDigits digits) digits :: behind) := by
  obtain ⟨nonempty, all⟩ := Bool.and_eq_true_iff.mp numeral
  cases digits with
  | nil => cases nonempty
  | cons c run =>
    obtain ⟨first, inside⟩ := List.forall_mem_cons.mp (List.all_eq_true.mp all)
    exact .cons (.integer first inside stop) divided

theorem divided_bracketed (numeral : Text.isNumeral digits) (divided : Divided behind) :
    Divided (.token .leftBracket ['['] :: .token (.ofDigits digits) digits ::
      .token .rightBracket [']'] :: behind) := by
  have closed : Divided (.token .rightBracket [']'] :: behind) := .cons (.mark rfl) divided
  exact .cons (.mark rfl) (divided_number numeral (Text.head?_cons (by decide) _) closed)

theorem divided_element (letters : Reads.isName name.toList)
    (noKeyword : Token.ofName name = .identifier name) (numeral : Text.isNumeral digits)
    (divided : Divided behind) : Divided (elementPieces name digits ++ behind) := by
  have ends := endsAt_word name letters
    (Text.head?_cons (P := fun d => isNameChar d = false) (c := '[') rfl
      (digits ++ (']' :: textOf behind)))
  rw [noKeyword] at ends
  exact .cons ends (divided_bracketed numeral divided)

/-- A space between a word and something that is no blank. -/
theorem divided_spaced {piece : Segment} (ends : piece.EndsAt (' ' :: textOf behind))
    (solid : Solid (textOf behind)) (divided : Divided behind) :
    Divided (piece :: .layout [' '] :: behind) :=
  .cons ends (.cons (.blanks rfl (by simp) solid) divided)

theorem written_of_divided {line : List Char} (divided : Divided pieces)
    (whole : textOf pieces = line) :
    Statement.written line = Statement.ofPieces (pieces.map Segment.written) := by
  rw [← whole, Statement.written, segments_of_divided divided]

theorem divided_semicolon : Divided [.token .semicolon [';']] :=
  .cons (.mark rfl) .nil

variable (letters : Reads.isName name.toList) (noKeyword : Token.ofName name = .identifier name)
  (numeral : Text.isNumeral digits)

include letters noKeyword numeral

/-- Any numeral can be written as the size behind the name of a register. -/
theorem written_sizedRegister :
    Statement.written ("qreg " ++ name ++ "[" ++ String.ofList digits ++ "];").toList =
      .ok (some (.declare name (Text.decimalValue digits))) := by
  have keyword : (Segment.token .qreg "qreg".toList).EndsAt
      (' ' :: textOf (elementPieces name digits ++ [.token .semicolon [';']])) :=
    endsAt_word "qreg" (by decide) (Text.head?_cons (by decide) _)
  have divided := divided_spaced keyword (solid_name letters _)
    (divided_element letters noKeyword numeral divided_semicolon)
  rw [written_of_divided divided (by simp [elementPieces, Segment.text])]
  rfl

/-- Any numeral can be written as the size in front of the name. -/
theorem written_qubits :
    Statement.written ("qubit[" ++ String.ofList digits ++ "] " ++ name ++ ";").toList =
      .ok (some (.declare name (Text.decimalValue digits))) := by
  have keyword : (Segment.token .qubit "qubit".toList).EndsAt
      ('[' :: (digits ++ ']' :: ' ' :: (name.toList ++ [';']))) :=
    endsAt_word "qubit" (by decide) (Text.head?_cons (by decide) _)
  have named := endsAt_word name letters
    (Text.head?_cons (P := fun d => isNameChar d = false) (c := ';') rfl [])
  rw [noKeyword] at named
  have space : (Segment.layout [' ']).EndsAt (name.toList ++ [';']) :=
    .blanks rfl (by simp) (solid_name letters _)
  have divided := Divided.cons keyword
    (divided_bracketed numeral (.cons space (.cons named divided_semicolon)))
  rw [written_of_divided divided (by simp [Segment.text])]
  rfl

/-- Any numeral can be written as the index of an operand. -/
theorem written_application (gate : Gate) :
    Statement.written
        (gate.mnemonic ++ " " ++ name ++ "[" ++ String.ofList digits ++ "];").toList =
      .ok (some (.apply gate [⟨name, Text.decimalValue digits⟩])) := by
  have word := endsAt_word gate.mnemonic (isName_mnemonic gate)
    (Text.head?_cons (P := fun d => isNameChar d = false) (c := ' ') rfl
      (textOf (elementPieces name digits ++ [.token .semicolon [';']])))
  rw [ofName_mnemonic] at word
  have divided := divided_spaced word (solid_name letters _)
    (divided_element letters noKeyword numeral divided_semicolon)
  rw [written_of_divided divided (by simp [elementPieces, Segment.text])]
  rw [Statement.ofPieces_of_gate rfl (Gate.ofName?_mnemonic gate)]
  rfl

end Texts

end CircuitBench.Assembly
