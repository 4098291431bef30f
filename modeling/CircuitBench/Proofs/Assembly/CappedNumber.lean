import CircuitBench.Proofs.Assembly.Insertion
import CircuitBench.Proofs.Assembly.RegisterWords
import CircuitBench.Proofs.Assembly.WrittenNumber
import Mathlib

/-!
# A cap that changes no decision

A number that is too large for a token is capped, and what is left of it is narrowed once more
before it becomes a size or an index. None of this can be told from what is decided. A capped size
is still too large for indices of 32 bits, whatever is declared in front of it, and a capped index
still lies behind the end of every register. So a text is accepted or refused, at the same line and
for the same reason, as if its numbers had been kept as they are written. Only the index that a
message names can be the capped one.
-/

namespace CircuitBench.Assembly

section Renumber

def RegisterFault.renumber (f : Nat → Nat) : RegisterFault → RegisterFault
  | indexOutOfRange index name size => indexOutOfRange (f index) name size
  | fault => fault

def Fault.renumber (f : Nat → Nat) : Fault → Fault
  | line fault => line (fault.renumber f)
  | register fault => register (fault.renumber f)

def ReadError.renumber (f : Nat → Nat) : ReadError → ReadError
  | statement line fault => statement line (fault.renumber f)
  | e => e

end Renumber

section Cap

variable {n : Nat}

theorem capped_of_lt (small : n < 2 ^ 64) : capped n = n :=
  Text.saturate_of_lt small

theorem le_capped_iff {bound : Nat} (fits : bound < 2 ^ 64) : bound ≤ capped n ↔ bound ≤ n := by
  unfold capped Text.saturate
  omega

/-- A capped number is the value of a word of 64 bits. -/
theorem toNat_capped (n : Nat) : (UInt64.ofNat (capped n)).toNat = capped n := by
  have below : capped n ≤ 2 ^ 64 - 1 := Nat.min_le_right _ _
  exact UInt64.toNat_ofNat_of_lt' (Nat.lt_of_le_of_lt below (by decide))

end Cap

namespace Registers

variable {registers : Registers} {limit size : Nat} {name : String}

/-- A capped size is judged as the size is. -/
theorem declare_capped (registers : Registers) (limit : Nat) (name : String) (size : Nat) :
    registers.declare limit name (capped size) = registers.declare limit name size := by
  by_cases fits : size < 2 ^ 64
  · rw [capped_of_lt fits]
  · have large : 2 ^ 32 ≤ registers.total + size := by omega
    have capped_large : 2 ^ 32 ≤ registers.total + capped size :=
      Nat.le_add_left_of_le ((le_capped_iff (by decide)).mpr (by omega))
    rw [declare, declare, if_pos large, if_pos capped_large]

/-- A fault of a declaration names no index. -/
theorem mapError_declare (f : Nat → Nat) :
    (registers.declare limit name size).mapError (·.renumber f) =
      registers.declare limit name size := by
  unfold declare
  dsimp only
  split_ifs <;> rfl

theorem declare_eq_ok_iff (fresh : registers.declares name = false) {after : Registers} :
    registers.declare limit name size = .ok after ↔
      registers.total + size ≤ min limit (2 ^ 32 - 1) ∧ after = registers ++ [(name, size)] := by
  rw [declare, fresh, if_neg Bool.false_ne_true, Nat.le_min]
  split_ifs with large beyond
  · exact iff_of_false (by simp) (by omega)
  · exact iff_of_false (by simp) (by omega)
  · rw [Except.ok.injEq, eq_comm, iff_and_self]
    omega

theorem declare_eq_tooLarge_iff (fresh : registers.declares name = false) :
    registers.declare limit name size = .error (.tooLarge name) ↔
      2 ^ 32 - 1 < registers.total + size := by
  rw [declare, fresh, if_neg Bool.false_ne_true]
  split_ifs with large beyond
  · exact iff_of_true rfl (by omega)
  · exact iff_of_false (by simp) (by omega)
  · exact iff_of_false (by simp) (by omega)

variable (small : registers.total < 2 ^ 32)

include small

/-- A capped index is in its register if and only if the index is. -/
theorem resolve_capped (operand : Operand) :
    registers.resolve (operand.renumber capped) =
      (registers.resolve operand).mapError (·.renumber capped) := by
  rw [resolve, resolve, Operand.renumber]
  cases located : registers.locate? operand.register with
  | none =>
    dsimp only
    split <;> rfl
  | some place =>
    obtain ⟨offset, size⟩ := place
    have below := offset_add_size_le located
    by_cases inside : operand.index < size
    · have same : capped operand.index = operand.index := capped_of_lt (by omega)
      simp only [same, if_pos inside, Except.mapError]
    · have outside : ¬capped operand.index < size :=
        Nat.not_lt.mpr ((le_capped_iff (by omega)).mpr (Nat.not_lt.mp inside))
      simp only [if_neg inside, if_neg outside, Except.mapError, RegisterFault.renumber]

theorem resolveAll_capped (operands : List Operand) :
    registers.resolveAll (operands.map (·.renumber capped)) =
      (registers.resolveAll operands).mapError (·.renumber capped) := by
  induction operands with
  | nil => rfl
  | cons operand operands ih =>
    rw [List.map_cons, resolveAll, resolveAll, resolve_capped small, ih]
    cases registers.resolve operand with
    | error fault => rfl
    | ok q => cases registers.resolveAll operands <;> rfl

end Registers

section Judgement

/-- What a statement does behind some registers, or the fault that it is refused with. -/
def judge (limit : Nat) (registers : Registers) :
    Except LineFault (Option Statement) → Except Fault Contents
  | .error fault => .error (.line fault)
  | .ok (some (.declare name size)) =>
    match registers.declare limit name size with
    | .error fault => .error (.register fault)
    | .ok after => .ok ⟨after, []⟩
  | .ok (some (.apply gate operands)) =>
    match registers.resolveAll operands with
    | .error fault => .error (.register fault)
    | .ok qubits => .ok ⟨registers, [⟨gate, qubits, []⟩]⟩
  | .ok _ => .ok ⟨registers, []⟩

variable {limit : Nat} {registers : Registers} {here : Contents}

theorem readLine_eq_judge (limit : Nat) (registers : Registers) (line : List Char) :
    readLine limit registers line = judge limit registers (Statement.ofLine line) := rfl

theorem judge_capped (small : registers.total < 2 ^ 32) (limit : Nat)
    (said : Except LineFault (Option Statement)) :
    judge limit registers (renumberResult capped (Option.map (Statement.renumber capped)) said) =
      (judge limit registers said).mapError (·.renumber capped) := by
  cases said with
  | error fault => rfl
  | ok statement =>
    cases statement with
    | none => rfl
    | some statement =>
      cases statement with
      | declare name size =>
        change judge limit registers (.ok (some (.declare name (capped size)))) = _
        have same := Registers.declare_capped registers limit name size
        rw [judge, judge, same.trans (Registers.mapError_declare capped).symm]
        cases registers.declare limit name size <;> rfl
      | apply gate operands =>
        change judge limit registers (.ok (some (.apply gate (operands.map _)))) = _
        rw [judge, judge, Registers.resolveAll_capped small]
        cases registers.resolveAll operands <;> rfl
      | measure qubit bit => rfl

/-- A line is judged by the numbers that are written in it. -/
theorem readLine_eq_written (small : registers.total < 2 ^ 32) (limit : Nat) (line : List Char) :
    readLine limit registers line =
      (judge limit registers (Statement.written line)).mapError (·.renumber capped) := by
  rw [readLine_eq_judge, ofLine_eq_capped_written, judge_capped small]

theorem within_judge {said : Except LineFault (Option Statement)}
    (within : registers.Within limit) (read : judge limit registers said = .ok here) :
    here.registers.Within limit := by
  unfold judge at read
  split at read
  · cases read
  · split at read
    · cases read
    · next declared =>
      cases read
      exact Registers.within_declare declared
  · split at read
    · cases read
    · cases read
      exact within
  · cases read
    exact within

end Judgement

section Run

def readLinesAsWritten (limit : Nat) :
    Registers → (number : Nat) → List (List Char) → Except ReadError Contents
  | registers, _, [] => .ok ⟨registers, []⟩
  | registers, number, line :: rest =>
    match judge limit registers (Statement.written line) with
    | .error fault => .error (.statement number fault)
    | .ok here => (readLinesAsWritten limit here.registers (number + 1) rest).map here.followedBy

/-- The circuit of a text with the numbers that are written in it. -/
def readAsWritten (limit : Nat) (source : String) : Except ReadError Circuit :=
  match readLinesAsWritten limit [] 1 (Text.lines source.toList) with
  | .error e => .error e
  | .ok contents => contents.circuit

variable {limit number : Nat} {registers : Registers}

/-- The numbers of all declared qubits stay below the cap, so each line is judged as written. -/
theorem readLines_eq_written (within : registers.Within limit) (lines : List (List Char)) :
    readLines limit registers number lines =
      (readLinesAsWritten limit registers number lines).mapError (·.renumber capped) := by
  induction lines generalizing registers number with
  | nil => rfl
  | cons line rest ih =>
    rw [readLines_cons, readLinesAsWritten, readLine_eq_written within.1]
    cases step : judge limit registers (Statement.written line) with
    | error fault => rfl
    | ok here =>
      have behind := @ih (number + 1) here.registers (within_judge within step)
      exact (congrArg (Except.map here.followedBy) behind).trans (mapError_map_followedBy _ here _)

theorem read_eq_written (limit : Nat) (source : String) :
    read limit source = (readAsWritten limit source).mapError (·.renumber capped) := by
  rw [read, readAsWritten, readLines_eq_written (Registers.within_nil limit)]
  cases readLinesAsWritten limit [] 1 (Text.lines source.toList) with
  | error e => rfl
  | ok contents => exact (contents.mapError_circuit rfl fun _ => rfl).symm

end Run

section Words

variable {registers : Registers} (small : registers.total < 2 ^ 32)

include small

/-- A table of words is given the capped size and judges the size that is written. -/
theorem declare_inWords_capped (limit : UInt32) (name : String) (size : Nat) :
    registers.inWords.declare limit name (UInt64.ofNat (capped size)) =
      (registers.declare limit.toNat name size).map Registers.inWords := by
  rw [Registers.declare_inWords small, toNat_capped, Registers.declare_capped]

theorem resolve_inWords_capped (name : String) (index : Nat) :
    registers.inWords.resolve name (UInt64.ofNat (capped index)) =
      (registers.resolve ⟨name, index⟩).mapError (·.renumber capped) := by
  rw [Registers.resolve_inWords small, toNat_capped]
  exact Registers.resolve_capped small ⟨name, index⟩

end Words

section Decisions

def Registers.Holds (registers : Registers) (operand : Operand) : Prop :=
  ∃ offset size, registers.locate? operand.register = some (offset, size) ∧ operand.index < size

/-- What becomes of the statement of a line depends on the numbers as they are written. -/
structure DecidedAsWritten (limit : Nat) (registers : Registers) (line : List Char) : Prop where
  /-- A new register is declared if the limit and indices of 32 bits leave room for it. -/
  declared : ∀ name size, Statement.written line = .ok (some (.declare name size)) →
    registers.declares name = false → ∀ here, readLine limit registers line = .ok here ↔
      registers.total + size ≤ min limit (2 ^ 32 - 1) ∧ here = ⟨registers ++ [(name, size)], []⟩
  tooLarge : ∀ name size, Statement.written line = .ok (some (.declare name size)) →
    registers.declares name = false →
      (readLine limit registers line = .error (.register (.tooLarge name)) ↔
        2 ^ 32 - 1 < registers.total + size)
  /-- A gate is placed if the registers hold all its operands. -/
  applied : ∀ gate operands, Statement.written line = .ok (some (.apply gate operands)) →
    ((∃ here, readLine limit registers line = .ok here) ↔
      ∀ operand ∈ operands, registers.Holds operand)

variable {limit : Nat} {registers : Registers} {line : List Char}

theorem exists_resolve_iff {operand : Operand} :
    (∃ q, registers.resolve operand = .ok q) ↔ registers.Holds operand := by
  constructor
  · rintro ⟨q, resolved⟩
    obtain ⟨offset, size, located, inside, -⟩ := Registers.resolve_eq_ok_iff.mp resolved
    exact ⟨offset, size, located, inside⟩
  · rintro ⟨offset, size, located, inside⟩
    exact ⟨_, Registers.resolve_eq_ok_iff.mpr ⟨offset, size, located, inside, rfl⟩⟩

theorem holds_iff {name : String} {offset size index : Nat}
    (located : registers.locate? name = some (offset, size)) :
    registers.Holds ⟨name, index⟩ ↔ index < size := by
  constructor
  · rintro ⟨offset', size', located', inside⟩
    cases located.symm.trans located'
    exact inside
  · intro inside
    exact ⟨offset, size, located, inside⟩

/-- The index among all qubits is an exact sum. -/
theorem toNat_of_resolve (small : registers.total < 2 ^ 32) {name : String}
    {offset size index : Nat} {q : UInt32}
    (located : registers.locate? name = some (offset, size))
    (resolved : registers.resolve ⟨name, index⟩ = .ok q) : q.toNat = offset + index := by
  obtain ⟨offset', size', located', inside, rfl⟩ := Registers.resolve_eq_ok_iff.mp resolved
  cases located.symm.trans located'
  have below := Registers.offset_add_size_le located
  have fits : offset + index < 2 ^ 32 :=
    (Nat.add_lt_add_left inside offset).trans (Nat.lt_of_le_of_lt below small)
  exact UInt32.toNat_ofNat_of_lt' fits

theorem exists_resolveAll_iff {operands : List Operand} :
    (∃ qubits, registers.resolveAll operands = .ok qubits) ↔
      ∀ operand ∈ operands, registers.Holds operand := by
  induction operands with
  | nil => exact iff_of_true ⟨[], rfl⟩ (List.forall_mem_nil _)
  | cons operand operands ih =>
    rw [List.forall_mem_cons, ← ih, ← exists_resolve_iff, Registers.resolveAll]
    cases registers.resolve operand with
    | error fault => simp
    | ok q => cases registers.resolveAll operands <;> simp

theorem decidedAsWritten (small : registers.total < 2 ^ 32) :
    DecidedAsWritten limit registers line where
  declared := by
    intro name size written fresh here
    rw [readLine_eq_written small, written, mapError_eq_ok_iff, judge]
    have decided := @Registers.declare_eq_ok_iff registers limit size name fresh
    cases declared : registers.declare limit name size with
    | error fault =>
      refine iff_of_false (by simp) fun room => ?_
      have taken := decided.mpr ⟨room.1, rfl⟩
      rw [declared] at taken
      cases taken
    | ok after =>
      obtain ⟨room, rfl⟩ := decided.mp declared
      dsimp only
      rw [Except.ok.injEq, eq_comm, iff_and_self]
      exact fun _ => room
  tooLarge := by
    intro name size written fresh
    have decided := @Registers.declare_eq_tooLarge_iff registers limit size name fresh
    rw [readLine_eq_written small, written, judge, ← decided]
    have kept := @Registers.mapError_declare registers limit size name capped
    cases declared : registers.declare limit name size with
    | error fault =>
      rw [declared] at kept
      have same : fault.renumber capped = fault := Except.error.inj kept
      simp [Except.mapError, Fault.renumber, same]
    | ok after => simp [Except.mapError]
  applied := by
    intro gate operands written
    rw [readLine_eq_written small, written, ← exists_resolveAll_iff]
    simp only [mapError_eq_ok_iff, judge]
    cases registers.resolveAll operands <;> simp

end Decisions

/-- Whatever number is written as the size of a register or as an index, with any number of digits
and of leading zeros, what is decided is decided as for the number itself: whether there is room for
the register, whether it is too large, and whether the index lies in its register. It does not
matter that a token has the number capped, nor that sizes, places and totals are kept in words of 32
bits. So a text is read as it is with the numbers that are written in it. -/
theorem capped_numbers_decide_as_written (limit : Nat) {registers : Registers}
    (small : registers.total < 2 ^ 32) :
    (∀ name digits, Reads.isName name.toList → Token.ofName name = .identifier name →
      Text.isNumeral digits →
      Statement.written ("qreg " ++ name ++ "[" ++ String.ofList digits ++ "];").toList =
        .ok (some (.declare name (Text.decimalValue digits))) ∧
      Statement.written ("qubit[" ++ String.ofList digits ++ "] " ++ name ++ ";").toList =
        .ok (some (.declare name (Text.decimalValue digits))) ∧
      ∀ gate, Statement.written
          (Gate.mnemonic gate ++ " " ++ name ++ "[" ++ String.ofList digits ++ "];").toList =
        .ok (some (.apply gate [⟨name, Text.decimalValue digits⟩]))) ∧
    (∀ line, DecidedAsWritten limit registers line) ∧
    (∀ name offset size, registers.locate? name = some (offset, size) → ∀ index,
      ((∃ q, registers.resolve ⟨name, capped index⟩ = .ok q) ↔ index < size) ∧
      ∀ q, registers.resolve ⟨name, capped index⟩ = .ok q → q.toNat = offset + index) ∧
    (∀ (most : UInt32) name size,
      registers.inWords.declare most name (UInt64.ofNat (capped size)) =
        (registers.declare most.toNat name size).map Registers.inWords) ∧
    (∀ name index,
      registers.inWords.resolve name (UInt64.ofNat (capped index)) =
        (registers.resolve ⟨name, index⟩).mapError (·.renumber capped)) ∧
    ∀ source, read limit source = (readAsWritten limit source).mapError (·.renumber capped) := by
  refine ⟨?_, fun line => decidedAsWritten small, ?_, declare_inWords_capped small,
    resolve_inWords_capped small, read_eq_written limit⟩
  · intro name digits letters noKeyword numeral
    exact ⟨written_sizedRegister letters noKeyword numeral,
      written_qubits letters noKeyword numeral, written_application letters noKeyword numeral⟩
  · intro name offset size located index
    have same : registers.resolve ⟨name, capped index⟩ = _ :=
      Registers.resolve_capped small ⟨name, index⟩
    simp only [same, mapError_eq_ok_iff, exists_resolve_iff]
    exact ⟨holds_iff located, fun q resolved => toNat_of_resolve small located resolved⟩

/-- Behind `2 ^ 32 - 6` qubits there is room for five more, however many zeros are in front of the
five. Wrapped around, `2 ^ 64 + 5` and `2 ^ 64` would be five and zero. -/
theorem capped_numbers_decide_as_written_wrapped :
    Registers.total [("a", 4294967290)] < 2 ^ 32 ∧
    readLine maxQubits [("a", 4294967290)] "qreg b[00000000000000000000005];".toList =
      .ok ⟨[("a", 4294967290), ("b", 5)], []⟩ ∧
    readLine maxQubits [("a", 4294967290)] "qubit[18446744073709551621] b;".toList =
      .error (.register (.tooLarge "b")) ∧
    (∃ here, readLine maxQubits [("a", 4294967290)] "x a[04294967289];".toList = .ok here) ∧
    ¬∃ here, readLine maxQubits [("a", 4294967290)] "x a[18446744073709551616];".toList =
      .ok here := by
  have small : Registers.total [("a", 4294967290)] < 2 ^ 32 := by decide
  obtain ⟨texts, lines, -⟩ := capped_numbers_decide_as_written maxQubits small
  have five := (texts "b" "00000000000000000000005".toList (by decide) rfl (by decide)).1
  have wrapped := (texts "b" "18446744073709551621".toList (by decide) rfl (by decide)).2.1
  have last := (texts "a" "04294967289".toList (by decide) rfl (by decide)).2.2 (.single .x)
  have beyond := (texts "a" "18446744073709551616".toList (by decide) rfl (by decide)).2.2
    (.single .x)
  refine ⟨small, ?_, ?_, ?_, ?_⟩
  · have value : Text.decimalValue "00000000000000000000005".toList = 5 := by decide +kernel
    rw [value] at five
    exact ((lines _).declared "b" 5 five rfl _).mpr ⟨by decide, rfl⟩
  · exact ((lines _).tooLarge _ _ wrapped rfl).mpr (by decide +kernel)
  · refine ((lines _).applied _ _ last).mpr (List.forall_mem_singleton.mpr ?_)
    exact ⟨0, 4294967290, rfl, by decide +kernel⟩
  · intro accepted
    have held := ((lines _).applied _ _ beyond).mp accepted _ List.mem_cons_self
    have located : Registers.locate? [("a", 4294967290)] "a" = some (0, 4294967290) := rfl
    exact absurd ((holds_iff located).mp held) (by decide +kernel)

end CircuitBench.Assembly
