import CircuitBench.Proofs.Assembly.Flattening
import Mathlib

/-!
# Reading with a limit

A limit on the number of qubits is looked at in declarations only, after all that is judged of a
declaration without a limit. So a reading with a limit does what the reading without one does, up to
the first declaration that brings the total above the limit, and there it ends. The largest number
of qubits that indices of 32 bits allow is no limit in this sense: a declaration beyond it is
refused as too large.
-/

namespace CircuitBench.Assembly

/-- A limit makes no difference to a declaration, or it refuses one that fits otherwise. -/
theorem Registers.declare_limit_cases (registers : Registers) (limit : Nat) (name : String)
    (size : Nat) :
    registers.declare limit name size = registers.declare maxQubits name size ∨
      limit < registers.total + size ∧
        registers.declare limit name size =
          .error (.overLimit name (registers.total + size) limit) := by
  unfold Registers.declare
  dsimp only
  split_ifs with twice large beyond most most
  · exact .inl rfl
  · exact .inl rfl
  · exact .inr ⟨beyond, rfl⟩
  · exact .inr ⟨beyond, rfl⟩
  · exact absurd most (by rw [maxQubits]; omega)
  · exact .inl rfl

section Run

variable {limit number : Nat} {registers after middle : Registers} {line : List Char}
  {before rest lines : List (List Char)} {name : String} {size : Nat}

/-- A reading ends at the limit: the lines in front are read as without a limit, and then a line
declares a register that brings the total above the limit. -/
structure Interrupted (limit : Nat) (registers : Registers) (number : Nat)
    (lines before : List (List Char)) (name : String) (size : Nat) (middle : Registers) : Prop where
  declares : ∃ line after, lines = before ++ line :: after ∧
    Statement.ofLine line = .ok (some (.declare name size))
  read : ∃ contents, readLines maxQubits registers number before = .ok contents ∧
    contents.registers = middle
  within : middle.total ≤ limit
  beyond : limit < middle.total + size
  refused : readLines limit registers number lines =
    .error (.statement (number + before.length)
      (.register (.overLimit name (middle.total + size) limit)))

/-- A reading with a limit is the reading without one, or it ends at the limit. -/
def AlikeUpToLimit (limit : Nat) (registers : Registers) (number : Nat)
    (lines : List (List Char)) : Prop :=
  readLines limit registers number lines = readLines maxQubits registers number lines ∨
    ∃ before name size middle, Interrupted limit registers number lines before name size middle

/-- A line is read alike with the limit and without it, and leaves the same registers. -/
structure PassesLine (limit : Nat) (registers : Registers) (number : Nat) (line : List Char)
    (after : Registers) : Prop where
  alike : ∀ {rest}, readLines limit after (number + 1) rest =
      readLines maxQubits after (number + 1) rest →
    readLines limit registers number (line :: rest) =
      readLines maxQubits registers number (line :: rest)
  reads : ∀ {rest contents}, readLines maxQubits after (number + 1) rest = .ok contents →
    ∃ whole, readLines maxQubits registers number (line :: rest) = .ok whole ∧
      whole.registers = contents.registers
  fails : ∀ {rest e}, readLines limit after (number + 1) rest = .error e →
    readLines limit registers number (line :: rest) = .error e

theorem PassesLine.alikeUpToLimit (passes : PassesLine limit registers number line after)
    (behind : AlikeUpToLimit limit after (number + 1) rest) :
    AlikeUpToLimit limit registers number (line :: rest) := by
  rcases behind with same | ⟨before, name, size, middle, ends⟩
  · exact .inl (passes.alike same)
  · obtain ⟨⟨declaring, last, rfl, here⟩, ⟨contents, read, same⟩, within, beyond, refused⟩ := ends
    obtain ⟨whole, read', same'⟩ := passes.reads read
    refine .inr ⟨line :: before, name, size, middle, ⟨declaring, last, rfl, here⟩,
      ⟨whole, read', same'.trans same⟩, within, beyond, ?_⟩
    rw [passes.fails refused, List.length_cons, Nat.add_right_comm, Nat.add_assoc]

theorem passesLine_skip (here : Statement.ofLine line = .ok none) :
    PassesLine limit registers number line registers where
  alike same := by rw [readLines_skip here, readLines_skip here, same]
  reads read := ⟨_, (readLines_skip here).trans read, rfl⟩
  fails failed := (readLines_skip here).trans failed

theorem passesLine_measure {qubit bit : Operand}
    (here : Statement.ofLine line = .ok (some (.measure qubit bit))) :
    PassesLine limit registers number line registers where
  alike same := by rw [readLines_measure here, readLines_measure here, same]
  reads read := ⟨_, (readLines_measure here).trans read, rfl⟩
  fails failed := (readLines_measure here).trans failed

theorem passesLine_declare (here : Statement.ofLine line = .ok (some (.declare name size)))
    (limited : registers.declare limit name size = .ok after)
    (laid : registers.declare maxQubits name size = .ok after) :
    PassesLine limit registers number line after where
  alike same := by rw [readLines_declare here limited, readLines_declare here laid, same]
  reads read := ⟨_, (readLines_declare here laid).trans read, rfl⟩
  fails failed := (readLines_declare here limited).trans failed

theorem passesLine_apply {gate : Gate} {operands : List Operand} {qubits : List UInt32}
    (here : Statement.ofLine line = .ok (some (.apply gate operands)))
    (resolved : registers.resolveAll operands = .ok qubits) :
    PassesLine limit registers number line registers where
  alike same := by simp only [readLines, here, resolved, same]
  reads read := ⟨_, readLines_apply here resolved read, rfl⟩
  fails failed := by simp only [readLines, here, resolved, failed]

theorem alikeUpToLimit (within : registers.total ≤ limit) :
    AlikeUpToLimit limit registers number lines := by
  induction lines generalizing registers number with
  | nil => exact .inl rfl
  | cons line rest ih =>
    cases here : Statement.ofLine line with
    | error fault =>
      refine .inl ?_
      rw [readLines, readLines, here]
    | ok statement =>
      rcases statement with _ | ⟨name, size⟩ | ⟨gate, operands⟩ | ⟨qubit, bit⟩
      · exact (passesLine_skip here).alikeUpToLimit (ih within)
      · rcases registers.declare_limit_cases limit name size with same | ⟨beyond, refused⟩
        · cases laid : registers.declare maxQubits name size with
          | error fault =>
            refine .inl ?_
            simp only [readLines, here, same, laid]
          | ok after =>
            have limited := same.trans laid
            obtain ⟨-, -, within⟩ := Registers.total_declare limited
            exact (passesLine_declare here limited laid).alikeUpToLimit (ih within)
        · refine .inr ⟨[], name, size, registers, ⟨line, rest, rfl, here⟩, ⟨_, rfl, rfl⟩, within,
            beyond, ?_⟩
          simp only [readLines, here, refused]
          rfl
      · cases resolved : registers.resolveAll operands with
        | error fault =>
          refine .inl ?_
          simp only [readLines, here, resolved]
        | ok qubits => exact (passesLine_apply here resolved).alikeUpToLimit (ih within)
      · exact (passesLine_measure here).alikeUpToLimit (ih within)

end Run

theorem total_declarations_mono {front lines : List (List Char)} (begins : front <+: lines) :
    (declarations front).total ≤ (declarations lines).total := by
  obtain ⟨behind, rfl⟩ := begins
  rw [declarations, declarations, List.filterMap_append, Registers.total_append]
  exact Nat.le_add_right _ _

/-- Without a fault, the registers are those that the lines declare. -/
theorem registers_of_readLines {limit : Nat} {lines : List (List Char)} {contents : Contents}
    (read : readLines limit [] 1 lines = .ok contents) :
    contents.registers = declarations lines := by
  obtain ⟨same, -⟩ := contents_of_readLines (.nil limit) read
  rwa [List.nil_append] at same

/-- The circuit of a text has as many qubits as its lines declare. -/
theorem width_of_read {limit : Nat} {source : String} {c : Circuit}
    (accepted : read limit source = .ok c) :
    c.width.toNat = (declarations (Text.lines source.toList)).total := by
  rw [read] at accepted
  split at accepted
  · cases accepted
  next contents found =>
    obtain ⟨-, side, -⟩ := contents_of_readLines (.nil limit) found
    rw [(Contents.circuit_eq_ok accepted).1, UInt32.toNat_ofNat_of_lt' side.within.1,
      registers_of_readLines found]

section Text

variable {limit : Nat} {source : String} {c : Circuit}

/-- Where a reading ends at the limit, the text declares more than that. -/
theorem Interrupted.limit_lt {lines before : List (List Char)} {name : String} {size : Nat}
    {middle : Registers} (ends : Interrupted limit [] 1 lines before name size middle) :
    middle = declarations before ∧ limit < (declarations lines).total := by
  obtain ⟨⟨line, after, rfl, declares⟩, ⟨contents, read, rfl⟩, -, beyond, -⟩ := ends
  have same := registers_of_readLines read
  refine ⟨same, ?_⟩
  have whole : declarations (before ++ line :: after) =
      declarations before ++ (name, size) :: declarations after := by
    rw [declarations, List.filterMap_append,
      List.filterMap_cons_some (declaration?_eq_some_iff.mpr declares)]
    rfl
  rw [same] at beyond
  rw [whole, Registers.total_append, Registers.total]
  omega

theorem read_limit_cases (limit : Nat) (source : String) :
    read limit source = read maxQubits source ∨
      ∃ before name size middle,
        Interrupted limit [] 1 (Text.lines source.toList) before name size middle := by
  have within : Registers.total [] ≤ limit := Nat.zero_le limit
  rcases alikeUpToLimit within with alike | ends
  · refine .inl ?_
    rw [read, read, alike]
  · exact .inr ends

theorem read_eq_ok_iff :
    read limit source = .ok c ↔ read maxQubits source = .ok c ∧ c.width.toNat ≤ limit := by
  rcases read_limit_cases limit source with alike | ⟨before, name, size, middle, ends⟩
  · rw [alike]
    refine ⟨fun accepted => ⟨accepted, ?_⟩, And.left⟩
    exact width_le_of_read (alike.trans accepted)
  · refine iff_of_false (fun accepted => ?_) fun ⟨accepted, most⟩ => ?_
    · rw [read, ends.refused] at accepted
      cases accepted
    · rw [width_of_read accepted] at most
      exact absurd most (Nat.not_le.mpr ends.limit_lt.2)

end Text

/-- A text is read with a limit as without one if its circuit has no more qubits. If it is refused
with a limit, it is so without one, or else a declaration, the first that brings the total of all
declared sizes above the limit, is refused for that, and all lines in front of it are read. -/
theorem limit_only_ends_readings (source : String) (limit : Nat) :
    (∀ c, read limit source = .ok c ↔ read maxQubits source = .ok c ∧ c.width.toNat ≤ limit) ∧
    (∀ e, read limit source = .error e →
      read maxQubits source = .error e ∨
        ∃ before line after name size,
          Text.lines source.toList = before ++ line :: after ∧
          declaration? line = some (name, size) ∧
          (∀ front, front <+: before → (declarations front).total ≤ limit) ∧
          limit < (declarations before).total + size ∧
          e = .statement (before.length + 1)
            (.register (.overLimit name ((declarations before).total + size) limit)) ∧
          ∃ contents, readLines maxQubits [] 1 before = .ok contents) ∧
    ∀ larger c, limit ≤ larger → read limit source = .ok c → read larger source = .ok c := by
  refine ⟨fun c => read_eq_ok_iff, ?_, ?_⟩
  · intro e refused
    rcases read_limit_cases limit source with alike | ⟨before, name, size, middle, ends⟩
    · exact .inl (alike ▸ refused)
    · obtain ⟨rfl, -⟩ := ends.limit_lt
      obtain ⟨⟨line, after, split, declares⟩, ⟨contents, found, -⟩, within, beyond, failed⟩ := ends
      rw [read, failed] at refused
      cases refused
      refine .inr ⟨before, line, after, name, size, split, declaration?_eq_some_iff.mpr declares,
        fun front begins => (total_declarations_mono begins).trans within, beyond, ?_,
        contents, found⟩
      rw [Nat.add_comm]
  · intro larger c most accepted
    obtain ⟨unlimited, width⟩ := read_eq_ok_iff.mp accepted
    exact read_eq_ok_iff.mpr ⟨unlimited, width.trans most⟩

end CircuitBench.Assembly
