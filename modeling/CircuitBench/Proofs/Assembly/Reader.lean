import CircuitBench.Assembly.Reader
import CircuitBench.Proofs.Circuit.Description

/-!
# Reading line by line

What one line does to the reading of a text: it is passed over, it declares a register,
or it places a gate. Every declaration keeps the number of qubits within the limit and
within the indices of 32 bits, so the circuit of a text has exactly as many qubits as
its registers together, and no more than the limit.
-/

namespace CircuitBench.Assembly

theorem mapError_eq_ok_iff {ε ε' α : Type} {f : ε → ε'} {result : Except ε α} {value : α} :
    result.mapError f = .ok value ↔ result = .ok value := by
  constructor
  · intro same
    cases result with
    | error e => cases same
    | ok a =>
      cases same
      rfl
  · rintro rfl
    rfl

section Step

variable {limit number : Nat} {registers : Registers} {line : List Char} {rest : List (List Char)}

theorem readLines_skip (h : Statement.ofLine line = .ok none) :
    readLines limit registers number (line :: rest) =
      readLines limit registers (number + 1) rest := by
  rw [readLines, h]

theorem readLines_measure {qubit bit : Operand}
    (h : Statement.ofLine line = .ok (some (.measure qubit bit))) :
    readLines limit registers number (line :: rest) =
      readLines limit registers (number + 1) rest := by
  rw [readLines, h]

theorem readLines_declare {name : String} {size : Nat} {after : Registers}
    (h : Statement.ofLine line = .ok (some (.declare name size)))
    (declared : registers.declare limit name size = .ok after) :
    readLines limit registers number (line :: rest) =
      readLines limit after (number + 1) rest := by
  simp only [readLines, h, declared]

theorem readLines_apply {gate : Gate} {operands : List Operand} {qubits : List UInt32}
    {contents : Contents} (h : Statement.ofLine line = .ok (some (.apply gate operands)))
    (resolved : registers.resolveAll operands = .ok qubits)
    (behind : readLines limit registers (number + 1) rest = .ok contents) :
    readLines limit registers number (line :: rest) =
      .ok { contents with placements := ⟨gate, qubits, []⟩ :: contents.placements } := by
  simp only [readLines, h, resolved, behind]

end Step

namespace Registers

/-- The number of qubits is one that the limit and indices of 32 bits allow. -/
def Within (limit : Nat) (registers : Registers) : Prop :=
  registers.total < 2 ^ 32 ∧ registers.total ≤ limit

theorem within_nil (limit : Nat) : Within limit [] :=
  ⟨by decide, Nat.zero_le limit⟩

theorem within_declare {limit size : Nat} {name : String} {registers after : Registers}
    (h : registers.declare limit name size = .ok after) : Within limit after :=
  (total_declare h).2

end Registers

theorem within_readLines {limit number : Nat} {registers : Registers} {lines : List (List Char)}
    {contents : Contents} (within : registers.Within limit)
    (h : readLines limit registers number lines = .ok contents) :
    contents.registers.Within limit := by
  induction lines generalizing registers number contents with
  | nil =>
    cases h
    exact within
  | cons line rest ih =>
    rw [readLines] at h
    split at h
    · cases h
    · split at h
      · cases h
      · exact ih (Registers.within_declare ‹_›) h
    · split at h
      · cases h
      · split at h
        · cases h
        · next behind =>
          have kept := ih within behind
          cases h
          exact kept
    · exact ih within h

/-- A circuit that is read keeps to the limit. -/
theorem width_le_of_read {limit : Nat} {source : String} {c : Circuit}
    (h : read limit source = .ok c) : c.width.toNat ≤ limit := by
  rw [read] at h
  split at h
  · cases h
  next contents read =>
    obtain ⟨indexed, within⟩ := within_readLines (Registers.within_nil limit) read
    rw [Contents.circuit] at h
    split at h
    · cases h
    · split at h
      next circuit made =>
        cases h
        rw [(Circuit.eq_of_ofPlacements made).1, UInt32.toNat_ofNat_of_lt' indexed]
        exact within
      · cases h

end CircuitBench.Assembly
