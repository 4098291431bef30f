import CircuitBench.Proofs.Assembly.Flattening
import CircuitBench.Proofs.Circuit.FaultPosition
import Mathlib

/-!
# What only the whole text can tell

When all lines are read, the operands of each gate stand for qubits of the registers, and two
things can still be wrong with a gate: it has another number of operands, or one operand stands for
both of its qubits. The first such gate is reported with its place among the gates. Before any
gate is looked at, the registers have to have a qubit at all.
-/

namespace CircuitBench.Assembly

/-- What can be wrong with a gate whose operands all stand for qubits. -/
inductive OperandFault (registers : Registers) (gate : Gate) :
    (operands : List Operand) → PlacementFault → Prop where
  | arity {operands : List Operand} (differs : operands.length ≠ gate.arity) :
    OperandFault registers gate operands (.arity operands.length)
  | repeated {operand : Operand} {q : UInt32} (two : gate = .cnot)
      (stands : registers.resolve operand = .ok q) :
    OperandFault registers gate [operand, operand] (.repeated q)

def WellPlaced (registers : Registers) (application : Gate × List Operand) : Prop :=
  ∀ fault, ¬OperandFault registers application.1 application.2 fault

/-- Some gate cannot be placed, and all those in front of it can. The gates are counted from a
number on. -/
inductive Misplaced (registers : Registers) (number : Nat)
    (applications : List (Gate × List Operand)) : CircuitError → Prop where
  | intro (before after : List (Gate × List Operand)) {gate : Gate} {operands : List Operand}
      {fault : PlacementFault} (split : applications = before ++ (gate, operands) :: after)
      (sound : ∀ application ∈ before, WellPlaced registers application)
      (wrong : OperandFault registers gate operands fault) :
    Misplaced registers number applications (.placement gate (number + before.length) fault)

/-- What can be wrong with registers and the gates that are applied to them. -/
inductive WholeFault (registers : Registers) (applications : List (Gate × List Operand)) :
    CircuitError → Prop where
  | empty (nothing : registers.total = 0) : WholeFault registers applications .empty
  | misplaced {e : CircuitError} (something : 0 < registers.total)
      (first : Misplaced registers 0 applications e) : WholeFault registers applications e

namespace Registers

theorem resolveAll_eq_ok_iff {registers : Registers} {operands : List Operand}
    {qubits : List UInt32} :
    registers.resolveAll operands = .ok qubits ↔
      List.Forall₂ (fun operand q => registers.resolve operand = .ok q) operands qubits := by
  induction operands generalizing qubits with
  | nil => simp [resolveAll, eq_comm]
  | cons operand rest ih =>
    rw [resolveAll]
    constructor
    · intro resolved
      cases here : registers.resolve operand with
      | error fault =>
        rw [here] at resolved
        cases resolved
      | ok q =>
        cases behind : registers.resolveAll rest with
        | error fault =>
          simp only [here, behind] at resolved
          cases resolved
        | ok others =>
          simp only [here, behind] at resolved
          cases resolved
          exact .cons here (ih.mp behind)
    · rintro (_ | ⟨here, behind⟩)
      simp only [here, ih.mpr behind]

end Registers

section Place

variable {limit : Nat} {registers : Registers} {gate : Gate} {operands : List Operand}
  {placement : Placement} {fault : PlacementFault}

/-- The qubits of a circuit are as many as the registers have. -/
theorem toNat_total (side : registers.SideBySide limit) :
    (UInt32.ofNat registers.total).toNat = registers.total :=
  UInt32.toNat_ofNat_of_lt' side.within.1

theorem lt_total_of_resolveAll (side : registers.SideBySide limit) {qubits : List UInt32}
    (resolved : registers.resolveAll operands = .ok qubits) :
    ∀ q ∈ qubits, q < UInt32.ofNat registers.total := by
  have stand := Registers.resolveAll_eq_ok_iff.mp resolved
  clear resolved
  induction stand with
  | nil => simp
  | cons here _ ih =>
    refine List.forall_mem_cons.mpr ⟨?_, ih⟩
    rw [UInt32.lt_iff_toNat_lt, toNat_total side]
    exact side.lt_total here

/-- Two operands for one qubit are the same operand. -/
theorem eq_of_resolveAll_pair (side : registers.SideBySide limit) {q : UInt32}
    (resolved : registers.resolveAll operands = .ok [q, q]) :
    ∃ operand, operands = [operand, operand] ∧ registers.resolve operand = .ok q := by
  cases Registers.resolveAll_eq_ok_iff.mp resolved with
  | cons first more =>
    cases more with
    | cons second none =>
      cases none
      obtain rfl := side.resolve_injective first second
      exact ⟨_, rfl, first⟩

theorem place_of_arity {qubits : List UInt32} {width : UInt32}
    (differs : qubits.length ≠ gate.arity) :
    Placement.place ⟨gate, qubits, []⟩ width = .error (.arity qubits.length) := by
  simp only [Placement.place]
  split
  · exact absurd rfl differs
  · exact absurd rfl differs
  · rfl

theorem place_of_repeated {q width : UInt32} (inside : q < width) :
    Placement.place ⟨.cnot, [q, q], []⟩ width = .error (.repeated q) := by
  simp [Placement.place, inside]

/-- A placement is refused if something is wrong with its operands, and for nothing else. -/
theorem place_eq_error_iff (side : registers.SideBySide limit)
    (placed : Places registers (gate, operands) placement) :
    placement.place (UInt32.ofNat registers.total) = .error fault ↔
      OperandFault registers gate operands fault := by
  obtain ⟨gate, qubits, params⟩ := placement
  obtain ⟨rfl, rfl, resolved⟩ := placed
  have length := (Registers.resolveAll_eq_ok_iff.mp resolved).length_eq
  have inside := lt_total_of_resolveAll side resolved
  dsimp only at resolved length inside
  constructor
  · intro refused
    let entry : Entry := ⟨"", qubits.map fun q => Int64.ofNat q.toNat, []⟩
    have breaks : entry.Breaks gate (UInt32.ofNat registers.total) fault :=
      Entry.breaks_of_place rfl refused
    cases breaks with
    | arity differs =>
      have same : entry.qubits.length = operands.length := List.length_map _ |>.trans length.symm
      rw [same] at differs ⊢
      exact .arity differs
    | parameters differs => exact absurd (by cases gate <;> rfl) differs
    | range member outside =>
      obtain ⟨q, found, same⟩ := List.mem_map.mp member
      obtain rfl := Entry.number_injective same
      exact absurd (inside q found) (UInt32.not_lt.mpr outside)
    | @repeated q two same =>
      have pair : qubits = [q, q] := List.map_injective_iff.mpr Entry.number_injective same
      obtain ⟨operand, rfl, stands⟩ := eq_of_resolveAll_pair side (pair ▸ resolved)
      exact .repeated two stands
  · intro wrong
    cases wrong with
    | arity differs =>
      rw [length] at differs ⊢
      exact place_of_arity differs
    | @repeated operand q two stands =>
      obtain rfl := two
      have pair : registers.resolveAll [operand, operand] = .ok [q, q] :=
        Registers.resolveAll_eq_ok_iff.mpr (.cons stands (.cons stands .nil))
      obtain rfl := Except.ok.inj (resolved.symm.trans pair)
      exact place_of_repeated (inside q List.mem_cons_self)

end Place

section Whole

variable {limit number : Nat} {registers : Registers} {contents : Contents}
  {placement : Placement} {applications : List (Gate × List Operand)}
  {placements : List Placement} {e : CircuitError}

theorem circuit_eq_circuit_error_iff :
    contents.circuit = .error (.circuit e) ↔
      contents.registers ≠ [] ∧
        Circuit.ofPlacements (UInt32.ofNat contents.registers.total) contents.placements =
          .error e := by
  rw [Contents.circuit, ne_eq, ← List.isEmpty_iff]
  split
  next empty => simp [empty]
  next some_register =>
    cases Circuit.ofPlacements (UInt32.ofNat contents.registers.total) contents.placements with
    | error e' => simp [some_register]
    | ok circuit => simp

theorem wellPlaced_of_place (side : registers.SideBySide limit) {application : Gate × List Operand}
    (placed : Places registers application placement)
    {op : { op : Operation // op.Fits (UInt32.ofNat registers.total).toNat }}
    (accepted : placement.place (UInt32.ofNat registers.total) = .ok op) :
    WellPlaced registers application := by
  intro fault wrong
  have refused := (place_eq_error_iff side placed).mpr wrong
  rw [accepted] at refused
  cases refused

/-- A gate on well placed operands can stand in front. -/
theorem Misplaced.cons {application : Gate × List Operand}
    (sound : WellPlaced registers application)
    (behind : Misplaced registers (number + 1) applications e) :
    Misplaced registers number (application :: applications) e := by
  obtain ⟨before, after, rfl, all_sound, wrong⟩ := behind
  rw [Nat.add_assoc, Nat.add_comm 1]
  exact .intro (application :: before) after rfl (List.forall_mem_cons.mpr ⟨sound, all_sound⟩)
    wrong

theorem misplaced_of_placeAll (side : registers.SideBySide limit)
    (placed : List.Forall₂ (Places registers) applications placements)
    (failed : Circuit.placeAll (UInt32.ofNat registers.total) number placements = .error e) :
    Misplaced registers number applications e := by
  induction placed generalizing number with
  | nil => cases failed
  | cons here _ ih =>
    rcases Circuit.placeAll_cons_eq_error_iff.mp failed with
      ⟨fault, refused, rfl⟩ | ⟨op, accepted, behind⟩
    · rw [here.gate]
      exact .intro [] _ rfl (by simp) ((place_eq_error_iff side here).mp refused)
    · exact (ih behind).cons (wellPlaced_of_place side here accepted)

theorem placeAll_of_misplaced (side : registers.SideBySide limit)
    (placed : List.Forall₂ (Places registers) applications placements)
    (misplaced : Misplaced registers number applications e) :
    Circuit.placeAll (UInt32.ofNat registers.total) number placements = .error e := by
  obtain ⟨before, after, rfl, sound, wrong⟩ := misplaced
  induction before generalizing number placements with
  | nil =>
    cases placed with
    | cons here behind =>
      refine Circuit.placeAll_cons_eq_error_iff.mpr
        (.inl ⟨_, (place_eq_error_iff side here).mpr wrong, ?_⟩)
      rw [here.gate]
      rfl
  | cons application before ih =>
    obtain ⟨sound_here, sound⟩ := List.forall_mem_cons.mp sound
    cases placed with
    | @cons _ placement _ placements here behind =>
      refine Circuit.placeAll_cons_eq_error_iff.mpr (.inr ?_)
      cases step : placement.place (UInt32.ofNat registers.total) with
      | error fault => exact absurd ((place_eq_error_iff side here).mp step) (sound_here fault)
      | ok op =>
        have failed := @ih (number + 1) placements sound behind
        rw [Nat.add_assoc, Nat.add_comm 1] at failed
        exact ⟨op, rfl, failed⟩

/-- Contents with a register make up a circuit unless something is wrong with the whole. -/
theorem circuit_eq_error_iff (side : contents.registers.SideBySide limit)
    (placed : List.Forall₂ (Places contents.registers) applications contents.placements) :
    contents.circuit = .error (.circuit e) ↔
      contents.registers ≠ [] ∧ WholeFault contents.registers applications e := by
  have width := toNat_total side
  rw [circuit_eq_circuit_error_iff, Circuit.ofPlacements_eq_error_iff]
  refine and_congr_right fun _ => ⟨?_, ?_⟩
  · rintro (⟨nothing, rfl⟩ | ⟨something, failed⟩)
    · exact .empty (width.symm.trans nothing)
    · exact .misplaced (something.trans_eq width) (misplaced_of_placeAll side placed failed)
  · intro wrong
    cases wrong with
    | empty nothing => exact .inl ⟨width.trans nothing, rfl⟩
    | misplaced something first =>
      exact .inr ⟨something.trans_eq width.symm, placeAll_of_misplaced side placed first⟩

end Whole

end CircuitBench.Assembly
