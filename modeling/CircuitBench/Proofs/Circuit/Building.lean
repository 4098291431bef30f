import CircuitBench.Proofs.Circuit.Description
import Mathlib

/-!
# Which descriptions have a circuit

Indices are read in a first pass over the description and all other rules are tried in a
second one. Together the two passes accept a description if and only if its number of
qubits is one that circuits have and every recognised entry is sound by itself: as many
indices as its gate takes, no parameters, every index that of a qubit, and no index twice.

The circuit is then the one whose own description is the canonical form, so entries that
are not recognised have no part in it. They do not change what is wrong with a
description either, only the position that is reported for a number that is no index.
-/

namespace CircuitBench

theorem Gate.typeName_injective {gate other : Gate} (h : gate.typeName = other.typeName) :
    gate = other := by
  have found := ofTypeName?_typeName gate
  rw [h, ofTypeName?_typeName] at found
  exact (Option.some.inj found).symm

namespace Entry

def call? (entry : Entry) : Option (Gate × List Int) :=
  entry.gate?.map fun gate => (gate, entry.qubits.map Int64.toInt)

/-- What an entry for a gate has to keep to on a number of qubits. -/
structure Sound (gate : Gate) (qubits : Int64) (entry : Entry) : Prop where
  arity : entry.qubits.length = gate.arity
  plain : entry.params = []
  inside : ∀ q ∈ entry.qubits, 0 ≤ q.toInt ∧ q.toInt < qubits.toInt
  distinct : gate = .cnot → entry.qubits.Nodup

theorem number_injective : Function.Injective fun q : UInt32 => Int64.ofNat q.toNat := by
  intro p q same
  have read : index? (Int64.ofNat p.toNat) = index? (Int64.ofNat q.toNat) := congrArg index? same
  rw [index?_ofNat, index?_ofNat] at read
  exact Option.some.inj read

/-- A number within the range of a circuit is the number of one of its qubits. -/
theorem exists_qubit {n : Int64} {width : UInt32} (nonneg : 0 ≤ n.toInt)
    (below : n.toInt < width.toNat) : ∃ q : UInt32, q.toNat < width.toNat ∧
      Int64.ofNat q.toNat = n := by
  have small := width.toNat_lt
  refine ⟨UInt32.ofNat n.toInt.toNat, ?_, ofNat_toNat_ofNat nonneg (by omega)⟩
  rw [UInt32.toNat_ofNat_of_lt' (by omega : n.toInt.toNat < 2 ^ 32)]
  omega

/-- An entry with the type name of the catalog is that of an operation that fits just if it is
sound. -/
theorem exists_ofOperation_iff {entry : Entry} {gate : Gate} {qubits : Int64} {width : UInt32}
    (same : (width.toNat : Int) = qubits.toInt) :
    (∃ op : Operation, op.Fits width.toNat ∧
        ofOperation op = { entry with type := gate.typeName }) ↔
      entry.Sound gate qubits := by
  obtain ⟨type, numbers, params⟩ := entry
  constructor
  · rintro ⟨op, fits, eq⟩
    simp only [ofOperation, Entry.mk.injEq] at eq
    obtain ⟨name, rfl, rfl⟩ := eq
    obtain rfl := Gate.typeName_injective name
    refine ⟨by simp, rfl, ?_, fun _ => fits.2.map number_injective⟩
    intro n member
    obtain ⟨q, inside, rfl⟩ := List.mem_map.mp member
    have below := fits.1 q inside
    rw [toInt_ofNat_toNat, ← same]
    omega
  · rintro ⟨arity, plain, inside, distinct⟩
    simp only at arity plain inside distinct
    subst plain
    rw [← same] at inside
    cases gate with
    | single gate =>
      obtain ⟨n, rfl⟩ := List.length_eq_one_iff.mp arity
      obtain ⟨q, below, rfl⟩ := exists_qubit (inside n (by simp)).1 (inside n (by simp)).2
      exact ⟨.single gate q, Operation.fits_single.mpr below, rfl⟩
    | cnot =>
      obtain ⟨m, n, rfl⟩ := List.length_eq_two.mp arity
      obtain ⟨c, belowC, rfl⟩ := exists_qubit (inside m (by simp)).1 (inside m (by simp)).2
      obtain ⟨t, belowT, rfl⟩ := exists_qubit (inside n (by simp)).1 (inside n (by simp)).2
      have apart : c ≠ t := by
        rintro rfl
        simp at distinct
      exact ⟨.cnot c t, Operation.fits_cnot.mpr ⟨belowC, belowT, apart⟩, rfl⟩

theorem call?_of_canonical? {entry kept : Entry} (h : entry.canonical? = some kept) :
    kept.call? = entry.call? := by
  rw [canonical?, Option.map_eq_some_iff] at h
  obtain ⟨gate, known, rfl⟩ := h
  rw [call?, call?, known, gate?, Gate.ofName?_typeName]

end Entry

namespace Operation

def call (op : Operation) : Gate × List Int :=
  (op.gate, op.qubits.map fun q => (q.toNat : Int))

theorem call?_ofOperation (op : Operation) : (Entry.ofOperation op).call? = some op.call := by
  have numbers : (Entry.ofOperation op).qubits.map Int64.toInt =
      op.qubits.map fun q => (q.toNat : Int) := by
    rw [Entry.ofOperation, List.map_map]
    exact List.map_congr_left fun q _ => toInt_ofNat_toNat q
  rw [Entry.call?, Description.gate?_ofOperation, Option.map_some, numbers, call]

end Operation

namespace Description

/-- What a description has to keep to for a circuit: each recognised entry by itself. -/
structure Sound (d : Description) : Prop where
  qubits : 1 ≤ d.qubits.toInt ∧ d.qubits.toInt ≤ 2 ^ 32 - 1
  entries : ∀ entry ∈ d.entries, ∀ gate, entry.gate? = some gate → entry.Sound gate d.qubits

def recognised (d : Description) : Description :=
  { d with entries := d.entries.filter fun entry => entry.gate?.isSome }

theorem width?_eq_some_iff {d : Description} {width : UInt32} :
    d.width? = some width ↔ 0 < width.toNat ∧ Int64.ofNat width.toNat = d.qubits := by
  have small := width.toNat_lt
  constructor
  · intro h
    have same := ofNat_of_width? h
    refine ⟨?_, same⟩
    rw [width?, ← same, toInt_ofNat_toNat] at h
    by_contra zero
    rw [if_neg (by omega)] at h
    cases h
  · rintro ⟨pos, same⟩
    rw [width?, ← same, toInt_ofNat_toNat, if_pos (by omega)]
    simp

/-- Reading the placements of entries succeeds with what has the same canonical form. -/
theorem placements_eq_ok_iff {position : Nat} {entries : List Entry} {found : List Placement} :
    placements position entries = .ok found ↔
      entries.filterMap Entry.canonical? = found.map Placement.entry := by
  refine ⟨filterMap_canonical?_of_placements, ?_⟩
  induction entries generalizing position found with
  | nil =>
    intro same
    obtain rfl := List.map_eq_nil_iff.mp same.symm
    rfl
  | cons entry rest ih =>
    intro same
    cases known : entry.gate? with
    | none =>
      rw [List.filterMap_cons_none (Entry.canonical?_eq_none known)] at same
      simp only [placements, known, ih same]
    | some gate =>
      rw [List.filterMap_cons_some (Entry.canonical?_of_gate? known)] at same
      obtain ⟨p, behind, rfl, first, later⟩ := List.map_eq_cons_iff.mp same.symm
      obtain ⟨other, qubits, params⟩ := p
      simp only [Placement.entry, Entry.mk.injEq] at first
      obtain ⟨name, numbers, rfl⟩ := first
      obtain rfl := Gate.typeName_injective name
      have read : Entry.indices other position entry.qubits = .ok qubits := by
        rw [← numbers]
        exact Entry.indices_ofNat other position qubits
      simp only [placements, known, read, ih later.symm]

/-- A description has the circuit whose own description is its canonical form, and no other. -/
theorem build_eq_ok_iff {d : Description} {c : Circuit} :
    d.build = .ok c ↔ d.canonical = ofCircuit c := by
  refine ⟨fun built => (ofCircuit_eq_canonical built).symm, ?_⟩
  intro same
  obtain ⟨qubits, entries⟩ := d
  simp only [canonical, ofCircuit, Description.mk.injEq] at same
  obtain ⟨rfl, same⟩ := same
  have wide : width? ⟨Int64.ofNat c.width.toNat, entries⟩ = some c.width :=
    width?_eq_some_iff.mpr ⟨c.width_pos, rfl⟩
  have placed : placements 0 entries = .ok (c.ops.map Placement.ofOperation) := by
    rw [placements_eq_ok_iff, same, List.map_map]
    rfl
  simp only [build, wide, placed, Circuit.ofPlacements_ofOperation]

/-- The recognised entries of a sound description are those of operations that fit. -/
theorem Sound.exists_operations {d : Description} {width : UInt32} (sound : d.Sound)
    (same : (width.toNat : Int) = d.qubits.toInt) :
    ∃ ops : List Operation, (∀ op ∈ ops, op.Fits width.toNat) ∧
      d.entries.filterMap Entry.canonical? = ops.map Entry.ofOperation := by
  obtain ⟨ops, eq⟩ : d.entries.filterMap Entry.canonical? ∈ Set.range
      (List.map fun op : { op : Operation // op.Fits width.toNat } => Entry.ofOperation op.1) := by
    rw [Set.range_list_map]
    intro kept member
    obtain ⟨entry, inside, canonical⟩ := List.mem_filterMap.mp member
    rw [Entry.canonical?, Option.map_eq_some_iff] at canonical
    obtain ⟨gate, known, rfl⟩ := canonical
    obtain ⟨op, fits, eq⟩ :=
      (Entry.exists_ofOperation_iff same).mpr (sound.entries entry inside gate known)
    exact ⟨⟨op, fits⟩, eq⟩
  refine ⟨ops.map Subtype.val, ?_, ?_⟩
  · intro op member
    obtain ⟨fitting, -, rfl⟩ := List.mem_map.mp member
    exact fitting.2
  · rw [← eq, List.map_map]
    rfl

/-- There is a circuit for a description if and only if the description is sound. -/
theorem exists_build_iff {d : Description} : (∃ c, d.build = .ok c) ↔ d.Sound := by
  simp only [build_eq_ok_iff]
  constructor
  · rintro ⟨c, same⟩
    have qubits : Int64.ofNat c.width.toNat = d.qubits := congrArg Description.qubits same.symm
    have width : (c.width.toNat : Int) = d.qubits.toInt := by rw [← qubits, toInt_ofNat_toNat]
    have pos := c.width_pos
    have small := c.width.toNat_lt
    refine ⟨by omega, ?_⟩
    intro entry member gate known
    have inside : { entry with type := gate.typeName } ∈ (ofCircuit c).entries := by
      rw [← same]
      exact List.mem_filterMap.mpr ⟨entry, member, Entry.canonical?_of_gate? known⟩
    obtain ⟨op, opMember, eq⟩ := List.mem_map.mp inside
    exact (Entry.exists_ofOperation_iff width).mp ⟨op, c.fits op opMember, eq⟩
  · intro sound
    have range := sound.qubits
    obtain ⟨width, wide⟩ : ∃ width, d.width? = some width := by
      rw [width?, if_pos (by omega)]
      exact ⟨_, rfl⟩
    obtain ⟨pos, number⟩ := width?_eq_some_iff.mp wide
    have same : (width.toNat : Int) = d.qubits.toInt := by rw [← number, toInt_ofNat_toNat]
    obtain ⟨ops, fit, eq⟩ := sound.exists_operations same
    exact ⟨⟨width, ops, pos, fit⟩, by rw [canonical, ofCircuit, number, eq]⟩

theorem canonical_recognised (d : Description) : d.recognised.canonical = d.canonical := by
  rw [canonical, canonical, recognised]
  congr 1
  rw [List.filterMap_filter]
  refine List.filterMap_congr fun entry _ => ?_
  cases known : entry.gate? <;> simp [Entry.canonical?, known]

theorem calls_canonical (d : Description) :
    d.canonical.entries.filterMap Entry.call? = d.entries.filterMap Entry.call? := by
  rw [canonical, List.filterMap_filterMap]
  refine List.filterMap_congr fun entry _ => ?_
  cases known : entry.gate? with
  | none =>
    rw [Entry.canonical?_eq_none known, Entry.call?, known]
    rfl
  | some gate =>
    have kept := Entry.canonical?_of_gate? known
    rw [kept, Option.bind_some, Entry.call?_of_canonical? kept]

theorem calls_ofCircuit (c : Circuit) :
    (ofCircuit c).entries.filterMap Entry.call? = c.ops.map Operation.call := by
  rw [ofCircuit, List.filterMap_map]
  have each : Entry.call? ∘ Entry.ofOperation = fun op => some op.call := by
    funext op
    rw [Function.comp_apply, Operation.call?_ofOperation]
  rw [each, ← List.filterMap_eq_map]
  rfl

end Description

/-- The error with every number that is no index reported at the first position. -/
def CircuitError.withoutPosition : CircuitError → CircuitError
  | index gate _ qubit => index gate 0 qubit
  | other => other

theorem Entry.indices_position (gate : Gate) (position other : Nat) (numbers : List Int64) :
    (indices gate position numbers).mapError CircuitError.withoutPosition =
      (indices gate other numbers).mapError CircuitError.withoutPosition := by
  induction numbers with
  | nil => rfl
  | cons n rest ih =>
    simp only [indices]
    cases index? n with
    | none => rfl
    | some q =>
      cases here : indices gate position rest <;> cases there : indices gate other rest <;>
        simp_all [Except.mapError]

namespace Description

/-- Entries that are not recognised are passed over; behind them the positions go on. -/
theorem placements_recognised (position other : Nat) (entries : List Entry) :
    (placements position (entries.filter fun entry => entry.gate?.isSome)).mapError
        CircuitError.withoutPosition =
      (placements other entries).mapError CircuitError.withoutPosition := by
  induction entries generalizing position other with
  | nil => rfl
  | cons entry rest ih =>
    cases known : entry.gate? with
    | none =>
      rw [List.filter_cons_of_neg (by simp [known])]
      simp only [placements, known]
      exact ih position (other + 1)
    | some gate =>
      rw [List.filter_cons_of_pos (by simp [known])]
      have operands := Entry.indices_position gate position other entry.qubits
      have behind := ih (position + 1) (other + 1)
      simp only [placements, known]
      generalize Entry.indices gate position entry.qubits = here at operands ⊢
      generalize Entry.indices gate other entry.qubits = there at operands ⊢
      generalize placements (position + 1) (rest.filter _) = kept at behind ⊢
      generalize placements (other + 1) rest = all at behind ⊢
      cases here <;> cases there <;> cases kept <;> cases all <;> simp_all [Except.mapError]

theorem build_recognised (d : Description) :
    d.recognised.build.mapError CircuitError.withoutPosition =
      d.build.mapError CircuitError.withoutPosition := by
  have same : d.recognised.width? = d.width? := rfl
  have read := placements_recognised 0 0 d.entries
  simp only [build, same]
  cases d.width? with
  | none => rfl
  | some width =>
    simp only [recognised]
    generalize placements 0 (d.entries.filter _) = kept at read ⊢
    generalize placements 0 d.entries = all at read ⊢
    cases kept <;> cases all <;> simp_all [Except.mapError]

theorem gate?_of_empty (qubits : List Int64) (params : List Float) :
    (⟨"", qubits, params⟩ : Entry).gate? = none := by
  have unknown : Gate.ofName? "" = none := by decide +kernel
  rw [Entry.gate?, unknown]

/-- A description has a circuit if and only if its qubits are from `1` to `2 ^ 32 - 1` and each
recognised entry is sound. The circuit has that many qubits, and its operations are the recognised
entries in their order with their operands. Without the entries that are not recognised, those of
an empty type among them, the outcome is the same: the same circuit, or the same error up to the
position of an index. -/
theorem build_is_decided_by_recognised_entries (d : Description) :
    ((∃ c, d.build = .ok c) ↔ d.Sound) ∧
    (∀ c, d.build = .ok c → (c.width.toNat : Int) = d.qubits.toInt ∧
      c.ops.map Operation.call = d.entries.filterMap Entry.call?) ∧
    (∀ qubits params, (⟨"", qubits, params⟩ : Entry).gate? = none) ∧
    (∀ c, d.recognised.build = .ok c ↔ d.build = .ok c) ∧
    d.recognised.build.mapError CircuitError.withoutPosition =
      d.build.mapError CircuitError.withoutPosition := by
  refine ⟨exists_build_iff, ?_, gate?_of_empty, ?_, d.build_recognised⟩
  · intro c built
    have same := build_eq_ok_iff.mp built
    constructor
    · rw [← toInt_ofNat_toNat]
      exact congrArg (fun e => e.qubits.toInt) same.symm
    · rw [← calls_ofCircuit, ← same, calls_canonical]
  · intro c
    rw [build_eq_ok_iff, build_eq_ok_iff, canonical_recognised]

/-- A description with blanks, an alias, an empty type and an unknown one whose operands would not
do. -/
def sparse : Description :=
  ⟨3, [⟨" cx ", [2, 0], []⟩, ⟨"", [-5], [0.5]⟩, ⟨"ccx", [0, 0, 9], []⟩, ⟨"T", [1], []⟩]⟩

theorem build_sparse : ∃ c, sparse.build = .ok c ∧ c.width.toNat = 3 ∧
    c.ops.map Operation.call = [(.cnot, [2, 0]), (.single .t, [1])] ∧
    sparse.recognised.build = .ok c := by
  obtain ⟨-, result, -, unchanged, -⟩ := build_is_decided_by_recognised_entries sparse
  have built : sparse.build = .ok ⟨3, [.cnot 2 0, .single .t 1], by decide, by decide⟩ := rfl
  have calls : sparse.entries.filterMap Entry.call? = [(.cnot, [2, 0]), (.single .t, [1])] := by
    decide +kernel
  obtain ⟨width, ops⟩ := result _ built
  exact ⟨_, built, Int.ofNat.inj width, ops.trans calls, (unchanged _).mpr built⟩

end Description

end CircuitBench
