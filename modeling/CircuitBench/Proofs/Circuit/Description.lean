import CircuitBench.Circuit.Description

/-!
# Descriptions in canonical form

The canonical form of a description keeps the recognised entries in their order and
calls each gate by the type name of the catalog. A description that has a circuit has
the same one in canonical form, and the circuit's own description is that form.
-/

namespace CircuitBench

theorem toInt_ofNat_toNat (n : UInt32) : (Int64.ofNat n.toNat).toInt = n.toNat := by
  refine Int64.toInt_ofNat_of_lt ?_
  have := n.toNat_lt
  omega

/-- A number of 64 bits that is also one of 32 bits is the same number again. -/
theorem ofNat_toNat_ofNat {n : Int64} (nonneg : 0 ≤ n.toInt) (small : n.toInt < 2 ^ 32) :
    Int64.ofNat (UInt32.ofNat n.toInt.toNat).toNat = n := by
  have fits : n.toInt.toNat < 2 ^ 32 := by omega
  rw [UInt32.toNat_ofNat_of_lt' fits]
  exact Int64.ofNat_toNatClampNeg n (Int64.le_iff_toInt_le.mpr nonneg)

namespace Entry

def canonical? (entry : Entry) : Option Entry :=
  entry.gate?.map fun gate => { entry with type := gate.typeName }

theorem canonical?_of_gate? {entry : Entry} {gate : Gate} (known : entry.gate? = some gate) :
    entry.canonical? = some { entry with type := gate.typeName } := by
  rw [canonical?, known]
  rfl

theorem canonical?_eq_none {entry : Entry} (unknown : entry.gate? = none) :
    entry.canonical? = none := by
  rw [canonical?, unknown]
  rfl

theorem index?_ofNat (q : UInt32) : index? (Int64.ofNat q.toNat) = some q := by
  have small : (q.toNat : Int) < 2 ^ 32 := by
    have := q.toNat_lt
    omega
  rw [index?, toInt_ofNat_toNat, if_pos ⟨Int.natCast_nonneg _, small⟩]
  simp

theorem ofNat_of_index? {n : Int64} {q : UInt32} (h : index? n = some q) :
    Int64.ofNat q.toNat = n := by
  rw [index?] at h
  split at h
  next range =>
    cases h
    exact ofNat_toNat_ofNat range.1 range.2
  · cases h

theorem indices_ofNat (gate : Gate) (position : Nat) (qubits : List UInt32) :
    indices gate position (qubits.map fun q => Int64.ofNat q.toNat) = .ok qubits := by
  induction qubits with
  | nil => rfl
  | cons q rest ih => simp only [List.map_cons, indices, index?_ofNat, ih]

theorem ofNat_of_indices {gate : Gate} {position : Nat} {numbers : List Int64}
    {qubits : List UInt32} (h : indices gate position numbers = .ok qubits) :
    qubits.map (fun q => Int64.ofNat q.toNat) = numbers := by
  induction numbers generalizing qubits with
  | nil =>
    cases h
    rfl
  | cons n rest ih =>
    rw [indices] at h
    split at h
    · cases h
    next index read =>
      split at h
      · cases h
      next found behind =>
        cases h
        rw [List.map_cons, ofNat_of_index? read, ih behind]

end Entry

namespace Placement

def entry (p : Placement) : Entry :=
  ⟨p.gate.typeName, p.qubits.map fun q => Int64.ofNat q.toNat, p.params⟩

/-- What keeps the rules is the placement of the operation that it stands for. -/
theorem eq_ofOperation_of_place {p : Placement} {width : UInt32}
    {op : { op : Operation // op.Fits width.toNat }} (h : p.place width = .ok op) :
    p = ofOperation op := by
  obtain ⟨gate, qubits, params⟩ := p
  simp only [place] at h
  split at h
  next single target =>
    split at h
    · cases h
    next plain =>
      obtain rfl : params = [] := Decidable.not_not.mp plain
      split at h
      · cases h
        rfl
      · cases h
  next control target =>
    split at h
    · cases h
    next plain =>
      obtain rfl : params = [] := Decidable.not_not.mp plain
      repeat' split at h
      all_goals cases h
      rfl
  · cases h

end Placement

namespace Circuit

theorem eq_ofOperation_of_placeAll {width : UInt32} {position : Nat} {placements : List Placement}
    {ops : { ops : List Operation // ∀ op ∈ ops, op.Fits width.toNat }}
    (h : placeAll width position placements = .ok ops) :
    placements = ops.1.map Placement.ofOperation := by
  induction placements generalizing position ops with
  | nil =>
    cases h
    rfl
  | cons p rest ih =>
    rw [placeAll] at h
    split at h
    · cases h
    next op placed =>
      split at h
      · cases h
      next behind placedBehind =>
        cases h
        rw [List.map_cons, ← p.eq_ofOperation_of_place placed, ← ih placedBehind]

/-- The placements that make up a circuit are those of its operations. -/
theorem eq_of_ofPlacements {width : UInt32} {placements : List Placement} {c : Circuit}
    (h : ofPlacements width placements = .ok c) :
    c.width = width ∧ placements = c.ops.map Placement.ofOperation := by
  rw [ofPlacements] at h
  split at h
  · split at h
    · cases h
    next ops placed =>
      cases h
      exact ⟨rfl, eq_ofOperation_of_placeAll placed⟩
  · cases h

end Circuit

namespace Description

/-- The recognised entries in their order, with the type names of the catalog. -/
def canonical (d : Description) : Description :=
  { d with entries := d.entries.filterMap Entry.canonical? }

theorem gate?_ofOperation (op : Operation) : (Entry.ofOperation op).gate? = some op.gate :=
  Gate.ofName?_typeName op.gate

theorem placements_ofOperation (position : Nat) (ops : List Operation) :
    placements position (ops.map Entry.ofOperation) = .ok (ops.map Placement.ofOperation) := by
  induction ops generalizing position with
  | nil => rfl
  | cons op rest ih =>
    have read : Entry.indices op.gate position (Entry.ofOperation op).qubits = .ok op.qubits :=
      Entry.indices_ofNat op.gate position op.qubits
    simp only [List.map_cons, placements, gate?_ofOperation, read, ih]
    rfl

theorem filterMap_canonical?_of_placements {position : Nat} {entries : List Entry}
    {found : List Placement} (h : placements position entries = .ok found) :
    entries.filterMap Entry.canonical? = found.map Placement.entry := by
  induction entries generalizing position found with
  | nil =>
    cases h
    rfl
  | cons entry rest ih =>
    rw [placements] at h
    split at h
    next unknown =>
      rw [List.filterMap_cons_none (Entry.canonical?_eq_none unknown)]
      exact ih h
    next gate known =>
      split at h
      · cases h
      next qubits read =>
        split at h
        · cases h
        next behind placed =>
          cases h
          have kept : entry.canonical? = some (Placement.entry ⟨gate, qubits, entry.params⟩) := by
            rw [Entry.canonical?_of_gate? known, Placement.entry, Entry.ofNat_of_indices read]
          rw [List.filterMap_cons_some kept, ih placed, List.map_cons]

theorem width?_ofCircuit (c : Circuit) : (ofCircuit c).width? = some c.width := by
  have := c.width_pos
  have := c.width.toNat_lt
  have range : 1 ≤ (c.width.toNat : Int) ∧ (c.width.toNat : Int) < 2 ^ 32 := by omega
  rw [width?, ofCircuit, toInt_ofNat_toNat, if_pos range]
  simp

theorem ofNat_of_width? {d : Description} {width : UInt32} (h : d.width? = some width) :
    Int64.ofNat width.toNat = d.qubits := by
  rw [width?] at h
  split at h
  next range =>
    cases h
    exact ofNat_toNat_ofNat (by omega) range.2
  · cases h

/-- A circuit is built again from its own description. -/
theorem build_ofCircuit (c : Circuit) : (ofCircuit c).build = .ok c := by
  rw [build, width?_ofCircuit]
  simp only [ofCircuit, placements_ofOperation, Circuit.ofPlacements_ofOperation]

/-- The description of the circuit that is built is the canonical form of the description. -/
theorem ofCircuit_eq_canonical {d : Description} {c : Circuit} (h : d.build = .ok c) :
    ofCircuit c = d.canonical := by
  rw [build] at h
  split at h
  · cases h
  next width wide =>
    split at h
    · cases h
    next found placed =>
      obtain ⟨same, operations⟩ := Circuit.eq_of_ofPlacements h
      rw [ofCircuit, canonical, filterMap_canonical?_of_placements placed, operations, same,
        ofNat_of_width? wide, List.map_map]
      rfl

end Description

end CircuitBench
