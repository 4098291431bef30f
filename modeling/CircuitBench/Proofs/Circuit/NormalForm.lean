import CircuitBench.Proofs.Circuit.Building
import Mathlib

/-!
# Normal forms of descriptions

To build the circuit of a description and to describe that circuit again brings the description
into a normal form. Entries that are not recognised are gone, and every gate is spelled as the
catalog spells its type; the number of qubits and the operands are what they were. A second time
changes nothing any more, and the normal form says all about the circuit that there is to say.
-/

namespace CircuitBench

namespace Gate

/-- A name is that of a gate: but for blanks around it and the case of its letters it is the
mnemonic or the type name. -/
def IsCalled (gate : Gate) (name : String) : Prop :=
  Text.foldName name = Text.foldName gate.mnemonic ∨
    Text.foldName name = Text.foldName gate.typeName

theorem foldName_mnemonic (gate : Gate) : Text.foldName gate.mnemonic = gate.mnemonic := by
  cases gate with
  | single gate => cases gate <;> decide +kernel
  | cnot => decide +kernel

/-- Blanks around a name and the case of its letters do not count. -/
theorem ofName?_congr {name other : String} (same : Text.foldName name = Text.foldName other) :
    ofName? name = ofName? other := by
  simp only [ofName?, same]

theorem ofName?_eq_some_iff {gate : Gate} {name : String} :
    ofName? name = some gate ↔ gate.IsCalled name := by
  constructor
  · intro found
    rw [ofName?] at found
    split at found
    next full =>
      cases found
      exact .inr (full.trans (by decide +kernel))
    next =>
      have same : gate.mnemonic = Text.foldName name := by
        simpa using List.find?_some found
      exact .inl (same.symm.trans gate.foldName_mnemonic.symm)
  · rintro (mnemonic | typeName)
    · rw [ofName?_congr mnemonic, ofName?_mnemonic]
    · rw [ofName?_congr typeName, ofName?_typeName]

end Gate

namespace Entry

/-- An entry is kept with the type name of its gate, and everything else is as it was. -/
structure Respelled (entry kept : Entry) : Prop where
  type : ∃ gate : Gate, gate.IsCalled entry.type ∧ kept.type = gate.typeName
  qubits : kept.qubits = entry.qubits
  params : kept.params = entry.params

theorem respelled_of_canonical? {entry kept : Entry} (h : entry.canonical? = some kept) :
    Respelled entry kept := by
  rw [canonical?, Option.map_eq_some_iff] at h
  obtain ⟨gate, known, rfl⟩ := h
  exact ⟨⟨gate, Gate.ofName?_eq_some_iff.mp known, rfl⟩, rfl, rfl⟩

/-- What is spelled as the catalog spells it stays so. -/
theorem canonical?_of_canonical? {entry kept : Entry} (h : entry.canonical? = some kept) :
    kept.canonical? = some kept := by
  rw [canonical?, Option.map_eq_some_iff] at h
  obtain ⟨gate, known, rfl⟩ := h
  exact canonical?_of_gate? (Gate.ofName?_typeName gate)

end Entry

namespace Description

variable {d e n : Description} {c : Circuit}

theorem respelled_canonical (d : Description) :
    List.Forall₂ Entry.Respelled d.recognised.entries d.canonical.entries := by
  obtain ⟨qubits, entries⟩ := d
  simp only [recognised, canonical]
  induction entries with
  | nil => exact .nil
  | cons entry rest ih =>
    cases known : entry.gate? with
    | none =>
      rw [List.filter_cons_of_neg (by simp [known]),
        List.filterMap_cons_none (Entry.canonical?_eq_none known)]
      exact ih
    | some gate =>
      have kept := Entry.canonical?_of_gate? known
      rw [List.filter_cons_of_pos (by simp [known]), List.filterMap_cons_some kept]
      exact .cons (Entry.respelled_of_canonical? kept) ih

theorem canonical_canonical (d : Description) : d.canonical.canonical = d.canonical := by
  rw [canonical, canonical]
  congr 1
  rw [List.filterMap_filterMap]
  refine List.filterMap_congr fun entry _ => ?_
  cases kept : entry.canonical? with
  | none => rfl
  | some found =>
    rw [Option.bind_some]
    exact Entry.canonical?_of_canonical? kept

/-- The description of the circuit that a description has. -/
def normalise (d : Description) : Except CircuitError Description :=
  d.build.map ofCircuit

theorem normalise_of_build (built : d.build = .ok c) : d.normalise = .ok (ofCircuit c) := by
  rw [normalise, built]
  rfl

theorem normalise_eq_ok_iff :
    d.normalise = .ok n ↔ ∃ c, d.build = .ok c ∧ ofCircuit c = n := by
  rw [normalise]
  cases d.build with
  | error e => simp [Except.map]
  | ok c => simp [Except.map]

/-- What has been normalised is left alone. -/
theorem normalise_normalise (normal : d.normalise = .ok n) : n.normalise = .ok n := by
  obtain ⟨c, -, rfl⟩ := normalise_eq_ok_iff.mp normal
  exact normalise_of_build (build_ofCircuit c)

theorem canonical_eq_iff {c' : Circuit} (built : d.build = .ok c) (other : e.build = .ok c') :
    d.canonical = e.canonical ↔ c = c' := by
  rw [← ofCircuit_eq_canonical built, ← ofCircuit_eq_canonical other]
  constructor
  · intro same
    have again := build_ofCircuit c
    rw [same, build_ofCircuit] at again
    exact (Except.ok.inj again).symm
  · intro same
    rw [same]

/-- Every circuit is built again from its own description. The description of the circuit that is
built from another one is the normal form of that: the same number of qubits, and the recognised
entries in their order, each with the type name of its gate and with its operands. Normalising a
second time changes nothing, and descriptions that are accepted build the same circuit just if they
have the same normal form. -/
theorem normal_forms_determine_circuits :
    (∀ c : Circuit, (ofCircuit c).build = .ok c) ∧
    (∀ (d : Description) (c : Circuit), d.build = .ok c →
      ofCircuit c = d.canonical ∧ (ofCircuit c).qubits = d.qubits ∧
        List.Forall₂ Entry.Respelled d.recognised.entries (ofCircuit c).entries) ∧
    (∀ d : Description, d.canonical.canonical = d.canonical) ∧
    (∀ d n : Description, d.normalise = .ok n → n = d.canonical ∧ n.normalise = .ok n) ∧
    ∀ (d e : Description) (c c' : Circuit), d.build = .ok c → e.build = .ok c' →
      (d.canonical = e.canonical ↔ c = c') := by
  refine ⟨build_ofCircuit, ?_, canonical_canonical, ?_, fun _ _ _ _ => canonical_eq_iff⟩
  · intro d c built
    have same := ofCircuit_eq_canonical built
    rw [same]
    exact ⟨rfl, rfl, d.respelled_canonical⟩
  · intro d n normal
    obtain ⟨c, built, rfl⟩ := normalise_eq_ok_iff.mp normal
    exact ⟨ofCircuit_eq_canonical built, normalise_normalise normal⟩

/-- The largest number of qubits there is, operands at both ends of the range, and a gate that is
not in the catalog. -/
def widest : Description :=
  ⟨4294967295, [⟨"\tcNoT ", [4294967294, 0], []⟩, ⟨"rz", [-1], [0.5]⟩, ⟨"cx", [0, 1], []⟩]⟩

theorem normal_forms_determine_circuits_widest :
    widest.normalise = .ok
        ⟨4294967295, [⟨"CNOT", [4294967294, 0], []⟩, ⟨"CNOT", [0, 1], []⟩]⟩ ∧
      widest.canonical =
        ⟨4294967295, [⟨"CNOT", [4294967294, 0], []⟩, ⟨"CNOT", [0, 1], []⟩]⟩ := by
  have normal : widest.normalise = .ok
      ⟨4294967295, [⟨"CNOT", [4294967294, 0], []⟩, ⟨"CNOT", [0, 1], []⟩]⟩ := rfl
  obtain ⟨-, -, -, stable, -⟩ := normal_forms_determine_circuits
  exact ⟨normal, (stable _ _ normal).1.symm⟩

end Description

end CircuitBench
