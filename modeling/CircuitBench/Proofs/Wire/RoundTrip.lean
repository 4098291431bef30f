import CircuitBench.Proofs.Wire.Variation
import CircuitBench.Proofs.Sampling.Histogram
import CircuitBench.Wire.Message
import CircuitBench.Wire.Settings
import Mathlib

/-!
# What is sent is read again

Each record writes all of its members or leaves out those that are what they are read as when they
are missing: no value, or an empty list. Other defaults stand for members that are always written,
so a default that differs from the value never takes its place. Requests, responses, settings and
what they are made of are read as they were sent, also after the members of their objects have
changed places or members with other names have been added.
-/

namespace CircuitBench

open Json

instance : NeverNull String := ⟨rfl⟩
instance : NeverNull Nat := ⟨rfl⟩
instance : NeverNull UInt32 := ⟨rfl⟩
instance : NeverNull UInt64 := ⟨rfl⟩
instance : NeverNull Histogram := ⟨rfl⟩

instance {α : Type} [Wire α] : NeverNull (Array α) := ⟨rfl⟩

section Histograms

instance : Sendable Histogram where
  variation := .table

/-- Pairs with keys that are not there yet are read as further entries. -/
theorem Histogram.exists_ofFields? {pairs : List (String × UInt64)} {h : Histogram}
    (nodup : ((pairs ++ h.entries).map Prod.fst).Nodup) :
    ∃ read, Histogram.ofFields? (pairs.map fun (key, count) => (key, encode count)) h = some read ∧
      read.entries.Perm (pairs ++ h.entries) := by
  induction pairs generalizing h with
  | nil => exact ⟨h, rfl, .refl _⟩
  | cons pair rest ih =>
    obtain ⟨key, count⟩ := pair
    simp only [List.cons_append, List.map_cons, List.nodup_cons] at nodup
    have fresh : key ∉ h.entries.map Prod.fst := fun member =>
      nodup.1 (by rw [List.map_append]; exact List.mem_append_right _ member)
    have added : (Dictionary.insert h key count).entries.Perm ((key, count) :: h.entries) :=
      Dictionary.put_perm _ count fresh
    have moved : (rest ++ (Dictionary.insert h key count).entries).Perm
        ((key, count) :: (rest ++ h.entries)) :=
      (added.append_left rest).trans List.perm_middle
    obtain ⟨read, found, order⟩ := ih (h := Dictionary.insert h key count) (by
      rw [(moved.map Prod.fst).nodup_iff, List.map_cons, List.nodup_cons]
      exact nodup)
    refine ⟨read, ?_, order.trans moved⟩
    simpa [Histogram.ofFields?] using found

instance : Stable Histogram where
  decode?_of_permits h _ sent permitted := by
    change Variation.TablePermits (.object (h.entries.map fun (key, count) => (key, encode count)))
      sent at permitted
    have reordered : ∃ fields, sent = .object fields ∧
        fields.Perm (h.entries.map fun (key, count) => (key, encode count)) := by
      cases permitted with
      | same => exact ⟨_, rfl, .refl _⟩
      | object order => exact ⟨_, rfl, order⟩
    obtain ⟨fields, rfl, order⟩ := reordered
    obtain ⟨pairs, rfl, same⟩ : Relation.Comp
        (fun found pairs => found = List.map (fun (key, count) => (key, encode count)) pairs)
        List.Perm fields h.entries := by
      rw [List.eq_map_comp_perm]
      exact order
    obtain ⟨read, found, entries⟩ := @Histogram.exists_ofFields? pairs .empty (by
      rw [Dictionary.entries_empty, List.append_nil, (same.map Prod.fst).nodup_iff]
      exact h.nodup_keys)
    rw [Dictionary.entries_empty, List.append_nil] at entries
    refine found.trans (congrArg some (Dictionary.eq_of_mem_iff fun _ _ => ?_))
    exact (entries.trans same).mem_iff

end Histograms

section Circuits

instance : Sendable Entry where
  variation := .record [("type", variation String), ("qubits", variation (List Int64)),
    ("params", variation (List Float))]
  AllFinite entry := AllFinite entry.params

instance : Stable Entry where
  decode?_of_permits entry finite sent permitted := by
    obtain ⟨sent, rfl, carries⟩ := Variation.exists_carries permitted
    have type := withDefault_eq carries "type" entry.type "" (by simp) (by simp) trivial
    have qubits := withDefault_eq carries "qubits" entry.qubits [] (by simp) (by simp)
      fun _ _ => trivial
    have params := withDefault_eq carries "params" entry.params [] (by simp) (by simp) finite
    simp [decode?, type, qubits, params]

instance : Sendable Description where
  variation := .record [("qubits", variation Int64), ("gates", variation (List Entry))]
  AllFinite d := AllFinite d.entries

instance : Stable Description where
  decode?_of_permits d finite sent permitted := by
    obtain ⟨sent, rfl, carries⟩ := Variation.exists_carries permitted
    have qubits := withDefault_eq carries "qubits" d.qubits 1 (by simp) (by simp) trivial
    have entries := withDefault_eq carries "gates" d.entries [] (by simp) (by simp) finite
    simp [decode?, qubits, entries]

instance : Sendable Placement where
  variation := .record [("kind", variation Gate), ("qubits", variation (List UInt32)),
    ("params", variation (List Float))]
  AllFinite p := AllFinite p.params

instance : Stable Placement where
  decode?_of_permits p finite sent permitted := by
    obtain ⟨sent, rfl, carries⟩ := Variation.exists_carries permitted
    have gate := required_eq carries "kind" p.gate (by simp) (by simp) trivial
    have qubits := required_eq carries "qubits" p.qubits (by simp) (by simp) fun _ _ => trivial
    have params := required_eq carries "params" p.params (by simp) (by simp) finite
    simp [decode?, gate, qubits, params]

end Circuits

section Backends

instance : Sendable (Amplitude Float) where
  variation := .record [("real", variation Float), ("imag", variation Float)]
  AllFinite a := AllFinite a.re ∧ AllFinite a.im

instance : Stable (Amplitude Float) where
  decode?_of_permits a finite sent permitted := by
    obtain ⟨sent, rfl, carries⟩ := Variation.exists_carries permitted
    have re := required_eq carries "real" a.re (by simp) (by simp) finite.1
    have im := required_eq carries "imag" a.im (by simp) (by simp) finite.2
    simp [decode?, re, im]

instance : Sendable Capabilities where
  variation := .record [("name", variation String), ("generation", variation Generation),
    ("max_qubits", variation UInt32), ("max_shots", variation UInt32),
    ("statevector", variation Bool), ("features", variation (List String))]

instance : Stable Capabilities where
  decode?_of_permits c _ sent permitted := by
    obtain ⟨sent, rfl, carries⟩ := Variation.exists_carries permitted
    have name := required_eq carries "name" c.name (by simp) (by simp) trivial
    have generation := required_eq carries "generation" c.generation (by simp) (by simp) trivial
    have maxQubits := required_eq carries "max_qubits" c.maxQubits (by simp) (by simp) trivial
    have maxShots := required_eq carries "max_shots" c.maxShots (by simp) (by simp) trivial
    have statevector := required_eq carries "statevector" c.statevector (by simp) (by simp) trivial
    have features := withDefault_eq_getD carries "features"
      (if c.features.isEmpty then none else some c.features) [] (by simp) (by simp)
      fun _ _ _ _ => trivial
    have kept : (if c.features.isEmpty then none else some c.features).getD [] = c.features := by
      cases c.features <;> rfl
    rw [kept] at features
    simp [decode?, name, generation, maxQubits,
      maxShots, statevector, features]

instance : Sendable BackendOptions where
  variation := .record [("name", variation String), ("max_qubits", variation UInt32),
    ("seed", variation UInt64)]

instance : Stable BackendOptions where
  decode?_of_permits o _ sent permitted := by
    obtain ⟨sent, rfl, carries⟩ := Variation.exists_carries permitted
    have name := required_eq carries "name" o.name (by simp) (by simp) trivial
    have maxQubits := withDefault_none_eq carries "max_qubits" o.maxQubits (by simp) (by simp)
      fun _ _ => trivial
    have seed := withDefault_none_eq carries "seed" o.seed (by simp) (by simp) fun _ _ => trivial
    simp [decode?, name, maxQubits, seed]

end Backends

section Settings

instance : Sendable ExecutionSettings where
  variation := .record [("default_shots", variation UInt32), ("max_shots", variation UInt32),
    ("timeout_secs", variation UInt64), ("statevector_max_qubits", variation UInt32),
    ("max_qubits", variation UInt32)]

instance : Stable ExecutionSettings where
  decode?_of_permits s _ sent permitted := by
    obtain ⟨sent, rfl, carries⟩ := Variation.exists_carries permitted
    have defaultShots := fun standard => withDefault_eq carries "default_shots" s.defaultShots
      standard (by simp) (by simp) trivial
    have maxShots := fun standard => withDefault_eq carries "max_shots" s.maxShots standard
      (by simp) (by simp) trivial
    have timeoutSecs := fun standard => withDefault_eq carries "timeout_secs" s.timeoutSecs standard
      (by simp) (by simp) trivial
    have statevectorMaxQubits := fun standard => withDefault_eq carries "statevector_max_qubits"
      s.statevectorMaxQubits standard (by simp) (by simp) trivial
    have maxQubits := fun standard => withDefault_eq carries "max_qubits" s.maxQubits standard
      (by simp) (by simp) trivial
    simp [decode?, defaultShots, maxShots,
      timeoutSecs, statevectorMaxQubits, maxQubits]

instance : Sendable BackendSettings where
  variation := .record [("preference", variation Preference), ("seed", variation (Option UInt64))]

instance : Stable BackendSettings where
  decode?_of_permits s _ sent permitted := by
    obtain ⟨sent, rfl, carries⟩ := Variation.exists_carries permitted
    have preference := fun standard => withDefault_eq carries "preference" s.preference standard
      (by simp) (by simp) trivial
    have seed := fun standard => withDefault_eq carries "seed" s.seed standard (by simp) (by simp)
      fun _ _ => trivial
    simp [decode?, preference, seed]

instance : Sendable LogSettings where
  variation := .record [("level", variation String), ("format", variation String)]

instance : Stable LogSettings where
  decode?_of_permits s _ sent permitted := by
    obtain ⟨sent, rfl, carries⟩ := Variation.exists_carries permitted
    have level := fun standard => withDefault_eq carries "level" s.level standard (by simp)
      (by simp) trivial
    have format := fun standard => withDefault_eq carries "format" s.format standard (by simp)
      (by simp) trivial
    simp [decode?, level, format]

instance : Sendable Settings where
  variation := .record [("execution", variation ExecutionSettings),
    ("backend", variation BackendSettings), ("logging", variation LogSettings)]

instance : Stable Settings where
  decode?_of_permits s _ sent permitted := by
    obtain ⟨sent, rfl, carries⟩ := Variation.exists_carries permitted
    have execution := withDefault_eq carries "execution" s.execution {} (by simp) (by simp) trivial
    have backend := withDefault_eq carries "backend" s.backend {} (by simp) (by simp) trivial
    have logging := withDefault_eq carries "logging" s.logging {} (by simp) (by simp) trivial
    simp [decode?, execution, backend, logging]

end Settings

section Messages

instance : Sendable SimulateRequest where
  variation := .record [("circuit_data", variation Description), ("shots", variation UInt32)]
  AllFinite r := AllFinite r.description

instance : Stable SimulateRequest where
  decode?_of_permits r finite sent permitted := by
    obtain ⟨sent, rfl, carries⟩ := Variation.exists_carries permitted
    have description := withDefault_eq carries "circuit_data" r.description {} (by simp) (by simp)
      finite
    have shots := withDefault_none_eq carries "shots" r.shots (by simp) (by simp) fun _ _ => trivial
    simp [decode?, description, shots]

instance : Sendable (SimulateResponse Float) where
  variation := .record [("success", variation Bool), ("counts", variation Histogram),
    ("statevector", variation (Array (Amplitude Float))), ("num_qubits", variation UInt32),
    ("depth", variation Nat), ("gate_count", variation Nat), ("error", variation String)]
  AllFinite r := AllFinite r.statevector

instance : Stable (SimulateResponse Float) where
  decode?_of_permits r finite sent permitted := by
    obtain ⟨sent, rfl, carries⟩ := Variation.exists_carries permitted
    have success := required_eq carries "success" r.success (by simp) (by simp) trivial
    have counts := withDefault_none_eq carries "counts" r.counts (by simp) (by simp)
      fun _ _ => trivial
    have statevector := withDefault_none_eq carries "statevector" r.statevector (by simp) (by simp)
      finite
    have qubits := withDefault_none_eq carries "num_qubits" r.qubits (by simp) (by simp)
      fun _ _ => trivial
    have depth := withDefault_none_eq carries "depth" r.depth (by simp) (by simp) fun _ _ => trivial
    have gateCount := withDefault_none_eq carries "gate_count" r.gateCount (by simp) (by simp)
      fun _ _ => trivial
    have error := withDefault_none_eq carries "error" r.error (by simp) (by simp) fun _ _ => trivial
    simp [decode?, success, counts, statevector,
      qubits, depth, gateCount, error]

instance : Sendable ValidateResponse where
  variation := .record [("valid", variation Bool), ("qubit_count", variation UInt32),
    ("depth", variation Nat), ("gate_count", variation Nat), ("error", variation String)]

instance : Stable ValidateResponse where
  decode?_of_permits r _ sent permitted := by
    obtain ⟨sent, rfl, carries⟩ := Variation.exists_carries permitted
    have valid := required_eq carries "valid" r.valid (by simp) (by simp) trivial
    have qubits := withDefault_none_eq carries "qubit_count" r.qubits (by simp) (by simp)
      fun _ _ => trivial
    have depth := withDefault_none_eq carries "depth" r.depth (by simp) (by simp) fun _ _ => trivial
    have gateCount := withDefault_none_eq carries "gate_count" r.gateCount (by simp) (by simp)
      fun _ _ => trivial
    have error := withDefault_none_eq carries "error" r.error (by simp) (by simp) fun _ _ => trivial
    simp [decode?, valid, qubits, depth,
      gateCount, error]

instance : Sendable ExportAssemblyResponse where
  variation := .record [("qasm", variation String)]

instance : Stable ExportAssemblyResponse where
  decode?_of_permits r _ sent permitted := by
    obtain ⟨sent, rfl, carries⟩ := Variation.exists_carries permitted
    have assembly := required_eq carries "qasm" r.assembly (by simp) (by simp) trivial
    simp [decode?, assembly]

instance : Sendable ExportScriptResponse where
  variation := .record [("code", variation String)]

instance : Stable ExportScriptResponse where
  decode?_of_permits r _ sent permitted := by
    obtain ⟨sent, rfl, carries⟩ := Variation.exists_carries permitted
    have script := required_eq carries "code" r.script (by simp) (by simp) trivial
    simp [decode?, script]

instance : Sendable ImportRequest where
  variation := .record [("qasm", variation String)]

instance : Stable ImportRequest where
  decode?_of_permits r _ sent permitted := by
    obtain ⟨sent, rfl, carries⟩ := Variation.exists_carries permitted
    have assembly := required_eq carries "qasm" r.assembly (by simp) (by simp) trivial
    simp [decode?, assembly]

instance : Sendable ImportResponse where
  variation := .record [("circuit_data", variation Description)]
  AllFinite r := AllFinite r.description

instance : Stable ImportResponse where
  decode?_of_permits r finite sent permitted := by
    obtain ⟨sent, rfl, carries⟩ := Variation.exists_carries permitted
    have description := required_eq carries "circuit_data" r.description (by simp) (by simp) finite
    simp [decode?, description]

end Messages

/-- Every circuit description, gate, result, capability, option, setting, request and response whose
numbers are finite is read as it was sent. That is so for its JSON form, for the form with the
members of objects in any other order, and for the form with any members added to a record under
names that it does not know, at whatever depth. -/
theorem messages_are_read_as_sent :
    (RoundTrips Description ∧ RoundTrips Entry ∧ RoundTrips Placement) ∧
    (RoundTrips Histogram ∧ RoundTrips (Amplitude Float)) ∧
    (RoundTrips Capabilities ∧ RoundTrips BackendOptions) ∧
    (RoundTrips Settings ∧ RoundTrips ExecutionSettings ∧ RoundTrips BackendSettings ∧
      RoundTrips LogSettings) ∧
    (RoundTrips SimulateRequest ∧ RoundTrips (SimulateResponse Float) ∧
      RoundTrips ValidateResponse) ∧
    RoundTrips ExportAssemblyResponse ∧ RoundTrips ExportScriptResponse ∧
      RoundTrips ImportRequest ∧ RoundTrips ImportResponse :=
  ⟨⟨Stable.roundTrips _, Stable.roundTrips _, Stable.roundTrips _⟩,
    ⟨Stable.roundTrips _, Stable.roundTrips _⟩, ⟨Stable.roundTrips _, Stable.roundTrips _⟩,
    ⟨Stable.roundTrips _, Stable.roundTrips _, Stable.roundTrips _, Stable.roundTrips _⟩,
    ⟨Stable.roundTrips _, Stable.roundTrips _, Stable.roundTrips _⟩,
    Stable.roundTrips _, Stable.roundTrips _, Stable.roundTrips _, Stable.roundTrips _⟩

def tenShots : SimulateRequest :=
  { description := { qubits := 2, entries := [{ type := "H", qubits := [1], params := [0.5] }] }
    shots := some 10 }

/-- The same request with everything in another place, and with remarks. -/
def tenShotsRemarked : Json :=
  .object [("shots", .int 10), ("remark", .object []),
    ("circuit_data", .object [
      ("gates", .array [.object [("params", .array [.float 0.5]), ("remark", .null),
        ("type", .string "H"), ("qubits", .array [.int 1])]]),
      ("qubits", .int 2)])]

theorem messages_are_read_as_sent_tenShots :
    AllFinite tenShots ∧
    (variation SimulateRequest).Permits (encode tenShots) tenShotsRemarked ∧
    decode? (encode tenShots) = some tenShots ∧ decode? tenShotsRemarked = some tenShots := by
  have finite : AllFinite tenShots := by
    intro entry member x among
    cases List.mem_singleton.mp member
    cases List.mem_singleton.mp among
    change (0.5 : Float).isFinite = true
    decide +kernel
  have half : Json.ofFloat 0.5 = .float 0.5 := by
    have finite : (0.5 : Float).isFinite = true := by decide +kernel
    exact if_pos finite
  have params : encode [(0.5 : Float)] = .array [.float 0.5] :=
    congrArg (fun x => Json.array [x]) half
  have entry : (variation Entry).Permits
      (encode ({ type := "H", qubits := [1], params := [0.5] } : Entry))
      (.object [("params", .array [.float 0.5]), ("remark", .null), ("type", .string "H"),
        ("qubits", .array [.int 1])]) := by
    refine @Variation.RecordPermits.object _ _
      [("type", .string "H"), ("qubits", .array [.int 1]), ("params", .array [.float 0.5])]
      [("remark", .null)] _ ?_ (by simp) (@List.perm_append_comm _ [_, _] [_, _])
    simpa [member] using ⟨Variation.refl _ (encode "H"),
      Variation.refl _ (encode [(1 : Int64)]), params ▸ Variation.refl _ (encode [(0.5 : Float)])⟩
  have description : (variation Description).Permits (encode tenShots.description)
      (.object [("gates", .array [.object [("params", .array [.float 0.5]), ("remark", .null),
        ("type", .string "H"), ("qubits", .array [.int 1])]]), ("qubits", .int 2)]) := by
    refine @Variation.RecordPermits.object _ _ [("qubits", .int 2), _] [] _ ?_ (by simp)
      (@List.perm_append_comm _ [_] [_])
    simpa [member] using ⟨Variation.refl _ (encode (2 : Int64)),
      Variation.ItemsPermit.array (.cons entry .nil)⟩
  have permitted : (variation SimulateRequest).Permits (encode tenShots) tenShotsRemarked := by
    refine @Variation.RecordPermits.object _ _ [_, ("shots", .int 10)] [("remark", .object [])] _ ?_
      (by simp) (@List.perm_append_comm _ [_, _] [_])
    have shots : memberIfSome "shots" tenShots.shots = [("shots", encode (10 : UInt32))] := rfl
    simpa [member, shots] using ⟨description, Variation.refl _ (encode (10 : UInt32))⟩
  obtain ⟨-, -, -, -, ⟨requests, -⟩, -⟩ := messages_are_read_as_sent
  obtain ⟨plain, varied⟩ := requests tenShots finite
  exact ⟨finite, permitted, plain, varied tenShotsRemarked permitted⟩

end CircuitBench
