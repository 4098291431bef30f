import CircuitBench.Circuit.Level
import Mathlib.Data.List.Induction

/-!
# What the edges and levels of a dependency graph say

An edge ends in an operation for each of its wires on which an earlier operation acts,
and it begins at the last of these. Older operations on a wire have no edge of their
own, but each of them comes before a newer one on the same wire, so along shared
qubits levels still grow strictly.

The level of an operation without edges is one; otherwise it is one more than the
level of some operation that it shares a qubit with.
-/

namespace CircuitBench

/-- The highest of some numbers over a least value is one of them or that value. -/
theorem foldl_max_isLargest (start : Nat) (numbers : List Nat) :
    numbers.foldl max start ∈ start :: numbers ∧
      ∀ n ∈ start :: numbers, n ≤ numbers.foldl max start :=
  List.max?_eq_some_iff.mp List.max?_cons'

/-- The operation at a position acts on a qubit. -/
def ActsOn (ops : List Operation) (position : Nat) (qubit : UInt32) : Prop :=
  ∃ op, ops[position]? = some op ∧ qubit ∈ op.qubits

/-- The operations at two positions act on a common qubit. -/
def ShareQubit (ops : List Operation) (i j : Nat) : Prop :=
  ∃ qubit, ActsOn ops i qubit ∧ ActsOn ops j qubit

/-- The operation at a position acts on a wire, and none behind it does. -/
structure IsLastOn (ops : List Operation) (wire : UInt32) (position : Nat) : Prop where
  acts : ActsOn ops position wire
  idle : ∀ later, position < later → ¬ ActsOn ops later wire

namespace ActsOn

variable {ops : List Operation} {i j n : Nat} {q : UInt32}

theorem lt_length (h : ActsOn ops i q) : i < ops.length := by
  obtain ⟨op, at_i, -⟩ := h
  exact (List.getElem?_eq_some_iff.mp at_i).1

theorem concat {op : Operation} :
    ActsOn (ops ++ [op]) i q ↔ ActsOn ops i q ∨ i = ops.length ∧ q ∈ op.qubits := by
  rcases Nat.lt_trichotomy i ops.length with before | rfl | behind
  · simp [ActsOn, List.getElem?_append_left before, Nat.ne_of_lt before]
  · simp [ActsOn]
  · have beyond : (ops ++ [op])[i]? = none := List.getElem?_eq_none (by simp; omega)
    have beyond_old : ops[i]? = none := List.getElem?_eq_none (Nat.le_of_lt behind)
    simp [ActsOn, beyond, beyond_old, Nat.ne_of_gt behind]

theorem take : ActsOn (ops.take n) i q ↔ i < n ∧ ActsOn ops i q := by
  by_cases h : i < n
  · simp [ActsOn, List.getElem?_take_of_lt h, h]
  · have beyond : (ops.take n)[i]? = none := List.getElem?_eq_none (by simp; omega)
    constructor
    · rintro ⟨op, at_i, -⟩
      rw [beyond] at at_i
      cases at_i
    · rintro ⟨before, -⟩
      exact absurd before h

end ActsOn

namespace IsLastOn

variable {ops : List Operation} {wire : UInt32} {i : Nat}

theorem concat {op : Operation} : IsLastOn (ops ++ [op]) wire i ↔
    if wire ∈ op.qubits then i = ops.length else IsLastOn ops wire i := by
  constructor
  · rintro ⟨acts, idle⟩
    split
    next member =>
      by_contra other
      have before : i < ops.length := by
        rcases ActsOn.concat.mp acts with old | ⟨new, -⟩
        · exact old.lt_length
        · exact absurd new other
      exact idle ops.length before (ActsOn.concat.mpr (.inr ⟨rfl, member⟩))
    next member =>
      refine ⟨?_, fun later behind old => idle later behind (ActsOn.concat.mpr (.inl old))⟩
      exact (ActsOn.concat.mp acts).resolve_right fun new => member new.2
  · split
    next member =>
      rintro rfl
      refine ⟨ActsOn.concat.mpr (.inr ⟨rfl, member⟩), fun later behind acts => ?_⟩
      have := acts.lt_length
      simp only [List.length_append, List.length_singleton] at this
      omega
    next member =>
      rintro ⟨acts, idle⟩
      refine ⟨ActsOn.concat.mpr (.inl acts), fun later behind new => ?_⟩
      rcases ActsOn.concat.mp new with old | ⟨-, inside⟩
      · exact idle later behind old
      · exact member inside

theorem lt_of_take {n : Nat} (h : IsLastOn (ops.take n) wire i) : i < n :=
  (ActsOn.take.mp h.acts).1

end IsLastOn

/-- Where some operation acts on a wire, one is the last to do so. -/
theorem ActsOn.exists_isLastOn {ops : List Operation} {i : Nat} {wire : UInt32}
    (h : ActsOn ops i wire) : ∃ last, i ≤ last ∧ IsLastOn ops wire last := by
  induction ops using List.reverseRecOn with
  | nil =>
    have := h.lt_length
    simp at this
  | append_singleton before op ih =>
    by_cases member : wire ∈ op.qubits
    · refine ⟨before.length, ?_, IsLastOn.concat.mpr (by simp [member])⟩
      have := h.lt_length
      simp only [List.length_append, List.length_singleton] at this
      omega
    · have old := (ActsOn.concat.mp h).resolve_right fun new => member new.2
      obtain ⟨last, behind, isLast⟩ := ih old
      exact ⟨last, behind, IsLastOn.concat.mpr (by simpa [member] using isLast)⟩

namespace DependencyGraph

/-- The invariant of the pass over the operations: the newest entry of every wire is the last
operation on it so far. -/
def Tracks (last : LastOnWire) (before : List Operation) : Prop :=
  ∀ wire position, last.lookup wire = some position ↔ IsLastOn before wire position

theorem tracks_nil : Tracks [] [] := by
  intro wire position
  constructor
  · intro h
    cases h
  · intro h
    have := h.acts.lt_length
    simp at this

theorem lookup_connect (position : Nat) (last : LastOnWire) (wires : List UInt32)
    (wire : UInt32) : (connect position last wires).2.lookup wire =
      if wire ∈ wires then some position else last.lookup wire := by
  induction wires generalizing last with
  | nil => simp [connect]
  | cons first rest ih =>
    rw [connect, ih, List.lookup_cons]
    by_cases same : wire = first
    · simp [same]
    · simp [same, beq_eq_false_iff_ne.mpr same]

/-- Wires that are distinct do not see one another's entries, so every edge comes from what
was known before. -/
theorem mem_connect {position : Nat} {last : LastOnWire} {wires : List UInt32}
    (distinct : wires.Nodup) {edge : Dependency} :
    edge ∈ (connect position last wires).1 ↔
      edge.wire ∈ wires ∧ last.lookup edge.wire = some edge.source := by
  induction wires generalizing last with
  | nil => simp [connect]
  | cons first rest ih =>
    obtain ⟨fresh, distinct⟩ := List.nodup_cons.mp distinct
    have head : edge ∈ ((last.lookup first).map (⟨·, first⟩ : Nat → Dependency)).toList ↔
        edge.wire = first ∧ last.lookup edge.wire = some edge.source := by
      cases edge
      simp only [Option.mem_toList, Option.map_eq_some_iff, Dependency.mk.injEq]
      constructor
      · rintro ⟨source, found, rfl, rfl⟩
        exact ⟨rfl, found⟩
      · rintro ⟨rfl, found⟩
        exact ⟨_, found, rfl, rfl⟩
    rw [connect, List.mem_append, head, ih distinct, List.lookup_cons]
    by_cases same : edge.wire = first
    · simp [same, fresh]
    · simp [same, beq_eq_false_iff_ne.mpr same]

theorem Tracks.connect {last : LastOnWire} {before : List Operation} (tracks : Tracks last before)
    (op : Operation) :
    Tracks (connect before.length last op.qubits).2 (before ++ [op]) := by
  intro wire position
  rw [lookup_connect, IsLastOn.concat]
  split
  · exact ⟨fun h => (Option.some.inj h).symm, fun h => h ▸ rfl⟩
  · exact tracks wire position

theorem mem_incomingFrom {before rest : List Operation} {last : LastOnWire}
    (tracks : Tracks last before) (distinct : ∀ op ∈ rest, op.qubits.Nodup) {k : Nat}
    {edges : List Dependency} (at_k : (incomingFrom before.length last rest)[k]? = some edges)
    {edge : Dependency} : edge ∈ edges ↔ ActsOn (before ++ rest) (before.length + k) edge.wire ∧
      IsLastOn ((before ++ rest).take (before.length + k)) edge.wire edge.source := by
  induction rest generalizing before last k with
  | nil => simp [incomingFrom] at at_k
  | cons op rest ih =>
    rw [incomingFrom] at at_k
    cases k with
    | zero =>
      obtain rfl : (connect before.length last op.qubits).1 = edges := by simpa using at_k
      rw [mem_connect (distinct op List.mem_cons_self), tracks]
      simp [ActsOn]
    | succ k =>
      have moved : before ++ op :: rest = (before ++ [op]) ++ rest := by simp
      have shifted : before.length + (k + 1) = (before ++ [op]).length + k := by
        simp only [List.length_append, List.length_singleton]
        omega
      rw [moved, shifted]
      refine ih (tracks.connect op) (fun op member => distinct op (.tail _ member)) ?_
      simpa using at_k

/-- The edges into an operation come from the last earlier operations on its wires. -/
theorem mem_incoming {c : Circuit} {i : Nat} {edges : List Dependency}
    (at_i : (ofCircuit c).incoming[i]? = some edges) {edge : Dependency} :
    edge ∈ edges ↔
      ActsOn c.ops i edge.wire ∧ IsLastOn (c.ops.take i) edge.wire edge.source := by
  simpa using mem_incomingFrom tracks_nil (fun op member => (c.fits op member).2) at_i

theorem le_highest {levels : Array Nat} {edges : List Dependency} {edge : Dependency}
    (h : edge ∈ edges) : known levels edge.source ≤ highest levels edges :=
  (foldl_max_isLargest 0 _).2 _
    (.tail _ (List.mem_map.mpr ⟨edge, h, rfl⟩))

theorem highest_eq_zero_or {levels : Array Nat} {edges : List Dependency} :
    highest levels edges = 0 ∨ ∃ edge ∈ edges, highest levels edges = known levels edge.source := by
  have := (foldl_max_isLargest 0 (edges.map fun edge => known levels edge.source)).1
  rcases List.mem_cons.mp this with none | some
  · exact .inl none
  · obtain ⟨edge, member, level⟩ := List.mem_map.mp some
    exact .inr ⟨edge, member, level.symm⟩

theorem highest_congr {levels levels' : Array Nat} {edges : List Dependency}
    (h : ∀ edge ∈ edges, known levels edge.source = known levels' edge.source) :
    highest levels edges = highest levels' edges := by
  rw [highest, highest, List.map_congr_left h]

/-- A level that is known is never changed. -/
theorem known_levelsFrom {levels : Array Nat} {rest : List (List Dependency)} {i : Nat}
    (h : i < levels.size) : known (levelsFrom levels rest) i = known levels i := by
  induction rest generalizing levels with
  | nil => rfl
  | cons edges rest ih =>
    rw [levelsFrom, ih (by simp only [Array.size_push]; omega)]
    simp [known, Array.getElem?_push_lt h, h]

/-- Once all levels are known, each is one more than the highest of those it was made from. -/
theorem known_levelsFrom_eq_highest {levels : Array Nat} {rest : List (List Dependency)}
    {k : Nat} {edges : List Dependency} (at_k : rest[k]? = some edges)
    (earlier : ∀ edge ∈ edges, edge.source < levels.size + k) :
    known (levelsFrom levels rest) (levels.size + k) =
      highest (levelsFrom levels rest) edges + 1 := by
  induction rest generalizing levels k with
  | nil => simp at at_k
  | cons first rest ih =>
    rw [levelsFrom]
    cases k with
    | zero =>
      obtain rfl : first = edges := by simpa using at_k
      simp only [Nat.add_zero] at earlier ⊢
      rw [known_levelsFrom (by simp)]
      have made : known (levels.push (highest levels first + 1)) levels.size =
          highest levels first + 1 := by
        simp [known]
      rw [made]
      refine congrArg (· + 1) (highest_congr fun edge member => ?_)
      have := earlier edge member
      rw [known_levelsFrom (by simp only [Array.size_push]; omega)]
      simp [known, Array.getElem?_push_lt this, this]
    | succ k =>
      have shifted : levels.size + (k + 1) =
          (levels.push (highest levels first + 1)).size + k := by
        simp only [Array.size_push]
        omega
      rw [shifted] at earlier ⊢
      exact ih (by simpa using at_k) earlier

end DependencyGraph

namespace Circuit

/-- The level of the operation at a position, zero beyond the last one. -/
def levelAt (c : Circuit) (i : Nat) : Nat :=
  DependencyGraph.known (DependencyGraph.ofCircuit c).levels i

theorem getElem_levels (c : Circuit) (i : Nat) (h : i < c.levels.length) :
    c.levels[i] = c.levelAt i := by
  have inside : i < (DependencyGraph.ofCircuit c).levels.size := by simpa [levels] using h
  simp [levels, levelAt, DependencyGraph.known, inside]

/-- The edges into an operation determine its level. -/
theorem exists_incoming {c : Circuit} {i : Nat} (h : i < c.gateCount) :
    ∃ edges, (DependencyGraph.ofCircuit c).incoming[i]? = some edges ∧
      c.levelAt i =
        DependencyGraph.highest (DependencyGraph.ofCircuit c).levels edges + 1 := by
  have inside : i < (DependencyGraph.ofCircuit c).incoming.length := by
    simpa [DependencyGraph.ofCircuit, gateCount] using h
  have at_i := List.getElem?_eq_getElem inside
  refine ⟨_, at_i, ?_⟩
  have earlier : ∀ edge ∈ (DependencyGraph.ofCircuit c).incoming[i],
      edge.source < (#[] : Array Nat).size + i := by
    intro edge member
    simpa using ((DependencyGraph.mem_incoming at_i).mp member).2.lt_of_take
  simpa [levelAt, DependencyGraph.levels] using
    DependencyGraph.known_levelsFrom_eq_highest at_i earlier

theorem levelAt_pos {c : Circuit} {i : Nat} (h : i < c.gateCount) : 0 < c.levelAt i := by
  obtain ⟨edges, -, level⟩ := exists_incoming h
  omega

/-- An operation that is not on the first level has one it depends on a level below. -/
theorem levelAt_eq_one_or {c : Circuit} {i : Nat} (h : i < c.gateCount) :
    c.levelAt i = 1 ∨ ∃ j < i, ShareQubit c.ops j i ∧ c.levelAt i = c.levelAt j + 1 := by
  obtain ⟨edges, at_i, level⟩ := exists_incoming h
  rcases DependencyGraph.highest_eq_zero_or with none | ⟨edge, member, highest⟩
  · exact .inl (by rw [level, none])
  · obtain ⟨acts, isLast⟩ := (DependencyGraph.mem_incoming at_i).mp member
    have before := isLast.lt_of_take
    have acts_before := (ActsOn.take.mp isLast.acts).2
    exact .inr ⟨edge.source, before, ⟨edge.wire, acts_before, acts⟩, by rw [level, highest]; rfl⟩

/-- The last operation before another one on a common wire is on a lower level. -/
theorem levelAt_lt_of_isLastOn {c : Circuit} {i j : Nat} {wire : UInt32}
    (acts : ActsOn c.ops i wire) (isLast : IsLastOn (c.ops.take i) wire j) :
    c.levelAt j < c.levelAt i := by
  obtain ⟨edges, at_i, level⟩ := exists_incoming acts.lt_length
  have joined : (⟨j, wire⟩ : Dependency) ∈ edges :=
    (DependencyGraph.mem_incoming at_i).mpr ⟨acts, isLast⟩
  rw [level]
  exact Nat.lt_succ_of_le (DependencyGraph.le_highest joined)

/-- Levels grow along shared qubits, also where no edge joins two operations: then the last
operation on the wire lies between them, and it comes after the earlier one by induction. -/
theorem levelAt_lt_of_shareQubit {c : Circuit} {i j : Nat} (before : j < i)
    (share : ShareQubit c.ops j i) : c.levelAt j < c.levelAt i := by
  induction i using Nat.strongRecOn generalizing j with
  | ind i ih =>
    obtain ⟨wire, acts_j, acts_i⟩ := share
    obtain ⟨last, behind, isLast⟩ :=
      (ActsOn.take.mpr ⟨before, acts_j⟩ : ActsOn (c.ops.take i) j wire).exists_isLastOn
    have below := levelAt_lt_of_isLastOn acts_i isLast
    rcases Nat.eq_or_lt_of_le behind with rfl | between
    · exact below
    · have acts_last := (ActsOn.take.mp isLast.acts).2
      exact Nat.lt_trans (ih last isLast.lt_of_take between ⟨wire, acts_j, acts_last⟩) below

end Circuit

end CircuitBench
