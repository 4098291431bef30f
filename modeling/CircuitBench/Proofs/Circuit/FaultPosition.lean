import CircuitBench.Proofs.Circuit.Building
import Mathlib

/-!
# Which entry is reported

A description is refused for the first of its recognised entries that has a defect, but there are
two passes. The first pass reads numbers as indices, and it looks at all entries before the
second pass tries any other rule. A number that is no index is therefore reported even if an entry
in front breaks another rule.
-/

namespace CircuitBench

def CircuitError.position? : CircuitError → Option Nat
  | index _ position _ => some position
  | placement _ position _ => some position
  | _ => none

namespace Entry

/-- Some number of an entry is no index of 32 bits. -/
def Unreadable (entry : Entry) : Prop :=
  ∃ q ∈ entry.qubits, index? q = none

/-- An entry for a gate breaks a rule on some number of qubits, as a fault tells. -/
inductive Breaks (gate : Gate) (width : UInt32) (entry : Entry) : PlacementFault → Prop where
  | arity (differs : entry.qubits.length ≠ gate.arity) :
    Breaks gate width entry (.arity entry.qubits.length)
  | parameters (differs : entry.params.length ≠ gate.parameterCount) :
    Breaks gate width entry (.parameters entry.params.length)
  | range {q : UInt32} (member : Int64.ofNat q.toNat ∈ entry.qubits) (outside : width ≤ q) :
    Breaks gate width entry (.range q width)
  | repeated {q : UInt32} (two : gate = .cnot)
      (same : entry.qubits = [Int64.ofNat q.toNat, Int64.ofNat q.toNat]) :
    Breaks gate width entry (.repeated q)

variable {gate : Gate} {position : Nat} {numbers : List Int64} {e : CircuitError}

theorem exists_of_indices_eq_error (h : indices gate position numbers = .error e) :
    ∃ q ∈ numbers, index? q = none ∧ e = .index gate position q := by
  induction numbers with
  | nil => cases h
  | cons n rest ih =>
    rw [indices] at h
    split at h
    next unread =>
      cases h
      exact ⟨n, .head _, unread, rfl⟩
    next index read =>
      split at h
      next failed =>
        cases h
        obtain ⟨q, member, unread, rfl⟩ := ih failed
        exact ⟨q, .tail _ member, unread, rfl⟩
      · cases h

/-- Numbers that are those of 32-bit indices can be read. -/
theorem index?_of_indices {qubits : List UInt32} (h : indices gate position numbers = .ok qubits) :
    ∀ q ∈ numbers, index? q ≠ none := by
  intro n member
  rw [← ofNat_of_indices h] at member
  obtain ⟨q, -, rfl⟩ := List.mem_map.mp member
  simp [index?_ofNat]

section Place

variable {entry : Entry} {width : UInt32} {qubits : List UInt32} {fault : PlacementFault}
  {number : Int64}

/-- A placement is refused with a fault that its entry has. -/
theorem breaks_of_place (read : qubits.map (fun q => Int64.ofNat q.toNat) = entry.qubits)
    (refused : Placement.place ⟨gate, qubits, entry.params⟩ width = .error fault) :
    entry.Breaks gate width fault := by
  have length : entry.qubits.length = qubits.length := by rw [← read, List.length_map]
  have member : ∀ q ∈ qubits, Int64.ofNat q.toNat ∈ entry.qubits := by
    intro q inside
    rw [← read]
    exact List.mem_map_of_mem inside
  have some_params : entry.params ≠ [] → entry.params.length ≠ 0 := mt List.length_eq_zero_iff.mp
  simp only [Placement.place] at refused
  split at refused
  next gate target =>
    split_ifs at refused with params inside
    · cases refused
      exact .parameters (some_params params)
    · cases refused
      exact .range (member target (by simp)) (UInt32.not_lt.mp inside)
  next control target =>
    split_ifs at refused with params first second twice
    · cases refused
      exact .parameters (some_params params)
    · cases refused
      subst twice
      exact .repeated rfl read.symm
    · cases refused
      exact .range (member target (by simp)) (UInt32.not_lt.mp second)
    · cases refused
      exact .range (member control (by simp)) (UInt32.not_lt.mp first)
  next no_single no_pair =>
    cases refused
    rw [← length]
    refine .arity fun arity => ?_
    rw [length] at arity
    cases gate with
    | single gate =>
      obtain ⟨target, rfl⟩ := List.length_eq_one_iff.mp arity
      exact no_single gate target rfl rfl
    | cnot =>
      obtain ⟨control, target, rfl⟩ := List.length_eq_two.mp arity
      exact no_pair control target rfl rfl

/-- A placement is accepted if its entry is sound. -/
theorem sound_of_place (same : (width.toNat : Int) = number.toInt)
    (read : qubits.map (fun q => Int64.ofNat q.toNat) = entry.qubits)
    {op : { op : Operation // op.Fits width.toNat }}
    (placed : Placement.place ⟨gate, qubits, entry.params⟩ width = .ok op) :
    entry.Sound gate number := by
  have from_op := Placement.eq_ofOperation_of_place placed
  rw [Placement.ofOperation, Placement.mk.injEq] at from_op
  obtain ⟨rfl, rfl, plain⟩ := from_op
  refine (exists_ofOperation_iff same).mp ⟨op, op.2, ?_⟩
  rw [ofOperation, read, plain]

theorem Breaks.not_sound (same : (width.toNat : Int) = number.toInt)
    (breaks : entry.Breaks gate width fault) : ¬entry.Sound gate number := by
  intro sound
  cases breaks with
  | arity differs => exact differs sound.arity
  | parameters differs =>
    have none : gate.parameterCount = 0 := by cases gate <;> rfl
    rw [sound.plain, none] at differs
    exact differs rfl
  | @range q member outside =>
    have below := (sound.inside _ member).2
    rw [toInt_ofNat_toNat, ← same] at below
    exact absurd outside (UInt32.not_le.mpr (UInt32.lt_iff_toNat_lt.mpr (by omega)))
  | repeated two same =>
    have distinct := sound.distinct two
    rw [same] at distinct
    simp at distinct

end Place

end Entry

/-- An entry is the first recognised one with a defect: none of the recognised entries in front of
it has that defect. -/
structure FirstWith (Defect : Gate → Entry → Prop) (entries front : List Entry) (gate : Gate)
    (entry : Entry) : Prop where
  split : ∃ behind, entries = front ++ entry :: behind
  known : entry.gate? = some gate
  defect : Defect gate entry
  clean : ∀ other ∈ front, ∀ g, other.gate? = some g → ¬Defect g other

/-- An entry in front makes no difference if it is not recognised or does not have the defect. -/
theorem FirstWith.cons {Defect : Gate → Entry → Prop} {entries front : List Entry} {gate : Gate}
    {entry first : Entry} (clean : ∀ g, first.gate? = some g → ¬Defect g first)
    (behind : FirstWith Defect entries front gate entry) :
    FirstWith Defect (first :: entries) (first :: front) gate entry := by
  obtain ⟨⟨rest, rfl⟩, known, defect, others⟩ := behind
  refine ⟨⟨rest, rfl⟩, known, defect, ?_⟩
  intro other member
  rcases List.mem_cons.mp member with rfl | inside
  · exact clean
  · exact others other inside

namespace Circuit

variable {width : UInt32} {number : Nat} {placement : Placement} {placements : List Placement}
  {e : CircuitError}

/-- The first placement is refused, or it is accepted and one behind it is refused. -/
theorem placeAll_cons_eq_error_iff :
    placeAll width number (placement :: placements) = .error e ↔
      (∃ fault, placement.place width = .error fault ∧
        e = .placement placement.gate number fault) ∨
      ∃ op, placement.place width = .ok op ∧
        placeAll width (number + 1) placements = .error e := by
  rw [placeAll]
  cases placement.place width with
  | error fault => simp [eq_comm]
  | ok op =>
    cases placeAll width (number + 1) placements with
    | error e' => simp
    | ok ops => simp

theorem ofPlacements_eq_error_iff :
    ofPlacements width placements = .error e ↔
      (width.toNat = 0 ∧ e = .empty) ∨
        (0 < width.toNat ∧ placeAll width 0 placements = .error e) := by
  rw [ofPlacements]
  by_cases positive : 0 < width.toNat
  · rw [dif_pos positive]
    cases placeAll width 0 placements with
    | error e' => simp [positive, positive.ne']
    | ok ops => simp [positive.ne']
  · rw [dif_neg positive]
    simp [Nat.eq_zero_of_not_pos positive, eq_comm]

end Circuit

namespace Description

variable {position : Nat} {entries : List Entry} {found : List Placement} {e : CircuitError}

/-- How placements are read from entries: the first entry is passed over, or its numbers are
indices and it gives the first placement. -/
theorem placements_cons_eq_ok {entry : Entry} {rest : List Entry}
    (h : placements position (entry :: rest) = .ok found) :
    entry.gate? = none ∧ placements (position + 1) rest = .ok found ∨
      ∃ gate qubits behind, entry.gate? = some gate ∧
        Entry.indices gate position entry.qubits = .ok qubits ∧
        placements (position + 1) rest = .ok behind ∧
        found = ⟨gate, qubits, entry.params⟩ :: behind := by
  rw [placements] at h
  split at h
  next unknown => exact .inl ⟨unknown, h⟩
  next gate known =>
    split at h
    · cases h
    next qubits read =>
      split at h
      · cases h
      next behind placed =>
        cases h
        exact .inr ⟨gate, qubits, behind, known, read, placed, rfl⟩

/-- Placements can be read from entries all of whose numbers are indices. -/
theorem readable_of_placements (h : placements position entries = .ok found) :
    ∀ entry ∈ entries, ∀ gate, entry.gate? = some gate → ¬entry.Unreadable := by
  induction entries generalizing position found with
  | nil => simp
  | cons entry rest ih =>
    intro other member gate known
    rcases placements_cons_eq_ok h with
      ⟨unknown, behind⟩ | ⟨first, qubits, behind, -, read, placed, rfl⟩
    · rcases List.mem_cons.mp member with rfl | inside
      · rw [unknown] at known
        cases known
      · exact ih behind other inside gate known
    · rcases List.mem_cons.mp member with rfl | inside
      · rintro ⟨q, number, unread⟩
        exact Entry.index?_of_indices read q number unread
      · exact ih placed other inside gate known

/-- If the numbers of some entry are no indices, the first such entry is reported, at its place
among all entries. -/
theorem exists_of_placements_eq_error (h : placements position entries = .error e) :
    ∃ front gate entry q, FirstWith (fun _ => Entry.Unreadable) entries front gate entry ∧
      q ∈ entry.qubits ∧ Entry.index? q = none ∧ e = .index gate (position + front.length) q := by
  induction entries generalizing position with
  | nil => cases h
  | cons entry rest ih =>
    cases here : entry.gate? with
    | none =>
      simp only [placements, here] at h
      obtain ⟨front, gate, other, q, first, member, unread, rfl⟩ := ih h
      refine ⟨entry :: front, gate, other, q, first.cons (by simp [here]), member, unread, ?_⟩
      rw [List.length_cons, Nat.add_right_comm, Nat.add_assoc]
    | some gate =>
      simp only [placements, here] at h
      split at h
      next failed =>
        cases h
        obtain ⟨q, member, unread, rfl⟩ := Entry.exists_of_indices_eq_error failed
        exact ⟨[], gate, entry, q, ⟨⟨rest, rfl⟩, here, ⟨q, member, unread⟩, by simp⟩, member,
          unread, rfl⟩
      next qubits read =>
        split at h
        next failed =>
          cases h
          obtain ⟨front, gate', other, q, first, member, unread, rfl⟩ := ih failed
          refine ⟨entry :: front, gate', other, q, first.cons ?_, member, unread, ?_⟩
          · rintro - - ⟨p, number, unread'⟩
            exact Entry.index?_of_indices read p number unread'
          · rw [List.length_cons, Nat.add_right_comm, Nat.add_assoc]
        · cases h

/-- If all numbers are indices, the first entry that is not sound is reported, with a rule that it
breaks, at its place among the recognised entries. -/
theorem exists_of_placeAll_eq_error {width : UInt32} {number : Int64} {place : Nat}
    (same : (width.toNat : Int) = number.toInt) (read : placements position entries = .ok found)
    (refused : Circuit.placeAll width place found = .error e) :
    ∃ front gate entry fault,
      FirstWith (fun gate entry => ¬entry.Sound gate number) entries front gate entry ∧
        entry.Breaks gate width fault ∧
        e = .placement gate (place + front.countP fun other => other.gate?.isSome) fault := by
  induction entries generalizing position place found with
  | nil =>
    cases read
    cases refused
  | cons entry rest ih =>
    rcases placements_cons_eq_ok read with
      ⟨unknown, behind⟩ | ⟨gate, qubits, behind, known, indices, placed, rfl⟩
    · obtain ⟨front, gate, other, fault, first, breaks, rfl⟩ := ih behind refused
      refine ⟨entry :: front, gate, other, fault, first.cons (by simp [unknown]), breaks, ?_⟩
      rw [List.countP_cons_of_neg (by simp [unknown])]
    · have numbers := Entry.ofNat_of_indices indices
      rcases Circuit.placeAll_cons_eq_error_iff.mp refused with
        ⟨fault, failed, rfl⟩ | ⟨op, kept, failed⟩
      · have breaks := Entry.breaks_of_place numbers failed
        exact ⟨[], gate, entry, fault, ⟨⟨rest, rfl⟩, known, breaks.not_sound same, by simp⟩,
          breaks, rfl⟩
      · obtain ⟨front, gate', other, fault, first, breaks, rfl⟩ := ih placed failed
        refine ⟨entry :: front, gate', other, fault, first.cons ?_, breaks, ?_⟩
        · intro g same_entry
          rw [known] at same_entry
          cases same_entry
          exact not_not_intro (Entry.sound_of_place same numbers kept)
        · rw [List.countP_cons_of_pos (by simp [known]), Nat.add_right_comm, Nat.add_assoc]

/-- A description that is refused for one of its entries is refused for the first recognised one
with a number that is no index, and the position is that of this entry among all entries. If there
is no such number it is refused for the first recognised entry that is not sound, with a rule that
this entry breaks. The position then is that of the entry, if all entries in front of it are
recognised. -/
theorem faulty_entries_are_located {d : Description} {e : CircuitError}
    (refused : d.build = .error e) (for_entry : e ≠ .qubitCount d.qubits) :
    (∃ front gate entry q, FirstWith (fun _ => Entry.Unreadable) d.entries front gate entry ∧
      q ∈ entry.qubits ∧ Entry.index? q = none ∧ e = .index gate front.length q) ∨
    (∀ entry ∈ d.entries, ∀ gate, entry.gate? = some gate → ¬entry.Unreadable) ∧
      ∃ front gate entry position fault,
        FirstWith (fun gate entry => ¬entry.Sound gate d.qubits) d.entries front gate entry ∧
        e = .placement gate position fault ∧
        (∃ width : UInt32, (width.toNat : Int) = d.qubits.toInt ∧ entry.Breaks gate width fault) ∧
        ((∀ other ∈ front, other.gate?.isSome) → position = front.length) := by
  rw [build] at refused
  split at refused
  · cases refused
    exact absurd rfl for_entry
  next width wide =>
    obtain ⟨pos, number⟩ := width?_eq_some_iff.mp wide
    have same : (width.toNat : Int) = d.qubits.toInt := by rw [← number, toInt_ofNat_toNat]
    split at refused
    next failed =>
      cases refused
      obtain ⟨front, gate, entry, q, first, member, unread, rfl⟩ :=
        exists_of_placements_eq_error failed
      exact .inl ⟨front, gate, entry, q, first, member, unread, by rw [Nat.zero_add]⟩
    next found read =>
      rw [Circuit.ofPlacements, dif_pos pos] at refused
      split at refused
      next failed =>
        cases refused
        obtain ⟨front, gate, entry, fault, first, breaks, rfl⟩ :=
          exists_of_placeAll_eq_error same read failed
        refine .inr ⟨readable_of_placements read, front, gate, entry, _, fault, first, rfl,
          ⟨width, same, breaks⟩, fun recognised => ?_⟩
        rw [Nat.zero_add, List.countP_eq_length.mpr recognised]
      · cases refused

/-- Two wrong entries behind one that is passed over. The number that is no index stands last. -/
def twoFaults : Description :=
  ⟨1, [⟨"ccx", [9], []⟩, ⟨"X", [5], []⟩, ⟨"X", [-1], []⟩]⟩

/-- A controlled gate on one qubit only, and a gate behind it that is out of range. -/
def crossed : Description :=
  ⟨2, [⟨"H", [0], []⟩, ⟨"CNOT", [1, 1], []⟩, ⟨"X", [7], []⟩]⟩

theorem faulty_entries_are_located_mixed :
    (twoFaults.build = .error (.index (.single .x) 2 (-1)) ∧
      ∃ front entry, FirstWith (fun _ => Entry.Unreadable) twoFaults.entries front (.single .x)
        entry ∧ front.length = 2) ∧
    crossed.build = .error (.placement .cnot 1 (.repeated 1)) ∧
      ∃ front entry, FirstWith (fun gate entry => ¬entry.Sound gate crossed.qubits) crossed.entries
        front .cnot entry ∧ front.length = 1 := by
  have refused : twoFaults.build = .error (.index (.single .x) 2 (-1)) := by decide +kernel
  have refused' : crossed.build = .error (.placement .cnot 1 (.repeated 1)) := by decide +kernel
  refine ⟨⟨refused, ?_⟩, refused', ?_⟩
  · rcases faulty_entries_are_located refused (by simp) with
      ⟨front, gate, entry, q, first, -, -, same⟩ |
        ⟨-, front, gate, entry, position, fault, -, same, -⟩
    · injection same with known position
      subst known
      exact ⟨front, entry, first, position.symm⟩
    · cases same
  · rcases faulty_entries_are_located refused' (by simp) with
      ⟨front, gate, entry, q, -, -, -, same⟩ |
        ⟨-, front, gate, entry, position, fault, first, same, -, place⟩
    · cases same
    · injection same with known here
      subst known here
      have recognised : ∀ other ∈ crossed.entries, other.gate?.isSome := by decide +kernel
      obtain ⟨behind, split⟩ := first.split
      refine ⟨front, entry, first, (place fun other member => recognised other ?_).symm⟩
      rw [split]
      exact List.mem_append_left _ member

/-- A number that is no index is reported although an entry in front of it is out of range. -/
theorem later_entry_is_reported :
    ¬ ∀ (d : Description) (e : CircuitError), d.build = .error e → e ≠ .qubitCount d.qubits →
      ∃ front gate entry,
        FirstWith (fun gate entry => ¬entry.Sound gate d.qubits) d.entries front gate entry ∧
          e.position? = some front.length := by
  intro located
  have refused : (⟨1, [⟨"X", [5], []⟩, ⟨"X", [-1], []⟩]⟩ : Description).build =
      .error (.index (.single .x) 1 (-1)) := by decide +kernel
  obtain ⟨front, gate, entry, ⟨⟨behind, split⟩, -, -, clean⟩, position⟩ :=
    located _ _ refused (by simp)
  have length : 1 = front.length := Option.some.inj position
  obtain ⟨first, rfl⟩ := List.length_eq_one_iff.mp length.symm
  have here : (⟨"X", [5], []⟩ : Entry) = first := (List.cons.inj split).1
  have sound := not_not.mp (clean first (by simp) (.single .x) (by rw [← here]; decide +kernel))
  rw [← here] at sound
  have below := (sound.inside 5 (by simp)).2
  revert below
  decide

end Description

end CircuitBench
