import CircuitBench.Backend.Registry
import CircuitBench.Proofs.Sampling.Histogram
import CircuitBench.Proofs.Text.ByteOrder
import Mathlib

/-!
# Which registrations a selection comes from

A registry is made by registrations one after the other, and a name stands for the last of its
registrations. What is selected depends on these last registrations alone. Those of the preferred
generations are tried by the place of their generation and then by the bytes of their names, and
the first of them that succeeds is the one selected.

A registry may as well be a table that lists its names in any order. The names of a generation are
then collected and sorted before they are tried, and the selection is the same.
-/

namespace CircuitBench.Registry

variable {R : Type}

/-- The registry that registrations make, one after the other. -/
def registered (calls : List (String × Registration R)) : Registry R :=
  calls.foldl (fun registry call => registry.register call.1 call.2.generation call.2.create) .empty

/-- A name stands for a registration: it is the last one of the name. -/
def StandsFor (calls : List (String × Registration R)) (name : String)
    (registration : Registration R) : Prop :=
  ∃ before behind, calls = before ++ (name, registration) :: behind ∧
    ∀ later ∈ behind, later.1 ≠ name

section Registrations

variable {calls : List (String × Registration R)} {name : String} {registration : Registration R}

theorem not_standsFor_nil : ¬StandsFor [] name registration := by
  rintro ⟨before, behind, parts, -⟩
  simp at parts

/-- One more registration takes its own name over and no other. -/
theorem standsFor_append_singleton {call : String × Registration R} :
    StandsFor (calls ++ [call]) name registration ↔
      if name = call.1 then registration = call.2 else StandsFor calls name registration := by
  constructor
  · rintro ⟨before, behind, parts, last⟩
    rcases List.eq_nil_or_concat behind with rfl | ⟨behind, final, rfl⟩
    · obtain ⟨rfl, rfl⟩ := List.append_singleton_inj.mp parts
      rw [if_pos rfl]
    · rw [List.concat_eq_append, ← List.cons_append, ← List.append_assoc,
        List.append_singleton_inj] at parts
      obtain ⟨rfl, rfl⟩ := parts
      rw [if_neg fun same => last call (by simp) same.symm]
      exact ⟨before, behind, rfl, fun later member => last later (by simp [member])⟩
  · split_ifs with same
    · rintro rfl
      exact ⟨calls, [], by rw [same], by simp⟩
    · rintro ⟨before, behind, rfl, last⟩
      refine ⟨before, behind ++ [call], by simp, fun later member => ?_⟩
      rcases List.mem_append.mp member with member | member
      · exact last later member
      · rw [List.mem_singleton.mp member]
        exact fun other => same other.symm

/-- What a registry knows under a name is what the name stands for. -/
theorem get?_registered :
    (registered calls).get? name = some registration ↔ StandsFor calls name registration := by
  induction calls using List.reverseRecOn with
  | nil => exact iff_of_false (by simp [registered]) not_standsFor_nil
  | append_singleton calls call ih =>
    have one_more : registered (calls ++ [call]) =
        (registered calls).insertWith (fun _ new => new) call.1 call.2 := by
      rw [registered, List.foldl_append]
      rfl
    rw [one_more, Dictionary.get?_insertWith, standsFor_append_singleton, ← ih]
    split_ifs
    · cases (registered calls).get? call.1 <;> simp [eq_comm]
    · rfl

theorem mem_entries_registered :
    (name, registration) ∈ (registered calls).entries ↔ StandsFor calls name registration := by
  rw [← Dictionary.get?_eq_some_iff, get?_registered]

/-- Registrations in another order make the same registry if every name stands for the same. -/
theorem registered_congr {others : List (String × Registration R)}
    (same : ∀ name registration,
      StandsFor others name registration ↔ StandsFor calls name registration) :
    registered others = registered calls := by
  refine Dictionary.eq_of_mem_iff fun name registration => ?_
  rw [mem_entries_registered, mem_entries_registered, same]

end Registrations

section Order

/-- An entry belongs to a generation that is tried. -/
def IsCandidate (preference : Preference) (entry : String × Registration R) : Prop :=
  entry.2.generation ∈ preference.generations

/-- The order in which entries are tried: by the place of the generation in the list of the
preference, and within a generation by the bytes of the name. -/
def TriedBefore (preference : Preference) (entry other : String × Registration R) : Prop :=
  preference.generations.idxOf entry.2.generation <
      preference.generations.idxOf other.2.generation ∨
    entry.2.generation = other.2.generation ∧ Text.bytes entry.1 < Text.bytes other.1

theorem TriedBefore.asymm {preference : Preference} {entry other : String × Registration R}
    (before : TriedBefore preference entry other) : ¬TriedBefore preference other entry := by
  rintro (place | ⟨generation, name⟩)
  · rcases before with place' | ⟨generation, -⟩
    · omega
    · rw [generation] at place
      omega
  · rcases before with place | ⟨-, name'⟩
    · rw [generation] at place
      omega
    · exact List.lt_asymm name name'

/-- In a list that is in an asymmetric order, the first value that a function finds is found at an
element before which it finds none. -/
theorem findSome?_eq_some_iff_of_pairwise {α β : Type} {before : α → α → Prop}
    (asymm : ∀ {a b}, before a b → ¬before b a) {f : α → Option β} {l : List α}
    (ordered : l.Pairwise before) {b : β} :
    l.findSome? f = some b ↔
      ∃ a ∈ l, f a = some b ∧ ∀ other ∈ l, before other a → f other = none := by
  rw [List.findSome?_eq_some_iff]
  constructor
  · rintro ⟨front, a, rest, rfl, found, none⟩
    obtain ⟨-, ordered, -⟩ := List.pairwise_append.mp ordered
    have behind := (List.pairwise_cons.mp ordered).1
    refine ⟨a, by simp, found, fun other member earlier => ?_⟩
    rcases List.mem_append.mp member with member | member
    · exact none other member
    · rcases List.mem_cons.mp member with rfl | member
      · exact absurd earlier (asymm earlier)
      · exact absurd earlier (asymm (behind other member))
  · rintro ⟨a, member, found, none⟩
    obtain ⟨front, rest, rfl⟩ := List.append_of_mem member
    obtain ⟨-, -, across⟩ := List.pairwise_append.mp ordered
    exact ⟨front, a, rest, rfl, found, fun other here =>
      none other (List.mem_append_left _ here) (across other here a List.mem_cons_self)⟩

variable (registry : Registry R) (preference : Preference)

def tried : List (String × Registration R) :=
  preference.generations.flatMap fun generation =>
    registry.entries.filter (·.2.generation = generation)

theorem candidates_eq_map_tried :
    registry.candidates preference = (registry.tried preference).map Prod.snd := by
  rw [candidates, tried, List.map_flatMap]
  refine congrArg (List.flatMap · _) (funext fun generation => ?_)
  rw [ofGeneration, List.filter_map]
  rfl

variable {registry preference}

theorem mem_tried {entry : String × Registration R} :
    entry ∈ registry.tried preference ↔
      entry ∈ registry.entries ∧ IsCandidate preference entry := by
  simp only [tried, List.mem_flatMap, List.mem_filter, decide_eq_true_eq, IsCandidate]
  constructor
  · rintro ⟨generation, listed, member, rfl⟩
    exact ⟨member, listed⟩
  · rintro ⟨member, listed⟩
    exact ⟨_, listed, member, rfl⟩

/-- The generations that are tried are different ones, in the order of their places. -/
theorem generations_pairwise (preference : Preference) :
    preference.generations.Pairwise fun g h =>
      preference.generations.idxOf g < preference.generations.idxOf h := by
  cases preference <;> decide

theorem tried_pairwise : (registry.tried preference).Pairwise (TriedBefore preference) := by
  rw [tried, List.pairwise_flatMap]
  constructor
  · intro generation _
    refine (registry.sorted.filter _).imp_of_mem ?_
    intro entry other here there less
    have same := of_decide_eq_true (List.mem_filter.mp here).2
    have same' := of_decide_eq_true (List.mem_filter.mp there).2
    exact .inr ⟨same.trans same'.symm, Text.bytes_lt_bytes_iff.mpr less⟩
  · refine (generations_pairwise preference).imp ?_
    intro g h place entry here other there
    have same : entry.2.generation = g := of_decide_eq_true (List.mem_filter.mp here).2
    have same' : other.2.generation = h := of_decide_eq_true (List.mem_filter.mp there).2
    exact .inl (by rwa [same, same'])

end Order

section Selection

variable {registry : Registry R} {preference : Preference} {options : BackendOptions}

/-- A registration does not succeed. -/
def Fails (registration : Registration R) (options : BackendOptions) : Prop :=
  ∃ error, registration.create options = .error error

theorem toOption_eq_none_iff {registration : Registration R} :
    (registration.create options).toOption = none ↔ Fails registration options := by
  rw [Fails]
  cases registration.create options <;> simp [Except.toOption]

theorem toOption_eq_some_iff {registration : Registration R} {backend : Backend R} :
    (registration.create options).toOption = some backend ↔
      registration.create options = .ok backend := by
  cases registration.create options <;> simp [Except.toOption]

theorem select_eq_tried : registry.select preference options =
    match (registry.tried preference).findSome? fun entry => (entry.2.create options).toOption with
    | some backend => .ok backend
    | none => .error (.noneAvailable preference) := by
  rw [select, candidates_eq_map_tried, List.findSome?_map]
  rfl

/-- The backend selected is created by the first entry in the order of trying that succeeds. -/
theorem select_eq_ok_iff {backend : Backend R} :
    registry.select preference options = .ok backend ↔
      ∃ entry ∈ registry.entries, IsCandidate preference entry ∧
        entry.2.create options = .ok backend ∧
        ∀ other ∈ registry.entries, IsCandidate preference other →
          TriedBefore preference other entry → Fails other.2 options := by
  have ordered : (registry.tried preference).Pairwise (TriedBefore preference) := tried_pairwise
  have first := findSome?_eq_some_iff_of_pairwise TriedBefore.asymm ordered
    (f := fun entry => (entry.2.create options).toOption) (b := backend)
  simp only [mem_tried, toOption_eq_some_iff, toOption_eq_none_iff, and_imp, and_assoc] at first
  rw [← first, select_eq_tried]
  cases (registry.tried preference).findSome? fun entry => (entry.2.create options).toOption <;>
    simp

theorem select_eq_error_iff {error : BackendError} :
    registry.select preference options = .error error ↔ error = .noneAvailable preference ∧
      ∀ entry ∈ registry.entries, IsCandidate preference entry → Fails entry.2 options := by
  have none_found : ((registry.tried preference).findSome?
        fun entry => (entry.2.create options).toOption) = none ↔
      ∀ entry ∈ registry.entries, IsCandidate preference entry → Fails entry.2 options := by
    simp only [List.findSome?_eq_none_iff, mem_tried, toOption_eq_none_iff, and_imp]
  rw [← none_found, select_eq_tried]
  cases (registry.tried preference).findSome? fun entry => (entry.2.create options).toOption <;>
    simp [eq_comm]

end Selection

section Tables

def sortedNames (table : List (String × Registration R)) (generation : Generation) : List String :=
  ((table.filter (·.2.generation = generation)).map Prod.fst).mergeSort
    fun name other => decide (Text.bytes name ≤ Text.bytes other)

/-- The search in a table that lists its names in any order: the names of the preferred generations
are collected and sorted, and each is looked up in the table again. -/
def selectFrom (table : List (String × Registration R)) (preference : Preference)
    (options : BackendOptions) : Except BackendError (Backend R) :=
  match (preference.generations.flatMap (sortedNames table)).findSome? fun name =>
      (table.lookup name).bind fun registration => (registration.create options).toOption with
  | some backend => .ok backend
  | none => .error (.noneAvailable preference)

variable {table : List (String × Registration R)} {registry : Registry R}
  (listed : table.Perm registry.entries)

include listed

/-- Whatever the order of the table, the names of a generation are tried in ascending order. -/
theorem sortedNames_of_perm (generation : Generation) : sortedNames table generation =
    (registry.entries.filter (·.2.generation = generation)).map Prod.fst := by
  have by_name : (fun name other : String => decide (Text.bytes name ≤ Text.bytes other)) =
      fun name other => decide (name ≤ other) := by
    funext name other
    exact decide_eq_decide.mpr Text.bytes_le_bytes_iff
  rw [sortedNames, by_name]
  refine List.Perm.eq_of_pairwise
    (fun name other _ _ (below : name ≤ other) above => String.le_antisymm below above) ?_ ?_ ?_
  · refine (List.pairwise_mergeSort ?_ ?_ _).imp of_decide_eq_true
    · intro a b c
      simpa using String.le_trans
    · intro a b
      simpa using String.le_total a b
  · refine List.pairwise_map.mpr ((registry.sorted.filter _).imp ?_)
    exact fun less => String.not_lt.mp (String.lt_asymm less)
  · exact (List.mergeSort_perm _ _).trans ((listed.filter _).map _)

theorem lookup_of_mem {entry : String × Registration R} (member : entry ∈ registry.entries) :
    table.lookup entry.1 = some entry.2 := by
  have nodup : (table.map Prod.fst).Nodup := (listed.map _).nodup_iff.mpr registry.nodup_keys
  exact (Dictionary.lookup_eq_some_iff nodup).mpr (listed.mem_iff.mpr member)

/-- The order in which a table lists its names does not matter to the selection. -/
theorem selectFrom_of_perm (preference : Preference) (options : BackendOptions) :
    selectFrom table preference options = registry.select preference options := by
  have names : preference.generations.flatMap (sortedNames table) =
      (registry.tried preference).map Prod.fst := by
    rw [tried, List.map_flatMap]
    exact congrArg (List.flatMap · _) (funext (sortedNames_of_perm listed))
  have same : ((registry.tried preference).map Prod.fst).findSome? (fun name =>
        (table.lookup name).bind fun registration => (registration.create options).toOption) =
      (registry.tried preference).findSome? fun entry => (entry.2.create options).toOption := by
    rw [List.findSome?_map, ← List.head?_filterMap, ← List.head?_filterMap]
    refine congrArg List.head? (List.filterMap_congr fun entry member => ?_)
    rw [Function.comp_apply, lookup_of_mem listed (mem_tried.mp member).1, Option.bind_some]
  rw [selectFrom, names, same, select_eq_tried]

end Tables

/-- After any registrations, of which the last of a name counts, the backend selected is created by
the first registration that succeeds, in the order of the places of the generations in the list of
the preference and then of the bytes of the names; registrations of other generations are not tried.
No backend is available if and only if none of these registrations succeeds. Other registrations
that leave every name standing for the same make the same selections, and so does a table that
lists what the names stand for in any order. -/
theorem selection_follows_last_registrations (calls : List (String × Registration R))
    (preference : Preference) (options : BackendOptions) :
    (∀ backend, (registered calls).select preference options = .ok backend ↔
      ∃ name registration, StandsFor calls name registration ∧
        IsCandidate preference (name, registration) ∧ registration.create options = .ok backend ∧
        ∀ other another, StandsFor calls other another → IsCandidate preference (other, another) →
          TriedBefore preference (other, another) (name, registration) → Fails another options) ∧
    ((∃ error, (registered calls).select preference options = .error error ∧
        error.errorClass = .unavailable) ↔
      ∀ name registration, StandsFor calls name registration →
        IsCandidate preference (name, registration) → Fails registration options) ∧
    (∀ error, (registered calls).select preference options = .error error →
      error.errorClass = .unavailable) ∧
    (∀ others : List (String × Registration R),
      (∀ name registration,
        StandsFor others name registration ↔ StandsFor calls name registration) →
      (registered others).select preference options =
        (registered calls).select preference options) ∧
    ∀ table : List (String × Registration R), (table.map Prod.fst).Nodup →
      (∀ name registration, (name, registration) ∈ table ↔ StandsFor calls name registration) →
      selectFrom table preference options = (registered calls).select preference options := by
  have fails : (∀ entry ∈ (registered calls).entries, IsCandidate preference entry →
      Fails entry.2 options) ↔ ∀ name registration, StandsFor calls name registration →
        IsCandidate preference (name, registration) → Fails registration options := by
    simp only [Prod.forall, mem_entries_registered]
  refine ⟨fun backend => ?_, ?_, ?_, fun others same => ?_, fun table nodup lists => ?_⟩
  · simp only [select_eq_ok_iff, Prod.exists, Prod.forall, mem_entries_registered]
  · simp only [select_eq_error_iff, fails]
    constructor
    · rintro ⟨error, ⟨-, all⟩, -⟩
      exact all
    · exact fun all => ⟨_, ⟨rfl, all⟩, rfl⟩
  · intro error failed
    rw [(select_eq_error_iff.mp failed).1]
    rfl
  · rw [registered_congr same]
  · refine selectFrom_of_perm ?_ preference options
    refine (List.perm_ext_iff_of_nodup nodup.of_map (Dictionary.nodup_keys _).of_map).mpr ?_
    rintro ⟨name, registration⟩
    rw [lists, mem_entries_registered]

end CircuitBench.Registry
