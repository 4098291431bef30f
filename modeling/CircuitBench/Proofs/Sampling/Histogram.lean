import CircuitBench.Histogram
import CircuitBench.Power
import Mathlib

/-!
# Histograms of different bitstrings

A dictionary holds exactly its entries, so a value is found under a key if and only if the
pair of them is an entry. Pairs with different keys are collected as they are: the histogram
has these pairs and no others, in the order of their keys, and its total is the sum of their
counts as long as that fits into 64 bits.
-/

namespace CircuitBench

namespace Dictionary

variable {β : Type}

/-- An entry under a key that is not there yet is put between the others. -/
theorem put_perm (merge : β → β → β) {key : String} (value : β) {entries : List (String × β)}
    (fresh : key ∉ entries.map Prod.fst) :
    (put merge key value entries).Perm ((key, value) :: entries) := by
  induction entries with
  | nil => exact .refl _
  | cons head rest ih =>
    obtain ⟨other, old⟩ := head
    simp only [List.map_cons, List.mem_cons, not_or] at fresh
    unfold put
    split
    · exact .refl _
    · rw [if_neg fresh.1]
      exact ((ih fresh.2).cons (other, old)).trans (.swap _ _ rest)

theorem nodup_keys (d : Dictionary β) : (d.entries.map Prod.fst).Nodup := by
  refine (List.pairwise_map.mpr d.sorted).imp ?_
  intro a b less
  exact fun same => String.lt_irrefl b (same ▸ less)

theorem lookup_eq_some_iff {entries : List (String × β)} {key : String} {value : β}
    (nodup : (entries.map Prod.fst).Nodup) :
    entries.lookup key = some value ↔ (key, value) ∈ entries := by
  induction entries with
  | nil => simp
  | cons head rest ih =>
    obtain ⟨other, old⟩ := head
    simp only [List.map_cons, List.nodup_cons] at nodup
    by_cases same : key = other
    · subst same
      have missing : (key, value) ∉ rest := fun member =>
        nodup.1 (List.mem_map.mpr ⟨_, member, rfl⟩)
      simp [missing, eq_comm]
    · have apart : (key == other) = false := by simpa using same
      simp [List.lookup_cons, apart, ih nodup.2, same]

/-- Dictionaries with the same entries are the same, because the order is that of the keys. -/
theorem eq_of_mem_iff {d e : Dictionary β}
    (same : ∀ key value, (key, value) ∈ d.entries ↔ (key, value) ∈ e.entries) : d = e := by
  refine ext_iff.mpr (List.Perm.eq_of_pairwise ?_ d.sorted e.sorted ?_)
  · exact fun _ _ _ _ less greater => absurd greater (String.lt_asymm less)
  · exact (List.perm_ext_iff_of_nodup d.nodup_keys.of_map e.nodup_keys.of_map).mpr
      fun entry => same entry.1 entry.2

theorem get?_eq_some_iff {d : Dictionary β} {key : String} {value : β} :
    d.get? key = some value ↔ (key, value) ∈ d.entries :=
  lookup_eq_some_iff d.nodup_keys

end Dictionary

namespace Histogram

/-- Pairs with different keys are the entries of the histogram that collects them. -/
theorem collect_perm {pairs : List (String × UInt64)} (nodup : (pairs.map Prod.fst).Nodup) :
    (collect pairs).entries.Perm pairs := by
  induction pairs with
  | nil => exact .refl _
  | cons pair rest ih =>
    obtain ⟨key, count⟩ := pair
    simp only [List.map_cons, List.nodup_cons] at nodup
    have behind := ih nodup.2
    have fresh : key ∉ (collect rest).entries.map Prod.fst := by
      rw [(behind.map Prod.fst).mem_iff]
      exact nodup.1
    exact (Dictionary.put_perm _ count fresh).trans (behind.cons _)

theorem get?_collect {pairs : List (String × UInt64)} (nodup : (pairs.map Prod.fst).Nodup)
    {key : String} {count : UInt64} :
    (collect pairs).get? key = some count ↔ (key, count) ∈ pairs := by
  rw [Dictionary.get?_eq_some_iff, (collect_perm nodup).mem_iff]

theorem get?_collect_eq_none {pairs : List (String × UInt64)}
    (nodup : (pairs.map Prod.fst).Nodup) {key : String} :
    (collect pairs).get? key = none ↔ key ∉ pairs.map Prod.fst := by
  rw [Option.eq_none_iff_forall_ne_some]
  simp only [ne_eq, get?_collect nodup, List.mem_map, not_exists, not_and, Prod.forall]
  grind

/-- Counts that add up to a number of 64 bits have that total. -/
theorem toNat_foldl_add (counts : List UInt64) (start : UInt64)
    (small : start.toNat + (counts.map UInt64.toNat).sum < 2 ^ 64) :
    (counts.foldl (· + ·) start).toNat = start.toNat + (counts.map UInt64.toNat).sum := by
  induction counts generalizing start with
  | nil => simp
  | cons count rest ih =>
    simp only [List.map_cons, List.sum_cons] at small ⊢
    have sum : (start + count).toNat = start.toNat + count.toNat := by
      rw [UInt64.toNat_add, Nat.mod_eq_of_lt (by omega)]
    rw [List.foldl_cons, ih _ (by omega), sum]
    omega

theorem toNat_total_collect {pairs : List (String × UInt64)} (nodup : (pairs.map Prod.fst).Nodup)
    (small : (pairs.map fun pair => pair.2.toNat).sum < 2 ^ 64) :
    (collect pairs).total.toNat = (pairs.map fun pair => pair.2.toNat).sum := by
  have same : ((collect pairs).entries.map fun pair => pair.2.toNat).sum =
      (pairs.map fun pair => pair.2.toNat).sum :=
    ((collect_perm nodup).map fun pair => pair.2.toNat).sum_eq
  rw [total, toNat_foldl_add, List.map_map]
  · simpa [Function.comp_def] using same
  · simpa [same, Function.comp_def] using small

end Histogram

end CircuitBench
