import CircuitBench.Proofs.Sampling.Histogram
import CircuitBench.Proofs.Text.ByteOrder
import Mathlib

/-!
# Collecting counts in any order

Occurrences are added to a histogram one pair after the other, and a bitstring may come again. Two
additions can be exchanged, so the order of the pairs does not matter. As long as all counts
together fit into 64 bits, no addition goes beyond them: the count of a bitstring is the sum of the
counts that came with it, and the total is the sum of all.

By descending count, and by bitstring where counts are equal, there is one order only, since no
bitstring is listed twice.
-/

namespace CircuitBench.Histogram

section Order

/-- What is found after occurrences of a bitstring have been added. -/
theorem get?_add (h : Histogram) (key : String) (n : UInt64) (other : String) :
    (h.add key n).get? other = if other = key then some (h.count key + n) else h.get? other := by
  rw [add, Dictionary.get?_insertWith, count]
  cases h.get? key <;> simp

/-- Two additions can be exchanged. -/
theorem add_right_comm (h : Histogram) (key key' : String) (n n' : UInt64) :
    (h.add key n).add key' n' = (h.add key' n').add key n := by
  refine Dictionary.eq_of_mem_iff fun other count => ?_
  simp only [← Dictionary.get?_eq_some_iff, get?_add, count_add]
  by_cases here : other = key
  · subst here
    by_cases twice : other = key'
    · subst twice
      simp [UInt64.add_assoc, UInt64.add_comm n]
    · simp [twice]
  · by_cases there : other = key'
    · subst there
      simp [here]
    · simp [here, there]

theorem collect_of_perm {pairs others : List (String × UInt64)} (same : others.Perm pairs) :
    collect others = collect pairs :=
  same.foldr_eq' (fun pair _ other _ h => add_right_comm h pair.1 other.1 pair.2 other.2) _

/-- Pairs that are added from the first on make the same histogram. -/
theorem foldl_add (pairs : List (String × UInt64)) :
    pairs.foldl (fun h pair => h.add pair.1 pair.2) .empty = collect pairs := by
  rw [List.foldl_eq_foldr_reverse]
  exact collect_of_perm (List.reverse_perm pairs)

end Order

section Sums

def sumOf (pairs : List (String × UInt64)) : Nat :=
  (pairs.map fun pair => pair.2.toNat).sum

/-- What the counts of one bitstring come to. -/
def sumFor (key : String) (pairs : List (String × UInt64)) : Nat :=
  sumOf (pairs.filter (·.1 = key))

theorem sumOf_cons (pair : String × UInt64) (pairs : List (String × UInt64)) :
    sumOf (pair :: pairs) = pair.2.toNat + sumOf pairs := by
  simp [sumOf]

theorem sumFor_cons (key : String) (pair : String × UInt64) (pairs : List (String × UInt64)) :
    sumFor key (pair :: pairs) =
      (if pair.1 = key then pair.2.toNat else 0) + sumFor key pairs := by
  by_cases here : pair.1 = key <;> simp [sumFor, here, sumOf_cons]

theorem sumFor_le (key : String) (pairs : List (String × UInt64)) :
    sumFor key pairs ≤ sumOf pairs := by
  induction pairs with
  | nil => exact le_rfl
  | cons pair rest ih =>
    rw [sumFor_cons, sumOf_cons]
    split_ifs <;> omega

theorem toNat_add_of_lt {m n : UInt64} (small : m.toNat + n.toNat < 2 ^ 64) :
    (m + n).toNat = m.toNat + n.toNat := by
  rw [UInt64.toNat_add, Nat.mod_eq_of_lt small]

/-- A bitstring is counted with the sum of its counts. -/
theorem toNat_count_collect {pairs : List (String × UInt64)} (small : sumOf pairs < 2 ^ 64)
    (key : String) : ((collect pairs).count key).toNat = sumFor key pairs := by
  induction pairs with
  | nil => rfl
  | cons pair rest ih =>
    rw [sumOf_cons] at small
    have behind := ih (by omega)
    have upto := sumFor_le key rest
    have one_more : collect (pair :: rest) = (collect rest).add pair.1 pair.2 := rfl
    rw [one_more, count_add, sumFor_cons]
    by_cases here : pair.1 = key
    · rw [if_pos here.symm, if_pos here, here, toNat_add_of_lt (by omega), behind, Nat.add_comm]
    · rw [if_neg (Ne.symm here), if_neg here, behind, Nat.zero_add]

/-- What is put among entries is added to their sum. -/
theorem sumOf_put {key : String} {n : UInt64} {entries : List (String × UInt64)}
    (small : sumOf entries + n.toNat < 2 ^ 64) :
    sumOf (Dictionary.put (· + ·) key n entries) = sumOf entries + n.toNat := by
  induction entries with
  | nil => simp [Dictionary.put, sumOf]
  | cons entry rest ih =>
    obtain ⟨other, old⟩ := entry
    simp only [sumOf_cons] at small ⊢
    unfold Dictionary.put
    split_ifs
    · simp only [sumOf_cons]
      omega
    · simp only [sumOf_cons, toNat_add_of_lt (m := old) (n := n) (by omega)]
      omega
    · simp only [sumOf_cons, ih (by omega)]
      omega

theorem sumOf_entries_collect {pairs : List (String × UInt64)} (small : sumOf pairs < 2 ^ 64) :
    sumOf (collect pairs).entries = sumOf pairs := by
  induction pairs with
  | nil => rfl
  | cons pair rest ih =>
    rw [sumOf_cons] at small
    have behind := ih (by omega)
    have one_more : (collect (pair :: rest)).entries =
        Dictionary.put (· + ·) pair.1 pair.2 (collect rest).entries := rfl
    rw [one_more, sumOf_put (by omega), behind, sumOf_cons, Nat.add_comm]

/-- The total is the sum of all counts. -/
theorem toNat_total_eq_sumOf {pairs : List (String × UInt64)} (small : sumOf pairs < 2 ^ 64) :
    (collect pairs).total.toNat = sumOf pairs := by
  have sum := sumOf_entries_collect small
  have same : ((collect pairs).entries.map (·.2)).map UInt64.toNat =
      (collect pairs).entries.map fun pair => pair.2.toNat := by
    rw [List.map_map]
    rfl
  rw [total, toNat_foldl_add, same]
  · exact (Nat.zero_add _).trans sum
  · rw [same]
    exact (Nat.zero_add _).trans_lt (sum.trans_lt small)

end Sums

section Keys

theorem mem_keys_iff {h : Histogram} {key : String} :
    key ∈ h.entries.map Prod.fst ↔ (h.get? key).isSome := by
  rw [Option.isSome_iff_exists]
  simp only [Dictionary.get?_eq_some_iff, List.mem_map, Prod.exists, exists_and_right,
    exists_eq_right]

/-- A bitstring is listed if it came with some pair. -/
theorem mem_keys_collect {pairs : List (String × UInt64)} {key : String} :
    key ∈ (collect pairs).entries.map Prod.fst ↔ key ∈ pairs.map Prod.fst := by
  induction pairs with
  | nil => exact Iff.rfl
  | cons pair rest ih =>
    have one_more : collect (pair :: rest) = (collect rest).add pair.1 pair.2 := rfl
    rw [mem_keys_iff] at ih
    rw [one_more, mem_keys_iff, get?_add, List.map_cons, List.mem_cons]
    by_cases here : key = pair.1
    · simp [here]
    · rw [if_neg here, ih, or_iff_right here]

/-- There are as many entries as there are different bitstrings. -/
theorem size_collect (pairs : List (String × UInt64)) :
    (collect pairs).size = (pairs.map Prod.fst).toFinset.card := by
  have same : ((collect pairs).entries.map Prod.fst).toFinset = (pairs.map Prod.fst).toFinset := by
    ext key
    rw [List.mem_toFinset, List.mem_toFinset, mem_keys_collect]
  rw [← same, List.toFinset_card_of_nodup (Dictionary.nodup_keys _), List.length_map]
  rfl

theorem pairwise_bytes (h : Histogram) :
    h.entries.Pairwise fun a b => Text.bytes a.1 < Text.bytes b.1 :=
  h.sorted.imp Text.bytes_lt_bytes_iff.mpr

end Keys

section ByCount

/-- An entry is listed before another one: it has the greater count, or the same count and the
bitstring that comes first. -/
def RanksBefore (a b : String × UInt64) : Prop :=
  b.2 < a.2 ∨ a.2 = b.2 ∧ Text.bytes a.1 < Text.bytes b.1

theorem RanksBefore.asymm {a b : String × UInt64} (before : RanksBefore a b) :
    ¬RanksBefore b a := by
  rintro (less | ⟨same, key⟩)
  · rcases before with greater | ⟨same, -⟩
    · exact UInt64.lt_asymm less greater
    · exact absurd (same ▸ less) (UInt64.lt_irrefl _)
  · rcases before with greater | ⟨-, key'⟩
    · exact absurd (same ▸ greater) (UInt64.lt_irrefl _)
    · exact List.lt_asymm key key'

theorem byCount_perm (h : Histogram) : h.byCount.Perm h.entries :=
  List.mergeSort_perm _ _

theorem byCount_pairwise (h : Histogram) : h.byCount.Pairwise RanksBefore := by
  have sorted : h.byCount.Pairwise fun a b => b.2 < a.2 ∨ a.2 = b.2 ∧ a.1 ≤ b.1 := by
    refine (List.pairwise_mergeSort ?_ ?_ _).imp fun {a b} ranked => by simpa using ranked
    · intro a b c
      simp only [Bool.or_eq_true, Bool.and_eq_true, decide_eq_true_eq]
      rintro (less | ⟨same, key⟩) (less' | ⟨same', key'⟩)
      · exact .inl (UInt64.lt_trans less' less)
      · exact .inl (same' ▸ less)
      · exact .inl (same.symm ▸ less')
      · exact .inr ⟨same.trans same', String.le_trans key key'⟩
    · intro a b
      simp only [Bool.or_eq_true, Bool.and_eq_true, decide_eq_true_eq]
      rcases Nat.lt_trichotomy a.2.toNat b.2.toNat with less | same | greater
      · exact .inr (.inl (UInt64.lt_iff_toNat_lt.mpr less))
      · have same := UInt64.toNat_inj.mp same
        rcases String.le_total a.1 b.1 with key | key
        · exact .inl (.inr ⟨same, key⟩)
        · exact .inr (.inr ⟨same.symm, key⟩)
      · exact .inl (.inl (UInt64.lt_iff_toNat_lt.mpr greater))
  have apart : h.byCount.Pairwise fun a b => a.1 ≠ b.1 :=
    List.pairwise_map.mp ((h.byCount_perm.map Prod.fst).nodup_iff.mpr (Dictionary.nodup_keys h))
  refine (sorted.and apart).imp fun {a b} ⟨ranked, different⟩ => ?_
  refine ranked.imp_right fun ⟨same, key⟩ => ⟨same, Text.bytes_lt_bytes_iff.mpr ?_⟩
  exact String.not_le.mp fun back => different (String.le_antisymm key back)

/-- There is only one list of the entries in that order. -/
theorem eq_byCount_iff {h : Histogram} {list : List (String × UInt64)} :
    list = h.byCount ↔ list.Perm h.entries ∧ list.Pairwise RanksBefore := by
  constructor
  · rintro rfl
    exact ⟨h.byCount_perm, h.byCount_pairwise⟩
  · rintro ⟨perm, ordered⟩
    exact (perm.trans h.byCount_perm.symm).eq_of_pairwise
      (fun _ _ _ _ before behind => absurd behind before.asymm) ordered h.byCount_pairwise

end ByCount

end CircuitBench.Histogram
