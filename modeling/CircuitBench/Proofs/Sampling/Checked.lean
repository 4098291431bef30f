import CircuitBench.Proofs.Backend.IterationOrder
import Mathlib

/-!
# Sampling with every step checked

A run draws outcomes, counts them in a table, may turn the counts into shares, and adds counts up in
a histogram. Here the running sums are read at plain indices, and subtractions, divisions and sums
are checked. No check fails if there are probabilities and shots, if the shots are fewer than a
counter can count, and if the sum of all counts that are added fits into 64 bits.
-/

namespace CircuitBench

namespace Sampling

section Draw

/-- The search by halving with a property that cannot be decided everywhere. -/
def turningPointChecked? (holds? : Nat → Option Bool) (low high : Nat) : Option Nat :=
  if low < high then
    let middle := (low + high) / 2
    match holds? middle with
    | none => none
    | some true => turningPointChecked? holds? (middle + 1) high
    | some false => turningPointChecked? holds? low middle
  else some low
termination_by high - low

theorem turningPointChecked?_eq {holds? : Nat → Option Bool} {holds : Nat → Bool} {low high : Nat}
    (decided : ∀ i < high, holds? i = some (holds i)) :
    turningPointChecked? holds? low high = some (turningPoint holds low high) := by
  fun_induction turningPoint holds low high with
  | case1 low high searching middle held ih =>
    have here : holds? ((low + high) / 2) = some true := held ▸ decided middle (by omega)
    rw [turningPointChecked?, if_pos searching]
    simp only [here]
    exact ih decided
  | case2 low high searching middle failed ih =>
    have here : holds? ((low + high) / 2) = some false :=
      Bool.eq_false_iff.mpr failed ▸ decided middle (by omega)
    rw [turningPointChecked?, if_pos searching]
    simp only [here]
    exact ih fun i less => decided i (by omega)
  | case3 low high done => rw [turningPointChecked?, if_neg done]

def sub? (m n : Nat) : Option Nat :=
  if n ≤ m then some (m - n) else none

variable {R : Type} [Chance R]

/-- The outcome that a number selects; none if a running sum is missing, or if there are none. -/
def selectChecked? (sums : Array R) (r : R) : Option Nat := do
  let place ← turningPointChecked? (fun i => sums[i]?.map fun sum => Chance.atMost sum r) 0
    sums.size
  return min place (← sub? sums.size 1)

def outcomesChecked? (probabilities : Array R) (words : List UInt64) : Option (List Nat) :=
  let sums := runningSums probabilities
  let total := sums.back?.getD 0
  words.mapM fun word => selectChecked? sums (Chance.draw word * total)

theorem selectChecked?_eq {sums : Array R} (pos : 0 < sums.size) (r : R) :
    selectChecked? sums r = some (select sums r) := by
  have found : turningPointChecked? (fun i => sums[i]?.map fun sum => Chance.atMost sum r) 0
      sums.size = some (turningPoint (fun i => sums[i]?.any fun sum => Chance.atMost sum r) 0
        sums.size) := by
    refine turningPointChecked?_eq fun i inside => ?_
    simp [inside]
  have last : sub? sums.size 1 = some (sums.size - 1) := if_pos pos
  rw [selectChecked?, found, last]
  rfl

theorem outcomesChecked?_eq {probabilities : Array R} (pos : 0 < probabilities.size)
    (words : List UInt64) :
    outcomesChecked? probabilities words = some (outcomes probabilities words) := by
  have sums : 0 < (runningSums probabilities).size := by rwa [size_runningSums]
  simp only [outcomesChecked?, selectChecked?_eq sums]
  exact List.mapM_pure

end Draw

section Count

def increment? (bits n : Nat) : Option Nat :=
  if n + 1 < 2 ^ bits then some (n + 1) else none

variable {α : Type} [DecidableEq α]

/-- Counts an item in a table of counters of so many bits, where a new item starts from zero. -/
def countChecked? (bits : Nat) (item : α) : List (α × Nat) → Option (List (α × Nat))
  | [] => (increment? bits 0).map fun n => [(item, n)]
  | (other, n) :: rest =>
    if other = item then (increment? bits n).map fun n => (other, n) :: rest
    else (countChecked? bits item rest).map ((other, n) :: ·)

def tallyChecked? (bits : Nat) (items : List α) : Option (List (α × Nat)) :=
  items.foldlM (fun table item => countChecked? bits item table) []

/-- Counting an item changes its counter alone, which comes last if the item is new. -/
theorem countChecked?_map {bits : Nat} {item : α} {keys : List α} (count : α → Nat)
    (nodup : keys.Nodup) (room : count item + 1 < 2 ^ bits) (fresh : item ∉ keys → count item = 0) :
    countChecked? bits item (keys.map fun key => (key, count key)) =
      some ((if item ∈ keys then keys else keys ++ [item]).map fun key =>
        (key, count key + if item = key then 1 else 0)) := by
  have counted : increment? bits (count item) = some (count item + 1) := if_pos room
  induction keys with
  | nil =>
    rw [fresh List.not_mem_nil] at counted
    simp [countChecked?, counted, fresh]
  | cons key rest ih =>
    obtain ⟨first, nodup⟩ := List.nodup_cons.mp nodup
    by_cases here : key = item
    · subst here
      have others : rest.map (fun other => (other, count other + if key = other then 1 else 0)) =
          rest.map fun other => (other, count other) := by
        refine List.map_congr_left fun other member => ?_
        have apart : key ≠ other := fun same => first (same ▸ member)
        rw [if_neg apart, Nat.add_zero]
      simp [countChecked?, counted, others]
    · have behind := ih nodup fun missing => fresh (by simp [missing, Ne.symm here])
      rw [List.map_cons, countChecked?, if_neg here, behind]
      by_cases member : item ∈ rest <;> simp [member, Ne.symm here]

/-- The table lists the different items, each with the number of its occurrences. -/
theorem exists_keys_tallyChecked? {bits : Nat} {items : List α} (few : items.length < 2 ^ bits) :
    ∃ keys : List α, keys.Nodup ∧ (∀ key, key ∈ keys ↔ key ∈ items) ∧
      tallyChecked? bits items = some (keys.map fun key => (key, items.count key)) := by
  induction items using List.reverseRecOn with
  | nil => exact ⟨[], List.nodup_nil, fun _ => Iff.rfl, rfl⟩
  | append_singleton before item ih =>
    rw [List.length_append, List.length_singleton] at few
    obtain ⟨keys, nodup, same, counted⟩ := ih (by omega)
    have upto : before.count item ≤ before.length := List.count_le_length
    have room : before.count item + 1 < 2 ^ bits := by omega
    have fresh : item ∉ keys → before.count item = 0 := fun missing =>
      List.count_eq_zero.mpr fun member => missing ((same item).mpr member)
    have one_more := countChecked?_map before.count nodup room fresh
    have counts : (fun key => (key, before.count key + if item = key then 1 else 0)) =
        fun key => (key, (before ++ [item]).count key) := by
      funext key
      simp only [List.count_append, List.count_singleton, beq_iff_eq]
    refine ⟨if item ∈ keys then keys else keys ++ [item], ?_, ?_, ?_⟩
    · split_ifs with member
      · exact nodup
      · exact List.concat_eq_append ▸ nodup.concat member
    · intro key
      rw [List.mem_append, List.mem_singleton, ← same]
      split_ifs with member
      · exact ⟨.inl, fun h => h.elim id fun last => last ▸ member⟩
      · rw [List.mem_append, List.mem_singleton]
    · rw [tallyChecked?] at counted
      rw [tallyChecked?, List.foldlM_append, counted, ← counts, ← one_more,
        Option.bind_eq_bind, Option.bind_some, List.foldlM_cons]
      exact bind_pure _

theorem tallies_map_count {keys items : List α} (nodup : keys.Nodup)
    (same : ∀ key, key ∈ keys ↔ key ∈ items) :
    Tallies (keys.map fun key => (key, items.count key)) items where
  nodup := by
    rw [List.map_map]
    exact (List.map_id' keys).symm ▸ nodup
  mem_iff := by
    intro item n
    have occurs : item ∈ keys ↔ items.count item ≠ 0 := by
      rw [same, ← List.count_pos_iff, Nat.pos_iff_ne_zero]
    simp only [List.mem_map, Prod.mk.injEq]
    constructor
    · rintro ⟨key, member, rfl, rfl⟩
      exact ⟨occurs.mp member, rfl⟩
    · rintro ⟨some, rfl⟩
      exact ⟨item, occurs.mpr some, rfl, rfl⟩

/-- Items that are fewer than a counter can count are counted. -/
theorem exists_tallyChecked? {bits : Nat} {items : List α} (few : items.length < 2 ^ bits) :
    ∃ table, tallyChecked? bits items = some table ∧ Tallies table items := by
  obtain ⟨keys, nodup, same, counted⟩ := exists_keys_tallyChecked? few
  exact ⟨_, counted, tallies_map_count nodup same⟩

/-- A counter of one bit does not count to two. -/
example : tallyChecked? 1 ["00", "11", "00"] = none := rfl

/-- A table counts every item that it is made from. -/
theorem Tallies.sum_eq {table : List (α × Nat)} {items : List α} (tallies : Tallies table items) :
    (table.map Prod.snd).sum = items.length := by
  have counted : table.map Prod.snd = (table.map Prod.fst).map items.count := by
    rw [List.map_map]
    exact List.map_congr_left fun entry member => ((tallies.mem_iff entry.1 entry.2).mp member).2
  have listed : (table.map Prod.fst).toFinset = items.toFinset := by
    ext item
    simp only [List.mem_toFinset, List.mem_map, Prod.exists, exists_and_right, exists_eq_right,
      tallies.mem_iff]
    rw [← List.count_pos_iff, Nat.pos_iff_ne_zero]
  rw [counted, ← List.sum_toFinset _ tallies.nodup, listed, List.sum_toFinset_count_eq_length]

end Count

section Share

variable {R : Type} [Chance R]

/-- The shares of the outcomes; none if they would be shares of no shots. -/
def frequenciesChecked? (shots : Nat) (table : List (Nat × Nat)) : Option (List (Nat × R)) :=
  table.mapM fun (outcome, count) =>
    if shots = 0 then none
    else some (outcome, Chance.ratio (Chance.ofCount count) (Chance.ofCount shots))

theorem frequenciesChecked?_eq {shots : Nat} (some_shots : shots ≠ 0) (table : List (Nat × Nat)) :
    frequenciesChecked? (R := R) shots table = some (frequencies shots table) := by
  simp only [frequenciesChecked?, if_neg some_shots]
  exact List.mapM_pure

end Share

end Sampling

namespace Histogram

def addWords? (m n : UInt64) : Option UInt64 :=
  if m.toNat + n.toNat < 2 ^ 64 then some (m + n) else none

def addChecked? (h : Histogram) (key : String) (n : UInt64) : Option Histogram :=
  (addWords? (h.count key) n).map fun sum => h.insertWith (fun _ new => new) key sum

def collectChecked? (pairs : List (String × UInt64)) : Option Histogram :=
  pairs.foldlM (fun h pair => h.addChecked? pair.1 pair.2) .empty

def totalChecked? (h : Histogram) : Option UInt64 :=
  (h.entries.map (·.2)).foldlM addWords? 0

theorem addChecked?_eq {h : Histogram} {key : String} {n : UInt64}
    (small : (h.count key).toNat + n.toNat < 2 ^ 64) :
    h.addChecked? key n = some (h.add key n) := by
  rw [addChecked?, addWords?, if_pos small, Option.map_some]
  refine congrArg some (Dictionary.eq_of_mem_iff fun other count => ?_)
  simp only [← Dictionary.get?_eq_some_iff, get?_add, Dictionary.get?_insertWith]
  cases h.get? key <;> simp

theorem count_le_sumOf (h : Histogram) (key : String) : (h.count key).toNat ≤ sumOf h.entries := by
  rw [count]
  cases found : h.get? key with
  | none => exact Nat.zero_le _
  | some n =>
    have member := Dictionary.get?_eq_some_iff.mp found
    exact List.le_sum_of_mem (List.mem_map.mpr ⟨_, member, rfl⟩)

/-- Checked additions come to the plain ones if each of them succeeds below a limit and makes the
size greater by what is added, and everything together stays below the limit. -/
theorem foldlM_eq_foldl {α β : Type} {add? : β → α → Option β} {add : β → α → β} {size : β → Nat}
    {weight : α → Nat} {limit : Nat}
    (below : ∀ b a, size b + weight a < limit →
      add? b a = some (add b a) ∧ size (add b a) = size b + weight a)
    {items : List α} {start : β} (small : size start + (items.map weight).sum < limit) :
    items.foldlM add? start = some (items.foldl add start) := by
  induction items generalizing start with
  | nil => rfl
  | cons a rest ih =>
    rw [List.map_cons, List.sum_cons] at small
    obtain ⟨added, sum⟩ := below start a (by omega)
    rw [List.foldlM_cons, added]
    exact ih (by omega)

/-- Pairs are collected if all counts together fit into 64 bits. -/
theorem collectChecked?_eq {pairs : List (String × UInt64)} (small : sumOf pairs < 2 ^ 64) :
    collectChecked? pairs = some (collect pairs) := by
  have below : ∀ (h : Histogram) (pair : String × UInt64),
      sumOf h.entries + pair.2.toNat < 2 ^ 64 →
      h.addChecked? pair.1 pair.2 = some (h.add pair.1 pair.2) ∧
        sumOf (h.add pair.1 pair.2).entries = sumOf h.entries + pair.2.toNat := by
    intro h pair fits
    have upto := count_le_sumOf h pair.1
    exact ⟨addChecked?_eq (by omega), sumOf_put fits⟩
  rw [← foldl_add]
  exact foldlM_eq_foldl below ((Nat.zero_add _).trans_lt small)

theorem totalChecked?_eq {h : Histogram} (small : sumOf h.entries < 2 ^ 64) :
    h.totalChecked? = some h.total := by
  have below : ∀ m n : UInt64, m.toNat + n.toNat < 2 ^ 64 →
      addWords? m n = some (m + n) ∧ (m + n).toNat = m.toNat + n.toNat := fun m n fits =>
    ⟨if_pos fits, toNat_add_of_lt fits⟩
  refine foldlM_eq_foldl below ?_
  rw [List.map_map]
  exact (Nat.zero_add _).trans_lt small

/-- Pairs that are made from the entries of a table, with counts that are not greater, add up to no
more than the table. -/
theorem sumOf_filterMap_le {α : Type} {table : List (α × Nat)}
    {report : α × Nat → Option (String × UInt64)}
    (le : ∀ entry ∈ table, ∀ pair ∈ report entry, pair.2.toNat ≤ entry.2) :
    sumOf (table.filterMap report) ≤ (table.map Prod.snd).sum := by
  induction table with
  | nil => exact le_rfl
  | cons entry rest ih =>
    have behind := ih fun other member => le other (List.mem_cons_of_mem _ member)
    rw [List.map_cons, List.sum_cons]
    cases reported : report entry with
    | none =>
      rw [List.filterMap_cons_none reported]
      omega
    | some pair =>
      have here := le entry List.mem_cons_self pair reported
      rw [List.filterMap_cons_some reported, sumOf_cons]
      omega

end Histogram

end CircuitBench
