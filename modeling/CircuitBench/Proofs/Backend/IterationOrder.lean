import CircuitBench.Proofs.Backend.Simulator
import CircuitBench.Proofs.Sampling.Collection
import Mathlib

/-!
# Tables in any order

The shots are counted in tables that list their entries in no particular order: the execute
interface has a table of bitstrings, and the sampling interface a table of outcomes, from which
another table of shares is made. Whatever these orders are, the histogram is the same.
-/

namespace CircuitBench

namespace Sampling

/-- A table says of every item how often it occurs. Each item that occurs is listed once, in any
order. -/
structure Tallies {α : Type} [BEq α] (table : List (α × Nat)) (items : List α) : Prop where
  nodup : (table.map Prod.fst).Nodup
  mem_iff : ∀ item n, (item, n) ∈ table ↔ n ≠ 0 ∧ n = items.count item

section Tables

variable {α : Type} [BEq α]

/-- Two tables of the same items differ in their order only. -/
theorem Tallies.perm {table other : List (α × Nat)} {items : List α} (here : Tallies table items)
    (there : Tallies other items) : table.Perm other := by
  refine (List.perm_ext_iff_of_nodup here.nodup.of_map there.nodup.of_map).mpr ?_
  rintro ⟨item, n⟩
  rw [here.mem_iff, there.mem_iff]

/-- Under other names, all of them different, the items occur as often. -/
theorem Tallies.map [LawfulBEq α] {β : Type} [BEq β] [LawfulBEq β] {table : List (α × Nat)}
    {items : List α} (here : Tallies table items) {name : α → β}
    (different : Function.Injective name) :
    Tallies (table.map fun (item, n) => (name item, n)) (items.map name) where
  nodup := by
    rw [List.map_map]
    have named := here.nodup.map different
    rwa [List.map_map] at named
  mem_iff := by
    intro key n
    simp only [List.mem_map, Prod.mk.injEq, Prod.exists]
    constructor
    · rintro ⟨item, m, member, rfl, rfl⟩
      rw [List.count_map_of_injective items name different]
      exact (here.mem_iff item m).mp member
    · rintro ⟨some, rfl⟩
      obtain ⟨item, -, rfl⟩ := List.mem_map.mp (List.count_pos_iff.mp (Nat.pos_of_ne_zero some))
      rw [List.count_map_of_injective items name different] at some ⊢
      exact ⟨item, _, (here.mem_iff item _).mpr ⟨some, rfl⟩, rfl, rfl⟩

theorem tallies_observed {size : Nat} {outcomes : List Nat} (inside : ∀ k ∈ outcomes, k < size) :
    Tallies (observed size outcomes) outcomes where
  nodup := nodup_observed
  mem_iff := by
    intro k n
    rw [mem_observed]
    constructor
    · rintro ⟨-, some, rfl⟩
      exact ⟨some, rfl⟩
    · rintro ⟨some, rfl⟩
      exact ⟨inside k (List.count_pos_iff.mp (Nat.pos_of_ne_zero some)), some, rfl⟩

end Tables

end Sampling

namespace Simulator

open Sampling

variable {R : Type} [Chance R] {words : WordSource} {circuit : Circuit} {shots : UInt32}

/-- The table of outcomes and that of their shares may be in any order. -/
theorem quantizedCounts_of_tallies {table : List (Nat × Nat)} {shares : List (Nat × R)}
    (tallies : Tallies table (outcomes R words circuit shots))
    (shared : shares.Perm (frequencies shots.toNat table)) :
    quantizedCounts circuit.width.toNat shots.toNat shares =
      counts R .sampling words circuit shots := by
  have perm := tallies.perm (tallies_observed outcomes_lt)
  exact Histogram.collect_of_perm ((shared.trans (perm.map _)).filterMap _)

/-- The table of bitstrings may be in any order. -/
theorem collect_of_tallies {table : List (String × Nat)}
    (tallies : Tallies table
      ((outcomes R words circuit shots).map fun k => bitstring k circuit.width.toNat)) :
    Histogram.collect (table.map fun (key, n) => (key, UInt64.ofNat n)) =
      counts R .legacyExecute words circuit shots := by
  have inside : ∀ k ∈ outcomes R words circuit shots, k < 2 ^ circuit.width.toNat := outcomes_lt
  have named := (tallies_observed inside).map (bitstring_injective circuit.width.toNat)
  have perm := (tallies.perm named).map fun (key, n) => (key, UInt64.ofNat n)
  rw [List.map_map] at perm
  exact Histogram.collect_of_perm perm

end Simulator

/-- Pairs whose counts together fit into 64 bits make one histogram in whatever order they come. It
counts every bitstring with the sum of its counts, and all of them with the sum of all; it has an
entry for every different bitstring, in ascending order. Its entries by count are in descending
order of the counts, those of equal count in ascending order of the bitstrings, and no other list of
them is. So the counts of both generations do not depend on the order in which the tables that they
are made from list their entries. -/
theorem histograms_do_not_depend_on_order {pairs : List (String × UInt64)}
    (small : Histogram.sumOf pairs < 2 ^ 64) :
    (∀ others : List (String × UInt64), others.Perm pairs →
      Histogram.collect others = .collect pairs ∧
      others.foldl (fun h pair => h.add pair.1 pair.2) .empty = Histogram.collect pairs) ∧
    (∀ key, ((Histogram.collect pairs).count key).toNat = Histogram.sumFor key pairs) ∧
    (Histogram.collect pairs).total.toNat = Histogram.sumOf pairs ∧
    (Histogram.collect pairs).size = (pairs.map Prod.fst).toFinset.card ∧
    ((Histogram.collect pairs).entries.Pairwise fun a b => Text.bytes a.1 < Text.bytes b.1) ∧
    (∀ list, list = (Histogram.collect pairs).byCount ↔
      list.Perm (Histogram.collect pairs).entries ∧ list.Pairwise Histogram.RanksBefore) ∧
    ∀ {R : Type} [Chance R] (words : Sampling.WordSource) (circuit : Circuit) (shots : UInt32),
      (∀ table shares, Sampling.Tallies table (Simulator.outcomes R words circuit shots) →
        shares.Perm (Sampling.frequencies (R := R) shots.toNat table) →
        Sampling.quantizedCounts circuit.width.toNat shots.toNat shares =
          Simulator.counts R .sampling words circuit shots) ∧
      ∀ table, Sampling.Tallies table ((Simulator.outcomes R words circuit shots).map
          fun outcome => Sampling.bitstring outcome circuit.width.toNat) →
        Histogram.collect (table.map fun (key, n) => (key, UInt64.ofNat n)) =
          Simulator.counts R .legacyExecute words circuit shots := by
  refine ⟨fun others same => ⟨Histogram.collect_of_perm same, ?_⟩, ?_, ?_, ?_, ?_, ?_, ?_⟩
  · rw [Histogram.foldl_add, Histogram.collect_of_perm same]
  · exact Histogram.toNat_count_collect small
  · exact Histogram.toNat_total_eq_sumOf small
  · exact Histogram.size_collect pairs
  · exact Histogram.pairwise_bytes _
  · exact fun list => Histogram.eq_byCount_iff
  · intro R _ words circuit shots
    exact ⟨fun _ _ => Simulator.quantizedCounts_of_tallies, fun _ => Simulator.collect_of_tallies⟩

def repeated : List (String × UInt64) :=
  [("00", 3), ("11", 5), ("00", 2)]

theorem histograms_do_not_depend_on_order_repeated :
    Histogram.sumOf repeated < 2 ^ 64 ∧
    Histogram.collect [("00", 2), ("00", 3), ("11", 5)] = .collect repeated ∧
    ((Histogram.collect repeated).count "00").toNat = 5 ∧
    (Histogram.collect repeated).total.toNat = 10 ∧
    (Histogram.collect repeated).size = 2 ∧
    [("00", 5), ("11", 5)] = (Histogram.collect repeated).byCount := by
  have small : Histogram.sumOf repeated < 2 ^ 64 := by decide
  obtain ⟨same, counts, total, size, -, ranked, -⟩ := histograms_do_not_depend_on_order small
  have keys : (repeated.map Prod.fst).toFinset.card = 2 := by decide +kernel
  refine ⟨small, (same _ ?_).1, (counts "00").trans (by decide +kernel), total.trans (by decide),
    size.trans keys, (ranked _).mpr ⟨?_, ?_⟩⟩
  · decide +kernel
  · decide +kernel
  · exact List.pairwise_pair.mpr (.inr ⟨rfl, by decide +kernel⟩)

end CircuitBench
