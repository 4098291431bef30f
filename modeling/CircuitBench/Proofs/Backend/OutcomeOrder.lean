import CircuitBench.Proofs.Backend.IterationOrder
import CircuitBench.Proofs.Sampling.Bitstring
import Mathlib

/-!
# Bitstrings in the order of outcomes

Bitstrings of one width are compared at the first character that differs, which is the highest bit
that differs. So they are in the order of their outcomes, and a histogram lists them in that order.
Each outcome has a bitstring of its own, so it does not matter whether shots are counted by
bitstring or by outcome.
-/

namespace CircuitBench

namespace Sampling

section Order

/-- Of texts of one length, all characters in front count before the last one does. -/
theorem append_singleton_lt_iff {front front' : List Char} (same : front.length = front'.length)
    (c d : Char) : front ++ [c] < front' ++ [d] ↔ front < front' ∨ front = front' ∧ c < d := by
  induction front generalizing front' with
  | nil =>
    obtain rfl := List.length_eq_zero_iff.mp same.symm
    simp [List.cons_lt_cons_iff]
  | cons a front ih =>
    obtain ⟨b, front', rfl⟩ := List.exists_cons_of_length_eq_add_one same.symm
    rw [List.cons_append, List.cons_append, List.cons_lt_cons_iff, List.cons_lt_cons_iff,
      ih (Nat.succ.inj same), List.cons.injEq]
    grind

theorem digitChar_mod_two_lt_iff (outcome other : Nat) :
    (outcome % 2).digitChar < (other % 2).digitChar ↔ outcome % 2 < other % 2 := by
  rcases Nat.mod_two_eq_zero_or_one outcome with h | h <;>
    rcases Nat.mod_two_eq_zero_or_one other with h' | h' <;>
    simp only [h, h'] <;> decide

/-- Bitstrings of one width are in the order of their outcomes. -/
theorem bitstring_lt_bitstring_iff {width outcome other : Nat} (pos : 0 < width)
    (inside : outcome < 2 ^ width) (inside' : other < 2 ^ width) :
    bitstring outcome width < bitstring other width ↔ outcome < other := by
  induction width, pos using Nat.le_induction generalizing outcome other with
  | base =>
    have small : outcome < 2 := inside
    have small' : other < 2 := inside'
    have digit := digitChar_mod_two_lt_iff outcome other
    rw [Nat.mod_eq_of_lt small, Nat.mod_eq_of_lt small'] at digit
    rw [String.lt_iff_toList_lt, toList_bitstring, toList_bitstring,
      Nat.toDigits_of_lt_base small, Nat.toDigits_of_lt_base small', ← digit]
    simp [List.cons_lt_cons_iff]
  | succ width pos ih =>
    rw [Nat.pow_succ] at inside inside'
    have halves := @ih (outcome / 2) (other / 2) (by omega) (by omega)
    have same : (bitstring (outcome / 2) width).toList = (bitstring (other / 2) width).toList ↔
        outcome / 2 = other / 2 :=
      String.toList_inj.trans (bitstring_injective width).eq_iff
    have lengths : (bitstring (outcome / 2) width).toList.length =
        (bitstring (other / 2) width).toList.length := by
      rw [String.length_toList, String.length_toList, length_bitstring pos (by omega),
        length_bitstring pos (by omega)]
    rw [String.lt_iff_toList_lt] at halves
    rw [String.lt_iff_toList_lt, toList_bitstring_succ pos, toList_bitstring_succ pos,
      append_singleton_lt_iff lengths, halves, same, digitChar_mod_two_lt_iff]
    omega

def outcomeOf (key : String) : Nat :=
  Nat.ofDigitChars 2 key.toList 0

@[simp] theorem outcomeOf_bitstring (outcome width : Nat) :
    outcomeOf (bitstring outcome width) = outcome :=
  ofDigitChars_bitstring outcome width

/-- Pairs that are named by outcomes are listed in the order of these. -/
theorem pairwise_outcomeOf_collect {width : Nat} (pos : 0 < width) {pairs : List (Nat × UInt64)}
    (inside : ∀ pair ∈ pairs, pair.1 < 2 ^ width) :
    (Histogram.collect
      (pairs.map fun (outcome, n) => (bitstring outcome width, n))).entries.Pairwise
        fun a b => outcomeOf a.1 < outcomeOf b.1 := by
  have named : ∀ entry ∈ (Histogram.collect
      (pairs.map fun (outcome, n) => (bitstring outcome width, n))).entries,
      ∃ outcome < 2 ^ width, entry.1 = bitstring outcome width := by
    intro entry member
    have key := Histogram.mem_keys_collect.mp (List.mem_map_of_mem (f := Prod.fst) member)
    simp only [List.map_map, List.mem_map] at key
    obtain ⟨pair, listed, same⟩ := key
    exact ⟨pair.1, inside pair listed, same.symm⟩
  refine (Histogram.collect _).sorted.imp_of_mem fun {a b} first second less => ?_
  obtain ⟨outcome, small, name⟩ := named a first
  obtain ⟨other, small', name'⟩ := named b second
  rw [name, name'] at less ⊢
  rw [outcomeOf_bitstring, outcomeOf_bitstring]
  exact (bitstring_lt_bitstring_iff pos small small').mp less

end Order

section Count

theorem get?_eq_some_iff_count {h : Histogram} {key : String} {n : UInt64} :
    h.get? key = some n ↔ key ∈ h.entries.map Prod.fst ∧ h.count key = n := by
  rw [Histogram.mem_keys_iff, Histogram.count]
  cases h.get? key <;> simp

/-- A key that is added once for each of its occurrences is counted with their number. -/
theorem count_collect_ones (keys : List String) (key : String) :
    (Histogram.collect (keys.map fun key => (key, 1))).count key =
      UInt64.ofNat (keys.count key) := by
  induction keys with
  | nil => rfl
  | cons first rest ih =>
    have one_more : Histogram.collect ((first :: rest).map fun key => (key, 1)) =
        (Histogram.collect (rest.map fun key => (key, 1))).add first 1 := rfl
    rw [one_more, Histogram.count_add, List.count_cons]
    by_cases here : key = first
    · subst here
      rw [if_pos rfl, ih, beq_self_eq_true, if_pos rfl, UInt64.ofNat_add]
      rfl
    · rw [if_neg here, ih, if_neg (by simpa using Ne.symm here), Nat.add_zero]

/-- Counting key by key comes to the same as counting in a table. -/
theorem collect_ones_of_tallies {keys : List String} {table : List (String × Nat)}
    (tallies : Tallies table keys) :
    Histogram.collect (keys.map fun key => (key, 1)) =
      .collect (table.map fun (key, n) => (key, UInt64.ofNat n)) := by
  have nodup : ((table.map fun (key, n) => (key, UInt64.ofNat n)).map Prod.fst).Nodup := by
    rw [List.map_map]
    exact tallies.nodup
  have listed : (keys.map fun key => (key, (1 : UInt64))).map Prod.fst = keys := by
    rw [List.map_map]
    exact List.map_id' keys
  refine Dictionary.eq_of_mem_iff fun key count => ?_
  rw [← Dictionary.get?_eq_some_iff, ← Dictionary.get?_eq_some_iff, Histogram.get?_collect nodup,
    get?_eq_some_iff_count, count_collect_ones, Histogram.mem_keys_collect, listed,
    ← List.count_pos_iff, Nat.pos_iff_ne_zero]
  simp only [List.mem_map, Prod.mk.injEq, Prod.exists, tallies.mem_iff]
  constructor
  · rintro ⟨occurs, rfl⟩
    exact ⟨key, _, ⟨occurs, rfl⟩, rfl, rfl⟩
  · rintro ⟨key, n, ⟨occurs, rfl⟩, rfl, rfl⟩
    exact ⟨occurs, rfl⟩

/-- Counting by bitstring and counting by outcome come to the same, shot by shot or in a table. -/
theorem collect_ones_bitstring {width : Nat} {outcomes : List Nat} {byOutcome : List (Nat × Nat)}
    (tallies : Tallies byOutcome outcomes) :
    outcomes.foldl (fun h outcome => h.add (bitstring outcome width) 1) .empty =
      Histogram.collect
        (byOutcome.map fun (outcome, n) => (bitstring outcome width, UInt64.ofNat n)) := by
  have ones := collect_ones_of_tallies (tallies.map (bitstring_injective width))
  rw [List.map_map, List.map_map] at ones
  have counted := Histogram.foldl_add (outcomes.map fun k => (bitstring k width, 1))
  rw [List.foldl_map] at counted
  exact counted.trans ones

end Count

end Sampling

namespace Simulator

open Sampling

variable {R : Type} [Chance R] {words : WordSource} {circuit : Circuit} {shots : UInt32}

theorem counts_legacyExecute_eq :
    counts R .legacyExecute words circuit shots =
      (outcomes R words circuit shots).foldl
        (fun h outcome => h.add (bitstring outcome circuit.width.toNat) 1) .empty :=
  (collect_ones_bitstring (tallies_observed outcomes_lt)).symm

/-- Either generation lists what it counts in the order of the outcomes. -/
theorem pairwise_outcomeOf_counts (generation : Generation) :
    (counts R generation words circuit shots).entries.Pairwise
      fun a b => outcomeOf a.1 < outcomeOf b.1 := by
  let observed := (observations R words circuit shots).filter
    fun (_, n) => keeps R shots generation n ≠ 0
  let pairs := observed.map fun (outcome, n) => (outcome, UInt64.ofNat (keeps R shots generation n))
  have inside : ∀ pair ∈ pairs, pair.1 < 2 ^ circuit.width.toNat := by
    intro pair member
    obtain ⟨⟨outcome, n⟩, kept, rfl⟩ := List.mem_map.mp member
    exact (mem_observed.mp (List.mem_of_mem_filter kept)).1
  have ordered := pairwise_outcomeOf_collect circuit.width_pos inside
  rw [List.map_map] at ordered
  rw [counts_eq]
  exact ordered

end Simulator

open Sampling Simulator

/-- On some qubits, every outcome has a bitstring with one character for each qubit, the character
`k` from the right is qubit `k`, and the bitstring is read as the outcome. Different outcomes have
different bitstrings, and the bytes of bitstrings are in the order of the outcomes. So counting
shots by bitstring, one after the other or in a table, makes the same histogram as counting them by
outcome, and a histogram lists its bitstrings in the order of the outcomes. That holds for what
either generation counts, and the execute interface counts by bitstring. -/
theorem histograms_list_outcomes_in_order {width : Nat} (pos : 0 < width) :
    (∀ outcome < 2 ^ width,
      (bitstring outcome width).length = width ∧
      (∀ k < width, (bitstring outcome width).toList.reverse[k]? =
        some (if outcome.testBit k then '1' else '0')) ∧
      outcomeOf (bitstring outcome width) = outcome) ∧
    (∀ outcome < 2 ^ width, ∀ other < 2 ^ width,
      (bitstring outcome width = bitstring other width ↔ outcome = other) ∧
      (Text.bytes (bitstring outcome width) < Text.bytes (bitstring other width) ↔
        outcome < other)) ∧
    (∀ (outcomes : List Nat) (byKey : List (String × Nat)) (byOutcome : List (Nat × Nat)),
      Tallies byKey (outcomes.map fun outcome => bitstring outcome width) →
      Tallies byOutcome outcomes →
        outcomes.foldl (fun h outcome => h.add (bitstring outcome width) 1) .empty =
          Histogram.collect (byKey.map fun (key, n) => (key, UInt64.ofNat n)) ∧
        Histogram.collect (byKey.map fun (key, n) => (key, UInt64.ofNat n)) =
          Histogram.collect
            (byOutcome.map fun (outcome, n) => (bitstring outcome width, UInt64.ofNat n))) ∧
    (∀ pairs : List (Nat × UInt64), (∀ pair ∈ pairs, pair.1 < 2 ^ width) →
      (Histogram.collect
        (pairs.map fun (outcome, n) => (bitstring outcome width, n))).entries.Pairwise
          fun a b => outcomeOf a.1 < outcomeOf b.1) ∧
    ∀ (R : Type) [Chance R] (words : WordSource) (circuit : Circuit) (shots : UInt32),
      counts R .legacyExecute words circuit shots =
        (Simulator.outcomes R words circuit shots).foldl
          (fun h outcome => h.add (bitstring outcome circuit.width.toNat) 1) .empty ∧
      ∀ generation, (counts R generation words circuit shots).entries.Pairwise
        fun a b => outcomeOf a.1 < outcomeOf b.1 := by
  refine ⟨?_, ?_, ?_, fun pairs => pairwise_outcomeOf_collect pos,
    fun R _ words circuit shots => ⟨counts_legacyExecute_eq, pairwise_outcomeOf_counts⟩⟩
  · intro outcome inside
    exact ⟨length_bitstring pos inside, fun k => getElem?_reverse_bitstring inside,
      outcomeOf_bitstring outcome width⟩
  · intro outcome inside other inside'
    exact ⟨(bitstring_injective width).eq_iff,
      Text.bytes_lt_bytes_iff.trans (bitstring_lt_bitstring_iff pos inside inside')⟩
  · intro outcomes byKey byOutcome keys same
    have shots := @collect_ones_bitstring width _ _ same
    have table := collect_ones_of_tallies keys
    have named := collect_ones_of_tallies (same.map (bitstring_injective width))
    rw [List.map_map (l := byOutcome)] at named
    exact ⟨shots.trans (named.symm.trans table), table.symm.trans named⟩

/-- Of two qubits, the outcome one comes before the outcome two, also if it is counted later. -/
theorem histograms_list_outcomes_in_order_two :
    0 < 2 ∧ (bitstring 1 2).toList.reverse[0]? = some '1' ∧
    Text.bytes (bitstring 1 2) < Text.bytes (bitstring 2 2) ∧
    ([2, 1, 2].foldl (fun h outcome => h.add (bitstring outcome 2) 1) .empty =
      Histogram.collect ([("01", 1), ("10", 2)].map fun (key, n) => (key, UInt64.ofNat n))) := by
  obtain ⟨bits, order, counted, -⟩ := @histograms_list_outcomes_in_order 2 (by decide)
  have all : ∀ outcome ∈ [2, 1, 2], outcome < 4 := by decide
  have seen : observed 4 [2, 1, 2] = [(1, 1), (2, 2)] := by decide
  have outcomes : Tallies [(1, 1), (2, 2)] [2, 1, 2] := seen ▸ tallies_observed all
  have keys : Tallies [("01", 1), ("10", 2)] ([2, 1, 2].map fun k => bitstring k 2) :=
    outcomes.map (bitstring_injective 2)
  exact ⟨by decide, (bits 1 (by decide)).2.1 0 (by decide),
    (order 1 (by decide) 2 (by decide)).2.mpr (by decide), (counted _ _ _ keys outcomes).1⟩

end CircuitBench
