import CircuitBench.Sampling.Tally
import Mathlib

/-!
# What is observed

The observed outcomes are the outcomes that occur at all, each of them once and with the
number of its occurrences, so the counts add up to the number of shots. Every outcome has a
bitstring of its own, because the bitstring is read back as the outcome.
-/

namespace CircuitBench.Sampling

/-- A bitstring is read back as its outcome. -/
theorem ofDigitChars_bitstring (outcome width : Nat) :
    Nat.ofDigitChars 2 (bitstring outcome width).toList 0 = outcome := by
  rw [bitstring, String.toList_ofList, Nat.ofDigitChars_append, Nat.ofDigitChars_replicate_zero,
    Nat.mul_zero, Nat.ofDigitChars_toDigits (by decide) (by decide)]

theorem bitstring_injective (width : Nat) :
    Function.Injective fun outcome => bitstring outcome width := by
  intro outcome other same
  rw [← ofDigitChars_bitstring outcome width, ← ofDigitChars_bitstring other width]
  exact congrArg (fun s => Nat.ofDigitChars 2 s.toList 0) same

theorem getElem?_foldl_modify (outcomes : List Nat) (counts : Array Nat) (k : Nat) :
    (outcomes.foldl (fun counts outcome => counts.modify outcome (· + 1)) counts)[k]? =
      counts[k]?.map (· + outcomes.count k) := by
  induction outcomes generalizing counts with
  | nil => simp
  | cons outcome rest ih =>
    rw [List.foldl_cons, ih, Array.getElem?_modify, List.count_cons]
    by_cases here : outcome = k
    · subst here
      simp [Function.comp_def, Nat.add_comm, Nat.add_left_comm]
    · simp [here]

theorem toList_tally (size : Nat) (outcomes : List Nat) :
    (tally size outcomes).toList = (List.range size).map outcomes.count := by
  refine List.ext_getElem? fun k => ?_
  rw [Array.getElem?_toList, tally, getElem?_foldl_modify]
  by_cases inside : k < size <;> simp [inside]

/-- The outcomes that occur, in ascending order, each with the number of its occurrences. -/
theorem observed_eq (size : Nat) (outcomes : List Nat) :
    observed size outcomes =
      ((List.range size).filter fun k => outcomes.count k ≠ 0).map
        fun k => (k, outcomes.count k) := by
  have indexed : ((List.range size).map outcomes.count).zipIdx =
      (List.range size).map fun k => (outcomes.count k, k) := by
    refine List.ext_getElem (by simp) ?_
    intro k _ _
    simp
  rw [observed, toList_tally, indexed, List.filterMap_map, ← List.filterMap_eq_map,
    List.filterMap_filter]
  refine List.filterMap_congr fun k _ => ?_
  by_cases absent : outcomes.count k = 0 <;> simp [absent]

variable {size : Nat} {outcomes : List Nat}

theorem mem_observed {k count : Nat} : (k, count) ∈ observed size outcomes ↔
    k < size ∧ count ≠ 0 ∧ count = outcomes.count k := by
  rw [observed_eq]
  simp only [List.mem_map, List.mem_filter, List.mem_range, Prod.mk.injEq]
  grind

theorem nodup_observed : ((observed size outcomes).map Prod.fst).Nodup := by
  rw [observed_eq, List.map_map]
  simpa [Function.comp_def] using List.nodup_range.filter _

/-- The counts of what is observed add up to the number of outcomes. -/
theorem sum_observed (inside : ∀ k ∈ outcomes, k < size) :
    ((observed size outcomes).map Prod.snd).sum = outcomes.length := by
  have occurring : ∀ l : List Nat, ((l.filter fun k => outcomes.count k ≠ 0).map
      outcomes.count).sum = (l.map outcomes.count).sum := by
    intro l
    induction l with
    | nil => rfl
    | cons k rest ih => by_cases absent : outcomes.count k = 0 <;> simp_all
  have all : ∑ k ∈ Finset.range size, outcomes.count k = outcomes.length := by
    have within : ∀ k ∈ (outcomes : Multiset Nat), k ∈ Finset.range size := by
      intro k member
      exact Finset.mem_range.mpr (inside k (Multiset.mem_coe.mp member))
    simpa using Multiset.sum_count_eq_card within
  rw [observed_eq, List.map_map]
  exact (occurring _).trans all

/-- There are as many entries as there are different outcomes. -/
theorem length_observed (inside : ∀ k ∈ outcomes, k < size) :
    (observed size outcomes).length = outcomes.toFinset.card := by
  have same : ((observed size outcomes).map Prod.fst).toFinset = outcomes.toFinset := by
    ext k
    simp only [List.mem_toFinset, List.mem_map, Prod.exists, exists_and_right, exists_eq_right,
      mem_observed]
    constructor
    · rintro ⟨count, -, occurs, rfl⟩
      exact List.count_pos_iff.mp (Nat.pos_of_ne_zero occurs)
    · intro member
      exact ⟨_, inside k member, Nat.ne_of_gt (List.count_pos_iff.mpr member), rfl⟩
  rw [← same, List.toFinset_card_of_nodup nodup_observed, List.length_map]

/-- Outcomes that are all the same are observed as one. -/
theorem observed_replicate {shots certain : Nat} (inside : certain < size)
    (some_shots : shots ≠ 0) :
    observed size (List.replicate shots certain) = [(certain, shots)] := by
  refine List.perm_singleton.mp ?_
  refine (List.perm_ext_iff_of_nodup nodup_observed.of_map (List.nodup_singleton _)).mpr ?_
  rintro ⟨k, count⟩
  rw [mem_observed, List.mem_singleton, Prod.mk.injEq]
  constructor
  · rintro ⟨-, occurs, rfl⟩
    have same := List.eq_of_mem_replicate (List.count_pos_iff.mp (Nat.pos_of_ne_zero occurs))
    exact ⟨same, by rw [same, List.count_replicate_self]⟩
  · rintro ⟨rfl, rfl⟩
    exact ⟨inside, some_shots, List.count_replicate_self.symm⟩

end CircuitBench.Sampling
