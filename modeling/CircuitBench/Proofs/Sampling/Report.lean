import CircuitBench.Proofs.Sampling.Histogram
import CircuitBench.Proofs.Sampling.Tally
import Mathlib

/-!
# Reports of counts

Both ways to report counts do the same with a different function of the counts: an outcome
that was observed `n` times is reported under its bitstring with the count `f n`, and left out
if that is zero. So every bitstring has the count `f n` where `n` is the number of shots that
have this bitstring, and what `f` takes away from the counts is missing in the total.
-/

namespace CircuitBench.Sampling

/-- The pairs of bitstrings and counts that a function of the counts reports. -/
def reported (f : Nat → Nat) (width : Nat) (observed : List (Nat × Nat)) :
    List (String × UInt64) :=
  (observed.filter fun (_, n) => f n ≠ 0).map fun (outcome, n) =>
    (bitstring outcome width, UInt64.ofNat (f n))

def share (R : Type) [Chance R] (shots n : Nat) : R :=
  Chance.ratio (Chance.ofCount n) (Chance.ofCount shots)

/-- The count that a count becomes on its way through its share in the shots. -/
def requantized (R : Type) [Chance R] (shots n : Nat) : Nat :=
  Chance.wholePart (share R shots n * Chance.ofCount shots)

variable {width shots size : Nat} {outcomes : List Nat}

theorem exactCounts_observed :
    exactCounts width (observed size outcomes) =
      .collect (reported id width (observed size outcomes)) := by
  have all : (observed size outcomes).filter (fun (_, n) => id n ≠ 0) =
      observed size outcomes := by
    refine List.filter_eq_self.mpr ?_
    rintro ⟨k, n⟩ member
    exact decide_eq_true (mem_observed.mp member).2.1
  rw [reported, all]
  rfl

theorem quantizedCounts_frequencies {R : Type} [Chance R] (observed : List (Nat × Nat)) :
    quantizedCounts width shots (frequencies (R := R) shots observed) =
      .collect (reported (requantized R shots) width observed) := by
  rw [quantizedCounts, frequencies, reported, List.filterMap_map, ← List.filterMap_eq_map,
    List.filterMap_filter]
  refine congrArg Histogram.collect (List.filterMap_congr ?_)
  rintro ⟨k, n⟩ -
  change (if requantized R shots n = 0 then none else
    some (bitstring k width, UInt64.ofNat (requantized R shots n))) = _
  by_cases lost : requantized R shots n = 0 <;> simp [lost]

theorem nodup_reported (f : Nat → Nat) :
    ((reported f width (observed size outcomes)).map Prod.fst).Nodup := by
  have kept : (((observed size outcomes).filter fun (_, n) => f n ≠ 0).map Prod.fst).Nodup :=
    nodup_observed.sublist (List.filter_sublist.map Prod.fst)
  have named := kept.map (bitstring_injective width)
  rw [List.map_map] at named
  rw [reported, List.map_map]
  exact named

/-- How many shots have a bitstring. -/
def hits (width : Nat) (outcomes : List Nat) (key : String) : Nat :=
  (outcomes.map fun outcome => bitstring outcome width).count key

theorem hits_bitstring (outcome : Nat) :
    hits width outcomes (bitstring outcome width) = outcomes.count outcome :=
  List.count_map_of_injective outcomes _ (bitstring_injective width) outcome

theorem hits_le (key : String) : hits width outcomes key ≤ outcomes.length := by
  simpa [hits] using List.count_le_length (l := outcomes.map fun k => bitstring k width) (a := key)

theorem exists_of_hits_ne_zero {key : String} (h : hits width outcomes key ≠ 0) :
    ∃ outcome ∈ outcomes, bitstring outcome width = key :=
  List.mem_map.mp (List.count_pos_iff.mp (Nat.pos_of_ne_zero h))

/-- A bitstring is reported with the function of the number of shots that have it. -/
theorem get?_reported {f : Nat → Nat} (nothing : f 0 = 0) (inside : ∀ k ∈ outcomes, k < size)
    (key : String) :
    (Histogram.collect (reported f width (observed size outcomes))).get? key =
      if f (hits width outcomes key) = 0 then none
      else some (UInt64.ofNat (f (hits width outcomes key))) := by
  by_cases missing : f (hits width outcomes key) = 0
  · rw [if_pos missing, Histogram.get?_collect_eq_none (nodup_reported f)]
    intro member
    simp only [reported, List.map_map, List.mem_map, List.mem_filter, Prod.exists] at member
    obtain ⟨k, n, ⟨observed, kept⟩, rfl⟩ := member
    rw [Function.comp_apply, hits_bitstring, ← (mem_observed.mp observed).2.2] at missing
    simp [missing] at kept
  · rw [if_neg missing, Histogram.get?_collect (nodup_reported f)]
    have occurs : hits width outcomes key ≠ 0 := fun none => missing (none ▸ nothing)
    obtain ⟨k, member, rfl⟩ := exists_of_hits_ne_zero occurs
    rw [hits_bitstring] at missing occurs ⊢
    refine List.mem_map.mpr ⟨(k, outcomes.count k), ?_, rfl⟩
    refine List.mem_filter.mpr ⟨mem_observed.mpr ⟨inside k member, occurs, rfl⟩, ?_⟩
    exact decide_eq_true missing

/-- If no count grows, the counts of a report and their total are what they are as numbers. -/
theorem toNat_count_reported {f : Nat → Nat} (shrinks : ∀ n ≤ outcomes.length, f n ≤ n)
    (few : outcomes.length < 2 ^ 64) (inside : ∀ k ∈ outcomes, k < size) (key : String) :
    ((Histogram.collect (reported f width (observed size outcomes))).count key).toNat =
      f (hits width outcomes key) := by
  have nothing : f 0 = 0 := Nat.le_zero.mp (shrinks 0 (Nat.zero_le _))
  have small : f (hits width outcomes key) < 2 ^ 64 :=
    lt_of_le_of_lt ((shrinks _ (hits_le key)).trans (hits_le key)) few
  rw [Histogram.count, get?_reported nothing inside]
  split
  case isTrue missing => rw [missing]; rfl
  case isFalse => exact UInt64.toNat_ofNat_of_lt' small

theorem sum_reported {f : Nat → Nat} {observed : List (Nat × Nat)}
    (small : ∀ e ∈ observed, f e.2 < 2 ^ 64) :
    ((reported f width observed).map fun pair => pair.2.toNat).sum =
      (observed.map fun e => f e.2).sum := by
  induction observed with
  | nil => rfl
  | cons e rest ih =>
    have behind := ih fun e member => small e (List.mem_cons_of_mem _ member)
    have here : (UInt64.ofNat (f e.2)).toNat = f e.2 :=
      UInt64.toNat_ofNat_of_lt' (small e List.mem_cons_self)
    by_cases lost : f e.2 = 0
    · have skipped : reported f width (e :: rest) = reported f width rest := by
        simp [reported, lost]
      rw [skipped, behind, List.map_cons, List.sum_cons, lost, Nat.zero_add]
    · have kept : reported f width (e :: rest) =
          (bitstring e.1 width, UInt64.ofNat (f e.2)) :: reported f width rest := by
        simp [reported, lost]
      rw [kept, List.map_cons, List.sum_cons, behind, here, List.map_cons, List.sum_cons]

theorem toNat_total_reported {f : Nat → Nat} (shrinks : ∀ n ≤ outcomes.length, f n ≤ n)
    (few : outcomes.length < 2 ^ 64) (inside : ∀ k ∈ outcomes, k < size) :
    (Histogram.collect (reported f width (observed size outcomes))).total.toNat =
      ((observed size outcomes).map fun e => f e.2).sum := by
  have bounds : ∀ e ∈ observed size outcomes, f e.2 ≤ e.2 ∧ e.2 ≤ outcomes.length := by
    rintro ⟨k, n⟩ member
    obtain ⟨-, -, rfl⟩ := mem_observed.mp member
    exact ⟨shrinks _ List.count_le_length, List.count_le_length⟩
  have small : ∀ e ∈ observed size outcomes, f e.2 < 2 ^ 64 := by
    intro e member
    obtain ⟨le, upto⟩ := bounds e member
    omega
  have sum : ((reported f width (observed size outcomes)).map fun pair => pair.2.toNat).sum =
      ((observed size outcomes).map fun e => f e.2).sum := sum_reported small
  have sum_le : ((observed size outcomes).map fun e => f e.2).sum ≤ outcomes.length :=
    sum_observed inside ▸ List.sum_le_sum fun e member => (bounds e member).1
  rw [Histogram.toNat_total_collect (nodup_reported f) (by rw [sum]; omega), sum]

end CircuitBench.Sampling
