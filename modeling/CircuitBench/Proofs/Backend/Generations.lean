import CircuitBench.Proofs.Backend.Simulator
import CircuitBench.Proofs.Binary64.Shares
import CircuitBench.Proofs.Sampling.Rounding
import Mathlib

/-!
# The two generations compared

Run with the same seed, both generations draw the same outcomes. The execute interface reports
them as they are. The sampling interface reports a count that came through a rounded share, so
it can lose one shot of each outcome, and it never gains any.
-/

namespace CircuitBench.Simulator

open Sampling

variable {R : Type} [Chance R] {words : WordSource} {circuit : Circuit} {shots : UInt32}

theorem sum_observations :
    ((observations R words circuit shots).map Prod.snd).sum = shots.toNat :=
  (sum_observed outcomes_lt).trans length_outcomes

/-- The execute interface counts the shots of every bitstring. -/
theorem toNat_count_execute (key : String) :
    ((counts R .legacyExecute words circuit shots).count key).toNat =
      hits circuit.width.toNat (outcomes R words circuit shots) key := by
  have all : ∀ n ≤ shots.toNat, keeps R shots .legacyExecute n ≤ n := fun n _ => Nat.le_refl n
  exact toNat_count_counts all key

/-- The counts of the execute interface are all of the shots. -/
theorem toNat_total_execute :
    (counts R .legacyExecute words circuit shots).total.toNat = shots.toNat := by
  have all : ∀ n ≤ shots.toNat, keeps R shots .legacyExecute n ≤ n := fun n _ => Nat.le_refl n
  rw [toNat_total_counts all]
  exact sum_observations

section Sampling

variable (rounding : ShareRounding R)

include rounding

theorem keeps_sampling_eq_or (some_shots : shots ≠ 0) {n : Nat} (le : n ≤ shots.toNat) :
    keeps R shots .sampling n = n ∨ keeps R shots .sampling n + 1 = n :=
  requantized_eq_or rounding le (toNat_pos some_shots) shots.toNat_lt

theorem keeps_sampling_le (some_shots : shots ≠ 0) :
    ∀ n ≤ shots.toNat, keeps R shots .sampling n ≤ n :=
  fun _ le => requantized_le rounding le (toNat_pos some_shots) shots.toNat_lt

/-- The counts of the sampling interface are at most all of the shots, and what is missing is at
most one shot of each outcome. -/
theorem toNat_total_sample (some_shots : shots ≠ 0) :
    (counts R .sampling words circuit shots).total.toNat ≤ shots.toNat ∧
      shots.toNat ≤ (counts R .sampling words circuit shots).total.toNat +
        (outcomes R words circuit shots).toFinset.card := by
  have le := keeps_sampling_le rounding some_shots
  have all : ((observations R words circuit shots).map Prod.snd).sum = shots.toNat :=
    sum_observations
  have length : (observations R words circuit shots).length =
      (outcomes R words circuit shots).toFinset.card := length_observed outcomes_lt
  have upto : ∀ e ∈ observations R words circuit shots, e.2 ≤ shots.toNat := by
    intro e member
    exact all ▸ List.single_le_sum (by simp) _ (List.mem_map_of_mem member)
  rw [toNat_total_counts le, ← all, ← length]
  constructor
  · exact List.sum_le_sum fun e member => le e.2 (upto e member)
  · calc ((observations R words circuit shots).map Prod.snd).sum
        ≤ ((observations R words circuit shots).map fun e =>
            keeps R shots .sampling e.2 + 1).sum := by
          refine List.sum_le_sum fun e member => ?_
          have cases := keeps_sampling_eq_or rounding some_shots (upto e member)
          omega
      _ = ((observations R words circuit shots).map fun e =>
            keeps R shots .sampling e.2).sum + (observations R words circuit shots).length := by
          rw [List.sum_map_add, List.map_const', List.sum_replicate, smul_eq_mul, Nat.mul_one]

end Sampling

/-- If a seed gives the same words in both, every bitstring has in the sampling interface the
count that it has in the execute interface, or one less, and it is missing if that is zero. The
execute interface counts every shot, and the sampling interface loses at most one shot of each
outcome that was drawn. -/
theorem generations_agree_up_to_rounding (rounding : ShareRounding R)
    {machine machine' : Machine} {maxQubits maxQubits' : UInt32} {seed : UInt64}
    (same : machine'.seeded seed = machine.seeded seed)
    (legacy : (backend R machine .legacyExecute maxQubits (some seed)).check circuit shots =
      .now (.ok ()))
    (sampling : (backend R machine' .sampling maxQubits' (some seed)).check circuit shots =
      .now (.ok ()))
    (earlier earlier' : Nat) :
    ∃ exact rounded : Histogram,
      (backend R machine .legacyExecute maxQubits (some seed)).run earlier circuit shots =
        .answer (machine.runTime .legacyExecute earlier circuit shots) (.ok exact) ∧
      (backend R machine' .sampling maxQubits' (some seed)).run earlier' circuit shots =
        .answer (machine'.runTime .sampling earlier' circuit shots) (.ok rounded) ∧
      (∀ key, ((rounded.count key).toNat = (exact.count key).toNat ∨
          (rounded.count key).toNat + 1 = (exact.count key).toNat) ∧
        (rounded.count key = 0 → rounded.get? key = none)) ∧
      exact.total.toNat = shots.toNat ∧
      rounded.total.toNat ≤ shots.toNat ∧
      shots.toNat ≤ rounded.total.toNat +
        (outcomes R (machine.seeded seed) circuit shots).toFinset.card := by
  obtain ⟨-, some_shots, -⟩ := check_eq_ok_iff.mp legacy
  have le := keeps_sampling_le rounding some_shots
  have words : machine'.wordsOf (some seed) = machine.wordsOf (some seed) := same
  have sampled := run_of_check sampling earlier'
  rw [words] at sampled
  refine ⟨_, _, run_of_check legacy earlier, sampled, ?_,
    toNat_total_execute, toNat_total_sample rounding some_shots⟩
  intro key
  refine ⟨?_, get?_counts_eq_none le⟩
  rw [toNat_count_counts le, toNat_count_execute]
  refine keeps_sampling_eq_or rounding some_shots ?_
  exact (hits_le key).trans (Nat.le_of_eq length_outcomes)

/-- Three qubits that are always observed alike. -/
def alike : Circuit :=
  ⟨3, [.single .h 0, .cnot 0 1, .cnot 1 2], by decide, by decide⟩

theorem generations_agree_up_to_rounding_alike :
    (backend Float (WordSource.ofSeed 0) .legacyExecute 24 (some 42)).check alike 49 =
      .now (.ok ()) ∧
    (backend Float (WordSource.ofSeed 1) .sampling 28 (some 42)).check alike 49 =
      .now (.ok ()) ∧
    ∃ exact rounded : Histogram,
      (backend Float (WordSource.ofSeed 0) .legacyExecute 24 (some 42)).run 0 alike 49 =
        .now (.ok exact) ∧
      (backend Float (WordSource.ofSeed 1) .sampling 28 (some 42)).run 3 alike 49 =
        .now (.ok rounded) ∧
      ((rounded.count "000").toNat = (exact.count "000").toNat ∨
        (rounded.count "000").toNat + 1 = (exact.count "000").toNat) ∧
      exact.total.toNat = 49 ∧ rounded.total.toNat ≤ 49 ∧
      49 ≤ rounded.total.toNat + (outcomes Float (.ofSeed 42) alike 49).toFinset.card := by
  have legacy : (backend Float (WordSource.ofSeed 0) .legacyExecute 24 (some 42)).check alike 49 =
      .now (.ok ()) := check_eq_ok_iff.mpr (by decide)
  have sampling : (backend Float (WordSource.ofSeed 1) .sampling 28 (some 42)).check alike 49 =
      .now (.ok ()) := check_eq_ok_iff.mpr (by decide)
  obtain ⟨exact, rounded, ran, ran', counts, total, at_most, at_least⟩ :=
    generations_agree_up_to_rounding Binary64.shareRounding (by simp) legacy sampling 0 3
  exact ⟨legacy, sampling, exact, rounded, ran, ran', (counts "000").1, total, at_most, at_least⟩

end CircuitBench.Simulator
