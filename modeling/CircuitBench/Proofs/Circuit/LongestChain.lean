import CircuitBench.Proofs.Circuit.Dependency
import Mathlib.Data.List.Chain
import Mathlib.Order.Bounds.Defs

/-!
# Levels and depth as lengths of longest chains

A chain runs through a circuit from operation to operation, always forwards and always
along a shared qubit. Levels rise along a chain by at least one from step to step, so
no chain that ends in an operation is longer than its level. Going back from an
operation to one that its level was made from, until the first level is reached, gives
a chain of exactly that length.
-/

namespace CircuitBench

/-- Positions of operations in strictly increasing order, of which any two neighbours share a
qubit. -/
structure IsDependencyChain (c : Circuit) (chain : List Nat) : Prop where
  inside : ∀ i ∈ chain, i < c.gateCount
  increasing : chain.Pairwise (· < ·)
  linked : chain.IsChain (ShareQubit c.ops)

namespace IsDependencyChain

variable {c : Circuit} {chain : List Nat} {i j : Nat}

theorem nil (c : Circuit) : IsDependencyChain c [] :=
  ⟨by simp, .nil, .nil⟩

theorem singleton (h : i < c.gateCount) : IsDependencyChain c [i] :=
  ⟨by simpa using h, by simp, .singleton i⟩

/-- A chain goes on with a later operation that shares a qubit with its last one. -/
theorem concat (h : IsDependencyChain c (chain ++ [j])) (inside : i < c.gateCount)
    (before : j < i) (share : ShareQubit c.ops j i) :
    IsDependencyChain c (chain ++ [j] ++ [i]) := by
  refine ⟨?_, ?_, ?_⟩
  · intro k member
    rcases List.mem_append.mp member with old | new
    · exact h.inside k old
    · rw [List.mem_singleton.mp new]
      exact inside
  · refine List.pairwise_append.mpr ⟨h.increasing, List.pairwise_singleton _ _, ?_⟩
    intro k member n new
    rw [List.mem_singleton.mp new]
    rcases List.mem_append.mp member with front | last
    · exact Nat.lt_trans ((List.pairwise_append.mp h.increasing).2.2 k front j (by simp)) before
    · rw [List.mem_singleton.mp last]
      exact before
  · refine h.linked.append (.singleton i) ?_
    intro k last n first
    obtain rfl : j = k := by simpa using last
    obtain rfl : i = n := by simpa using first
    exact share

theorem front (h : IsDependencyChain c (chain ++ [i])) : IsDependencyChain c chain :=
  ⟨fun k member => h.inside k (by simp [member]), (List.pairwise_append.mp h.increasing).1,
    h.linked.left_of_append⟩

/-- The last two operations of a chain. -/
theorem last_two (h : IsDependencyChain c (chain ++ [j] ++ [i])) :
    j < i ∧ ShareQubit c.ops j i :=
  ⟨(List.pairwise_append.mp h.increasing).2.2 j (by simp) i (by simp),
    (List.isChain_append.mp h.linked).2.2 j (by simp) i (by simp)⟩

theorem length_le_levelAt (h : IsDependencyChain c (chain ++ [i])) :
    (chain ++ [i]).length ≤ c.levelAt i := by
  induction chain using List.reverseRecOn generalizing i with
  | nil =>
    exact Circuit.levelAt_pos (h.inside i (by simp))
  | append_singleton before j ih =>
    have shorter := ih h.front
    obtain ⟨order, share⟩ := h.last_two
    have rises := Circuit.levelAt_lt_of_shareQubit order share
    simp only [List.length_append, List.length_singleton] at shorter ⊢
    omega

end IsDependencyChain

namespace Circuit

/-- Every operation ends a chain that is as long as its level is high. -/
theorem exists_chain_of_levelAt {c : Circuit} {i : Nat} (h : i < c.gateCount) :
    ∃ chain, IsDependencyChain c (chain ++ [i]) ∧ (chain ++ [i]).length = c.levelAt i := by
  induction i using Nat.strongRecOn with
  | ind i ih =>
    rcases levelAt_eq_one_or h with first | ⟨j, before, share, level⟩
    · exact ⟨[], .singleton h, by simpa using first.symm⟩
    · obtain ⟨chain, isChain, length⟩ := ih j before (Nat.lt_trans before h)
      refine ⟨chain ++ [j], isChain.concat h before share, ?_⟩
      rw [List.length_append, length, level, List.length_singleton]

theorem isGreatest_levelAt (c : Circuit) {i : Nat} (h : i < c.gateCount) :
    IsGreatest {n | ∃ chain, IsDependencyChain c chain ∧ chain.getLast? = some i ∧
      chain.length = n} (c.levelAt i) := by
  constructor
  · obtain ⟨chain, isChain, length⟩ := exists_chain_of_levelAt h
    exact ⟨chain ++ [i], isChain, by simp, length⟩
  · rintro n ⟨chain, isChain, last, rfl⟩
    obtain ⟨before, rfl⟩ := List.getLast?_eq_some_iff.mp last
    exact isChain.length_le_levelAt

theorem depth_eq_foldl_levels (c : Circuit) : c.depth = c.levels.foldl max 0 := by
  simp [depth, levels, DependencyGraph.depth]

theorem levelAt_le_depth {c : Circuit} {i : Nat} (h : i < c.gateCount) :
    c.levelAt i ≤ c.depth := by
  have inside : i < c.levels.length := by simpa using h
  rw [depth_eq_foldl_levels, ← getElem_levels c i inside]
  exact (foldl_max_isLargest 0 c.levels).2 _ (.tail _ (List.getElem_mem inside))

/-- The depth is zero or the level of some operation. -/
theorem depth_eq_zero_or (c : Circuit) :
    c.depth = 0 ∨ ∃ i < c.gateCount, c.depth = c.levelAt i := by
  rw [depth_eq_foldl_levels]
  rcases List.mem_cons.mp (foldl_max_isLargest 0 c.levels).1 with zero | member
  · exact .inl zero
  · obtain ⟨i, inside, level⟩ := List.getElem_of_mem member
    exact .inr ⟨i, by simpa using inside, by rw [← level, getElem_levels]⟩

theorem isGreatest_depth (c : Circuit) :
    IsGreatest {n | ∃ chain, IsDependencyChain c chain ∧ chain.length = n} c.depth := by
  constructor
  · rcases c.depth_eq_zero_or with zero | ⟨i, inside, level⟩
    · exact ⟨[], .nil c, by rw [zero]; rfl⟩
    · obtain ⟨chain, isChain, length⟩ := exists_chain_of_levelAt inside
      exact ⟨chain ++ [i], isChain, by rw [length, level]⟩
  · rintro n ⟨chain, isChain, rfl⟩
    rcases List.eq_nil_or_concat chain with rfl | ⟨before, i, rfl⟩
    · exact Nat.zero_le _
    · rw [List.concat_eq_append] at isChain ⊢
      exact Nat.le_trans isChain.length_le_levelAt
        (levelAt_le_depth (isChain.inside i (by simp)))

/-- There is a level for every operation, which is the length of the longest chain that ends in
it. The depth is the length of the longest chain of all, and zero if the empty chain is the
only one. -/
theorem levels_and_depth_are_longest_chains (c : Circuit) :
    c.levels.length = c.gateCount ∧
    (∀ i : Fin c.levels.length,
      IsGreatest {n | ∃ chain, IsDependencyChain c chain ∧ chain.getLast? = some i.val ∧
        chain.length = n} c.levels[i]) ∧
    IsGreatest {n | ∃ chain, IsDependencyChain c chain ∧ chain.length = n} c.depth := by
  refine ⟨c.length_levels, ?_, c.isGreatest_depth⟩
  intro i
  have inside : i.val < c.gateCount := by simpa using i.isLt
  have level : c.levels[i] = c.levelAt i.val := c.getElem_levels i.val i.isLt
  rw [level]
  exact c.isGreatest_levelAt inside

end Circuit

end CircuitBench
