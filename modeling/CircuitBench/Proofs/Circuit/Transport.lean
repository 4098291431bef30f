import CircuitBench.Proofs.Circuit.LongestChain

/-!
# Levels of circuits with the same dependencies

Levels and depth are lengths of longest chains, so nothing counts for them but which
operations share a qubit and which of two such operations comes first. If the positions of
one circuit can be sent to positions of another so that both of this is kept, every chain
is sent to a chain of the same length, and so no operation is on a lower level there.
-/

namespace CircuitBench

/-- Positions of `c` are sent to positions of `d`. Where two operations of `c` share a qubit, they
are sent to operations of `d` that do so in the same order. -/
structure KeepsSharing (c d : Circuit) (send : Nat → Nat) : Prop where
  inside : ∀ i < c.gateCount, send i < d.gateCount
  before : ∀ i j, i < j → ShareQubit c.ops i j → send i < send j
  share : ∀ i j, i < j → ShareQubit c.ops i j → ShareQubit d.ops (send i) (send j)

namespace KeepsSharing

variable {c d : Circuit} {send back : Nat → Nat} {chain : List Nat} {i : Nat}

/-- Neighbours in a chain share a qubit, so they stay in order; all others stay in order with
them. -/
theorem isDependencyChain_map (keeps : KeepsSharing c d send) (h : IsDependencyChain c chain) :
    IsDependencyChain d (chain.map send) := by
  have steps : chain.IsChain fun i j => send i < send j ∧ ShareQubit d.ops (send i) (send j) := by
    refine List.isChain_iff_getElem.mpr fun k inside => ?_
    have before := List.isChain_iff_getElem.mp h.increasing.isChain k inside
    have share := List.isChain_iff_getElem.mp h.linked k inside
    exact ⟨keeps.before _ _ before share, keeps.share _ _ before share⟩
  refine ⟨?_, ?_, ?_⟩
  · intro k member
    obtain ⟨i, old, rfl⟩ := List.mem_map.mp member
    exact keeps.inside i (h.inside i old)
  · have rises : (chain.map send).IsChain (· < ·) :=
      (List.isChain_map send).mpr (steps.imp fun _ _ step => step.1)
    exact List.isChain_iff_pairwise.mp rises
  · exact (List.isChain_map send).mpr (steps.imp fun _ _ step => step.2)

theorem levelAt_le (keeps : KeepsSharing c d send) (h : i < c.gateCount) :
    c.levelAt i ≤ d.levelAt (send i) := by
  obtain ⟨chain, isChain, last, length⟩ := (c.isGreatest_levelAt h).1
  refine (d.isGreatest_levelAt (keeps.inside i h)).2 ⟨chain.map send, ?_, ?_, ?_⟩
  · exact keeps.isDependencyChain_map isChain
  · rw [List.getLast?_map, last, Option.map_some]
  · rw [List.length_map, length]

theorem depth_le (keeps : KeepsSharing c d send) : c.depth ≤ d.depth := by
  obtain ⟨chain, isChain, length⟩ := c.isGreatest_depth.1
  refine d.isGreatest_depth.2 ⟨chain.map send, keeps.isDependencyChain_map isChain, ?_⟩
  rw [List.length_map, length]

/-- An operation that can be sent there and back is on the same level. -/
theorem levelAt_eq (there : KeepsSharing c d send) (home : KeepsSharing d c back)
    (h : i < c.gateCount) (returns : back (send i) = i) : d.levelAt (send i) = c.levelAt i := by
  refine Nat.le_antisymm ?_ (there.levelAt_le h)
  have lower := home.levelAt_le (there.inside i h)
  rwa [returns] at lower

theorem depth_eq (there : KeepsSharing c d send) (home : KeepsSharing d c back) :
    d.depth = c.depth :=
  Nat.le_antisymm home.depth_le there.depth_le

end KeepsSharing

theorem Circuit.getElem?_levels (c : Circuit) {i : Nat} (h : i < c.gateCount) :
    c.levels[i]? = some (c.levelAt i) := by
  have inside : i < c.levels.length := by rwa [c.length_levels]
  rw [List.getElem?_eq_getElem inside, c.getElem_levels i inside]

end CircuitBench
