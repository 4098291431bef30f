import CircuitBench.Proofs.Circuit.Transport
import Mathlib.Data.Fin.Tuple.Sort

/-!
# Circuits with their operations in another order

An order of the operations keeps the dependencies if any two operations that share a qubit come
in the same order as before. Then every operation keeps its level, and the depth stays. To sort
the operations by their levels is one way to keep the dependencies, because operations that
share a qubit are never on one level and the later one is on the higher level.
-/

namespace CircuitBench

theorem ShareQubit.symm {ops : List Operation} {i j : Nat} (h : ShareQubit ops i j) :
    ShareQubit ops j i := by
  obtain ⟨qubit, acts_i, acts_j⟩ := h
  exact ⟨qubit, acts_j, acts_i⟩

def positionMap {n : Nat} (p : Equiv.Perm (Fin n)) (i : Nat) : Nat :=
  if h : i < n then p ⟨i, h⟩ else i

@[simp] theorem positionMap_val {n : Nat} (p : Equiv.Perm (Fin n)) (k : Fin n) :
    positionMap p k = p k := by
  simp [positionMap]

theorem KeepsSharing.of_perm {c d : Circuit} {n : Nat} {p : Equiv.Perm (Fin n)}
    (from_c : c.gateCount = n) (to_d : d.gateCount = n)
    (keeps : ∀ j k : Fin n, j < k → ShareQubit c.ops j k →
      p j < p k ∧ ShareQubit d.ops (p j) (p k)) : KeepsSharing c d (positionMap p) := by
  subst from_c
  have both : ∀ i j, i < j → ShareQubit c.ops i j → positionMap p i < positionMap p j ∧
      ShareQubit d.ops (positionMap p i) (positionMap p j) := by
    intro i j before share
    obtain ⟨qubit, acts_i, acts_j⟩ := share
    have kept := keeps ⟨i, acts_i.lt_length⟩ ⟨j, acts_j.lt_length⟩ before ⟨qubit, acts_i, acts_j⟩
    rwa [← positionMap_val, ← positionMap_val, Fin.lt_def, ← positionMap_val,
      ← positionMap_val] at kept
  refine ⟨?_, fun i j before share => (both i j before share).1,
    fun i j before share => (both i j before share).2⟩
  intro i h
  rw [to_d, ← Fin.val_mk h, positionMap_val]
  exact (p ⟨i, h⟩).isLt

namespace Circuit

def opAt (c : Circuit) (k : Fin c.gateCount) : Operation :=
  c.ops.get k

theorem fits_opAt (c : Circuit) (k : Fin c.gateCount) : (c.opAt k).Fits c.width.toNat :=
  c.fits _ (List.get_mem c.ops k)

theorem getElem?_ops (c : Circuit) (k : Fin c.gateCount) : c.ops[k.val]? = some (c.opAt k) :=
  List.getElem?_eq_getElem k.isLt

theorem map_opAt_finRange (c : Circuit) : (List.finRange c.gateCount).map c.opAt = c.ops :=
  List.map_get_finRange c.ops

/-- The circuit with its operations in another order: the operation that comes at position `k`
came at position `source k`. -/
def reorder (c : Circuit) (source : Equiv.Perm (Fin c.gateCount)) : Circuit where
  width := c.width
  ops := (List.finRange c.gateCount).map fun k => c.opAt (source k)
  width_pos := c.width_pos
  fits := by
    intro op member
    obtain ⟨k, -, rfl⟩ := List.mem_map.mp member
    exact c.fits_opAt (source k)

variable (c : Circuit) (source : Equiv.Perm (Fin c.gateCount))

/-- Any two operations that share a qubit come in the new order as they did in the old one. -/
def KeepsDependencies : Prop :=
  ∀ j k, ShareQubit c.ops (source j) (source k) → (j < k ↔ source j < source k)

/-- The operations come in ascending order of their levels, those of one level in any order. -/
def SortsByLevel : Prop :=
  Monotone fun k => c.levelAt (source k)

theorem exists_sortsByLevel : ∃ source, c.SortsByLevel source :=
  ⟨Tuple.sort fun k => c.levelAt k, Tuple.monotone_sort fun k : Fin c.gateCount => c.levelAt k⟩

variable {c source}

theorem SortsByLevel.keepsDependencies (sorted : c.SortsByLevel source) :
    c.KeepsDependencies source := by
  intro j k share
  constructor
  · intro before
    by_contra other
    -- The operation at `k` came first, so it is on a lower level than the one at `j`.
    have apart : source k ≠ source j := fun same => before.ne' (source.injective same)
    have earlier : source k < source j := lt_of_le_of_ne (not_lt.mp other) apart
    have lower := levelAt_lt_of_shareQubit earlier share.symm
    exact absurd (sorted before.le) (Nat.not_le.mpr lower)
  · intro earlier
    by_contra other
    have lower := levelAt_lt_of_shareQubit earlier share
    exact absurd (sorted (not_lt.mp other)) (Nat.not_le.mpr lower)

@[simp] theorem gateCount_reorder : (c.reorder source).gateCount = c.gateCount := by
  simp [gateCount, reorder]

theorem getElem?_ops_reorder (k : Fin c.gateCount) :
    (c.reorder source).ops[k.val]? = c.ops[(source k).val]? := by
  rw [getElem?_ops c (source k)]
  simp [reorder]

theorem shareQubit_reorder {j k : Fin c.gateCount} :
    ShareQubit (c.reorder source).ops j k ↔ ShareQubit c.ops (source j) (source k) := by
  simp only [ShareQubit, ActsOn, getElem?_ops_reorder]

theorem KeepsDependencies.keepsSharing_reorder (keeps : c.KeepsDependencies source) :
    KeepsSharing (c.reorder source) c (positionMap source) := by
  refine KeepsSharing.of_perm gateCount_reorder rfl ?_
  intro j k before share
  have old := shareQubit_reorder.mp share
  exact ⟨(keeps j k old).mp before, old⟩

theorem KeepsDependencies.keepsSharing_original (keeps : c.KeepsDependencies source) :
    KeepsSharing c (c.reorder source) (positionMap source.symm) := by
  refine KeepsSharing.of_perm rfl gateCount_reorder ?_
  intro j k before share
  rw [← source.apply_symm_apply j, ← source.apply_symm_apply k] at before share
  exact ⟨(keeps _ _ share).mpr before, shareQubit_reorder.mpr share⟩

/-- Every operation has in the new order the level that it had in the old one. -/
theorem KeepsDependencies.levels_reorder (keeps : c.KeepsDependencies source)
    (k : Fin c.gateCount) : (c.reorder source).levels[k.val]? = c.levels[(source k).val]? := by
  have inside : k.val < (c.reorder source).gateCount := by
    rw [gateCount_reorder]
    exact k.isLt
  have level := keeps.keepsSharing_reorder.levelAt_eq keeps.keepsSharing_original inside (by simp)
  rw [positionMap_val] at level
  rw [getElem?_levels _ inside, getElem?_levels _ (source k).isLt, level]

theorem KeepsDependencies.depth_reorder (keeps : c.KeepsDependencies source) :
    (c.reorder source).depth = c.depth :=
  keeps.keepsSharing_original.depth_eq keeps.keepsSharing_reorder

end Circuit

end CircuitBench
