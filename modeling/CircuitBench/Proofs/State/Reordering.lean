import Mathlib
import CircuitBench.Proofs.Circuit.Reordering
import CircuitBench.Proofs.State.Commutation

/-!
# Operations without a common qubit are independent

Two orders of the same steps lead to the same state if any two steps that come in different
orders commute: the first step of one order can be moved to the front of the other past all
that come before it there, and what is left are two orders of the remaining steps. An order
of the operations of a circuit that keeps the dependencies has only operations without a common
qubit change places, and these commute.
-/

namespace CircuitBench

section Steps

variable {S A : Type} {step : S → A → S}

/-- A step that commutes with all before it can as well be the first. -/
theorem foldl_move_to_front {first : A} {front : List A} (back : List A)
    (commutes : ∀ a ∈ front, ∀ s, step (step s a) first = step (step s first) a) (s : S) :
    (front ++ first :: back).foldl step s = (first :: (front ++ back)).foldl step s := by
  induction front generalizing s with
  | nil => rfl
  | cons a rest ih =>
    have past := ih (fun b member => commutes b (.tail _ member)) (step s a)
    rw [List.cons_append, List.foldl_cons, past]
    simp only [List.cons_append, List.foldl_cons]
    rw [commutes a List.mem_cons_self]

/-- Two orders of the same steps agree if steps that come in different orders commute. -/
theorem foldl_eq_of_crossing_commutes {as bs : List A} (same : as.Perm bs)
    (commutes : ∀ a b, [a, b].Sublist as → [b, a].Sublist bs →
      ∀ s, step (step s b) a = step (step s a) b) (s : S) :
    as.foldl step s = bs.foldl step s := by
  induction as generalizing bs s with
  | nil => rw [List.nil_perm.mp same]
  | cons first rest ih =>
    obtain ⟨front, back, rfl⟩ := List.append_of_mem (same.mem_iff.mp List.mem_cons_self)
    have remaining : rest.Perm (front ++ back) :=
      (same.trans List.perm_middle).cons_inv
    rw [foldl_move_to_front back]
    · refine ih remaining ?_ (step s first)
      intro a b in_rest crossed
      refine commutes a b (in_rest.cons first) ?_
      exact crossed.trans ((List.Sublist.refl front).append (List.sublist_cons_self first back))
    · intro a member
      have in_rest : a ∈ rest := remaining.mem_iff.mpr (List.mem_append_left back member)
      refine commutes first a ?_ ?_
      · exact (List.singleton_sublist.mpr in_rest).cons_cons first
      · exact (List.singleton_sublist.mpr member).append
          (List.singleton_sublist.mpr List.mem_cons_self)

end Steps

namespace Circuit

variable {R : Type} [ScalarRing R] (c : Circuit)

def step (v : Statevector R c.width.toNat) (k : Fin c.gateCount) : Statevector R c.width.toNat :=
  v.apply (c.opAt k) (c.fits_opAt k)

/-- Operations are applied as the steps at their positions. -/
theorem applyAll_eq_foldl_step {ops : List Operation} {positions : List (Fin c.gateCount)}
    (listed : positions.map c.opAt = ops) (fits : ∀ op ∈ ops, op.Fits c.width.toNat)
    (v : Statevector R c.width.toNat) : v.applyAll ops fits = positions.foldl c.step v := by
  subst listed
  induction positions generalizing v with
  | nil => rfl
  | cons k rest ih => exact ih (c.step v k) _

variable {c} {source : Equiv.Perm (Fin c.gateCount)}

theorem step_comm {j k : Fin c.gateCount} (apart : ¬ShareQubit c.ops j k)
    (v : Statevector R c.width.toNat) : c.step (c.step v k) j = c.step (c.step v j) k := by
  refine Statevector.apply_comm ?_ _ _ v
  intro qubit on_k on_j
  exact apart ⟨qubit, ⟨_, c.getElem?_ops j, on_j⟩, ⟨_, c.getElem?_ops k, on_k⟩⟩

/-- Positions that come in another order than before have operations without a common qubit. -/
theorem KeepsDependencies.not_shareQubit (keeps : c.KeepsDependencies source)
    {i j : Fin c.gateCount} (old : [i, j].Sublist (List.finRange c.gateCount))
    (new : [j, i].Sublist ((List.finRange c.gateCount).map source)) : ¬ShareQubit c.ops i j := by
  intro share
  have before : i < j :=
    List.pairwise_iff_forall_sublist.mp (List.pairwise_lt_finRange c.gateCount) old
  have behind : ((List.finRange c.gateCount).map source).Pairwise
      fun x y => source.symm x < source.symm y := by
    rw [List.pairwise_map]
    simpa using List.pairwise_lt_finRange c.gateCount
  have after : source.symm j < source.symm i := List.pairwise_iff_forall_sublist.mp behind new
  have kept := keeps (source.symm i) (source.symm j)
  simp only [Equiv.apply_symm_apply] at kept
  exact absurd ((kept share).mpr before) (not_lt.mpr after.le)

/-- An order that keeps the dependencies leads to the same state. -/
theorem KeepsDependencies.applyAll_reorder (keeps : c.KeepsDependencies source)
    (fits : ∀ op ∈ (c.reorder source).ops, op.Fits c.width.toNat)
    (v : Statevector R c.width.toNat) :
    v.applyAll (c.reorder source).ops fits = v.applyAll c.ops c.fits := by
  have listed : ((List.finRange c.gateCount).map source).map c.opAt = (c.reorder source).ops := by
    rw [List.map_map]
    rfl
  rw [c.applyAll_eq_foldl_step listed, c.applyAll_eq_foldl_step c.map_opAt_finRange]
  symm
  apply foldl_eq_of_crossing_commutes (Equiv.Perm.map_finRange_perm source).symm
  intro i j old new w
  exact step_comm (keeps.not_shareQubit old new) w

end Circuit

/-- An order of the operations that keeps the dependencies leaves the depth, the level of every
operation and, over exact arithmetic, the final state as they are. To sort the operations by
their levels is such an order, and it can be done in every circuit. -/
theorem orders_that_keep_dependencies_agree (R : Type) [ScalarRing R] (c : Circuit) :
    (∀ source : Equiv.Perm (Fin c.gateCount), c.KeepsDependencies source →
      (c.reorder source).depth = c.depth ∧
      (∀ k : Fin c.gateCount, (c.reorder source).levels[k.val]? = c.levels[(source k).val]?) ∧
      ((c.reorder source).finalState R : Statevector R c.width.toNat) = c.finalState R) ∧
    (∀ source, c.SortsByLevel source → c.KeepsDependencies source) ∧
    ∃ source, c.SortsByLevel source := by
  refine ⟨?_, fun source sorted => sorted.keepsDependencies, c.exists_sortsByLevel⟩
  intro source keeps
  refine ⟨keeps.depth_reorder, keeps.levels_reorder, ?_⟩
  exact keeps.applyAll_reorder (c.reorder source).fits (Statevector.initial R c.width.toNat)

/-- Two pairs of entangled qubits, made one after the other, and a flip. -/
def staggered : Circuit :=
  ⟨5, [.single .h 0, .cnot 0 1, .single .t 2, .cnot 2 3, .single .x 4], by decide, by decide⟩

/-- The order that makes both pairs side by side. -/
def sideBySide : Equiv.Perm (Fin 5) where
  toFun := ![4, 2, 0, 3, 1]
  invFun := ![2, 4, 1, 3, 0]
  left_inv := by decide
  right_inv := by decide

theorem orders_that_keep_dependencies_agree_staggered :
    staggered.SortsByLevel sideBySide ∧ (staggered.reorder sideBySide).depth = staggered.depth ∧
    ((staggered.reorder sideBySide).finalState ℝ : Statevector ℝ 5) = staggered.finalState ℝ := by
  have sorted : staggered.SortsByLevel sideBySide := by
    have climbs : ∀ j k : Fin staggered.gateCount, j ≤ k →
        staggered.levelAt (sideBySide j) ≤ staggered.levelAt (sideBySide k) := by
      decide +kernel
    intro j k h
    exact climbs j k h
  obtain ⟨kept, sorting, -⟩ := orders_that_keep_dependencies_agree ℝ staggered
  obtain ⟨depth, -, state⟩ := kept sideBySide (sorting sideBySide sorted)
  exact ⟨sorted, depth, state⟩

end CircuitBench
