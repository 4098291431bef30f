import CircuitBench.Proofs.Circuit.Reordering
import Mathlib

/-!
# Levels as layers

The operations of one level can run side by side: no two of them share a qubit, so a qubit is an
operand at most once on each level. This bounds the operands of a whole circuit by its depth and
its width. No level up to the depth is empty either, because every operation above the first
level stands directly above another one.
-/

namespace CircuitBench.Circuit

variable {c : Circuit} {i j : Nat}

/-- Two operations of one level that share a qubit are the same one. -/
theorem eq_of_shareQubit (same : c.levelAt i = c.levelAt j) (share : ShareQubit c.ops i j) :
    i = j := by
  rcases Nat.lt_trichotomy i j with before | here | behind
  · exact absurd same (Nat.ne_of_lt (levelAt_lt_of_shareQubit before share))
  · exact here
  · exact absurd same.symm (Nat.ne_of_lt (levelAt_lt_of_shareQubit behind share.symm))

/-- Going down from an operation, one level at a time, meets every level below it. -/
theorem exists_levelAt_eq_of_le {level : Nat} (h : i < c.gateCount) (pos : 1 ≤ level)
    (below : level ≤ c.levelAt i) : ∃ k < c.gateCount, c.levelAt k = level := by
  induction i using Nat.strongRecOn with
  | ind i ih =>
    rcases Nat.eq_or_lt_of_le below with here | lower
    · exact ⟨i, h, here.symm⟩
    rcases levelAt_eq_one_or h with first | ⟨j, before, -, step⟩
    · omega
    · exact ih j before (Nat.lt_trans before h) (by omega)

theorem mem_levels_iff {level : Nat} :
    level ∈ c.levels ↔ ∃ k < c.gateCount, c.levelAt k = level := by
  rw [List.mem_iff_getElem]
  simp only [getElem_levels, length_levels, exists_prop]

/-- The levels in use are those from one to the depth. -/
theorem mem_levels_iff_le_depth {level : Nat} :
    level ∈ c.levels ↔ 1 ≤ level ∧ level ≤ c.depth := by
  rw [mem_levels_iff]
  constructor
  · rintro ⟨k, inside, rfl⟩
    exact ⟨levelAt_pos inside, levelAt_le_depth inside⟩
  · rintro ⟨pos, within⟩
    rcases c.depth_eq_zero_or with zero | ⟨k, inside, top⟩
    · omega
    · exact exists_levelAt_eq_of_le inside pos (top ▸ within)

/-- The operands of a circuit, each with the position of its operation. -/
def slots (c : Circuit) : Finset ((_ : Fin c.gateCount) × UInt32) :=
  Finset.univ.sigma fun k => (c.opAt k).qubits.toFinset

theorem card_slots (c : Circuit) :
    c.slots.card = (c.ops.map fun op => op.qubits.length).sum := by
  have operands : ∀ k, (c.opAt k).qubits.toFinset.card = (c.opAt k).qubits.length :=
    fun k => List.toFinset_card_of_nodup (c.fits_opAt k).2
  rw [slots, Finset.card_sigma, Finset.sum_congr rfl fun k _ => operands k, Fin.sum_univ_def,
    ← c.map_opAt_finRange, List.map_map]
  rfl

theorem actsOn_of_mem_slots {slot : (_ : Fin c.gateCount) × UInt32} (member : slot ∈ c.slots) :
    ActsOn c.ops slot.1 slot.2 := by
  have operand := (Finset.mem_sigma.mp member).2
  exact ⟨_, c.getElem?_ops slot.1, List.mem_toFinset.mp operand⟩

/-- On each level every qubit is free for one operand, and all operands find room so. -/
theorem sum_operands_le (c : Circuit) :
    (c.ops.map fun op => op.qubits.length).sum ≤ c.depth * c.width.toNat := by
  have room : c.slots.card ≤ (Finset.Icc 1 c.depth ×ˢ Finset.range c.width.toNat).card := by
    refine Finset.card_le_card_of_injOn
      (fun slot => (c.levelAt slot.1, slot.2.toNat)) (fun slot member => ?_) ?_
    · have operand := List.mem_toFinset.mp (Finset.mem_sigma.mp member).2
      have level := levelAt_pos slot.1.isLt
      have depth := levelAt_le_depth slot.1.isLt
      have qubit := (c.fits_opAt slot.1).1 slot.2 operand
      simpa using ⟨⟨level, depth⟩, qubit⟩
    · rintro ⟨k, q⟩ first ⟨n, p⟩ second same
      obtain ⟨level, qubit⟩ := Prod.mk.inj same
      obtain rfl : q = p := UInt32.toNat_inj.mp qubit
      have share : ShareQubit c.ops k n :=
        ⟨q, actsOn_of_mem_slots first, actsOn_of_mem_slots second⟩
      obtain rfl : k = n := Fin.ext (eq_of_shareQubit level share)
      rfl
  rw [card_slots, Finset.card_product, Nat.card_Icc, Finset.card_range] at room
  exact room

theorem gateCount_le_sum_operands (c : Circuit) :
    c.gateCount ≤ (c.ops.map fun op => op.qubits.length).sum := by
  rw [gateCount, ← List.length_map (f := fun op : Operation => op.qubits.length)]
  refine List.length_le_sum_of_one_le _ fun n member => ?_
  obtain ⟨op, -, rfl⟩ := List.mem_map.mp member
  cases op with
  | single gate target => exact Nat.le_refl 1
  | cnot control target => exact Nat.le_succ 1

/-- Operations of one level have no qubit in common, and of two operations that have one the later
is on a higher level. The levels in use are those from one to the depth, without a gap. So there
are no more operands than the depth times the width, and no more operations either. -/
theorem levels_are_layers (c : Circuit) :
    (∀ i j level, i ≠ j → c.levels[i]? = some level → c.levels[j]? = some level →
      ¬ShareQubit c.ops i j) ∧
    (∀ i j, i < j → ShareQubit c.ops i j →
      ∃ low high, c.levels[i]? = some low ∧ c.levels[j]? = some high ∧ low < high) ∧
    (∀ level, level ∈ c.levels ↔ 1 ≤ level ∧ level ≤ c.depth) ∧
    (c.ops.map fun op => op.qubits.length).sum ≤ c.depth * c.width.toNat ∧
    c.gateCount ≤ c.depth * c.width.toNat := by
  have known : ∀ i j, ShareQubit c.ops i j →
      c.levels[i]? = some (c.levelAt i) ∧ c.levels[j]? = some (c.levelAt j) := by
    rintro i j ⟨qubit, acts_i, acts_j⟩
    exact ⟨c.getElem?_levels acts_i.lt_length, c.getElem?_levels acts_j.lt_length⟩
  refine ⟨?_, ?_, fun level => mem_levels_iff_le_depth, c.sum_operands_le,
    c.gateCount_le_sum_operands.trans c.sum_operands_le⟩
  · intro i j level apart at_i at_j share
    obtain ⟨level_i, level_j⟩ := known i j share
    rw [level_i] at at_i
    rw [level_j, ← at_i] at at_j
    exact apart (eq_of_shareQubit (Option.some.inj at_j).symm share)
  · intro i j before share
    obtain ⟨level_i, level_j⟩ := known i j share
    exact ⟨_, _, level_i, level_j, levelAt_lt_of_shareQubit before share⟩

end CircuitBench.Circuit
