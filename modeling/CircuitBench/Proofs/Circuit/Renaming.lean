import CircuitBench.Proofs.Circuit.Transport
import Mathlib.Data.List.Nodup
import Mathlib.Logic.Equiv.Defs

/-!
# Circuits with their qubits renamed

A permutation of the qubits of a circuit renames every operand. Operations share a qubit after it
exactly if they shared one before, and their order stays, so levels and depth stay too.
-/

namespace CircuitBench

def Operation.rename (f : UInt32 → UInt32) : Operation → Operation
  | single gate target => single gate (f target)
  | cnot control target => cnot (f control) (f target)

@[simp] theorem Operation.qubits_rename (f : UInt32 → UInt32) (op : Operation) :
    (op.rename f).qubits = op.qubits.map f := by
  cases op <;> rfl

section Sharing

variable {f : UInt32 → UInt32} {ops : List Operation} {i j : Nat}

theorem actsOn_map_rename {wire : UInt32} :
    ActsOn (ops.map (.rename f)) i wire ↔ ∃ qubit, ActsOn ops i qubit ∧ f qubit = wire := by
  constructor
  · rintro ⟨op, at_i, member⟩
    rw [List.getElem?_map, Option.map_eq_some_iff] at at_i
    obtain ⟨old, old_at_i, rfl⟩ := at_i
    rw [Operation.qubits_rename] at member
    obtain ⟨qubit, old_member, renamed⟩ := List.mem_map.mp member
    exact ⟨qubit, ⟨old, old_at_i, old_member⟩, renamed⟩
  · rintro ⟨qubit, ⟨op, at_i, member⟩, rfl⟩
    refine ⟨op.rename f, ?_, ?_⟩
    · rw [List.getElem?_map, at_i, Option.map_some]
    · rw [Operation.qubits_rename]
      exact List.mem_map_of_mem member

theorem shareQubit_map_rename (injective : f.Injective) :
    ShareQubit (ops.map (.rename f)) i j ↔ ShareQubit ops i j := by
  constructor
  · rintro ⟨wire, acts_i, acts_j⟩
    obtain ⟨qubit, old_i, rfl⟩ := actsOn_map_rename.mp acts_i
    obtain ⟨other, old_j, same⟩ := actsOn_map_rename.mp acts_j
    rw [injective same] at old_j
    exact ⟨qubit, old_i, old_j⟩
  · rintro ⟨qubit, acts_i, acts_j⟩
    exact ⟨f qubit, actsOn_map_rename.mpr ⟨qubit, acts_i, rfl⟩,
      actsOn_map_rename.mpr ⟨qubit, acts_j, rfl⟩⟩

end Sharing

section Qubits

variable {width : UInt32} (p : Equiv.Perm (Fin width.toNat)) {q : UInt32}

/-- A permutation of the first qubits as a renaming of all qubits. -/
def renameQubit (q : UInt32) : UInt32 :=
  if h : q.toNat < width.toNat then UInt32.ofNat (p ⟨q.toNat, h⟩) else q

theorem toNat_renameQubit (h : q.toNat < width.toNat) :
    (renameQubit p q).toNat = p ⟨q.toNat, h⟩ := by
  have small : (p ⟨q.toNat, h⟩).val < 2 ^ 32 := (p ⟨q.toNat, h⟩).isLt.trans width.toNat_lt
  rw [renameQubit, dif_pos h, UInt32.toNat_ofNat_of_lt' small]

theorem renameQubit_lt (h : q.toNat < width.toNat) :
    (renameQubit p q).toNat < width.toNat := by
  rw [toNat_renameQubit p h]
  exact (p ⟨q.toNat, h⟩).isLt

theorem renameQubit_of_le (h : width.toNat ≤ q.toNat) : renameQubit p q = q :=
  dif_neg (Nat.not_lt.mpr h)

/-- Renaming keeps qubits apart; those beyond the width are not mixed up with the others. -/
theorem renameQubit_injective : (renameQubit p).Injective := by
  intro q r same
  by_cases hq : q.toNat < width.toNat <;> by_cases hr : r.toNat < width.toNat
  · have values := congrArg UInt32.toNat same
    rw [toNat_renameQubit p hq, toNat_renameQubit p hr] at values
    have positions := p.injective (Fin.ext values)
    exact UInt32.toNat_inj.mp (Fin.mk.inj positions)
  · have inside := renameQubit_lt p hq
    rw [same, renameQubit_of_le p (Nat.not_lt.mp hr)] at inside
    exact absurd inside hr
  · have inside := renameQubit_lt p hr
    rw [← same, renameQubit_of_le p (Nat.not_lt.mp hq)] at inside
    exact absurd inside hq
  · rwa [renameQubit_of_le p (Nat.not_lt.mp hq), renameQubit_of_le p (Nat.not_lt.mp hr)] at same

theorem Operation.Fits.rename {op : Operation} (fits : op.Fits width.toNat) :
    (op.rename (renameQubit p)).Fits width.toNat := by
  obtain ⟨inside, distinct⟩ := fits
  rw [Fits, qubits_rename]
  refine ⟨?_, List.Nodup.map (renameQubit_injective p) distinct⟩
  intro q member
  obtain ⟨old, old_member, rfl⟩ := List.mem_map.mp member
  exact renameQubit_lt p (inside old old_member)

end Qubits

namespace Circuit

variable (c : Circuit) (p : Equiv.Perm (Fin c.width.toNat))

/-- The circuit with qubit `k` renamed to `p k`, in every operand. -/
def rename : Circuit where
  width := c.width
  ops := c.ops.map (.rename (renameQubit p))
  width_pos := c.width_pos
  fits := by
    intro op member
    obtain ⟨old, old_member, rfl⟩ := List.mem_map.mp member
    exact (c.fits old old_member).rename p

@[simp] theorem gateCount_rename : (c.rename p).gateCount = c.gateCount := by
  simp [gateCount, rename]

theorem shareQubit_rename {i j : Nat} :
    ShareQubit (c.rename p).ops i j ↔ ShareQubit c.ops i j :=
  shareQubit_map_rename (renameQubit_injective p)

theorem keepsSharing_rename : KeepsSharing c (c.rename p) id where
  inside := fun i h => by rwa [gateCount_rename]
  before := fun _ _ before _ => before
  share := fun _ _ _ share => (c.shareQubit_rename p).mpr share

theorem keepsSharing_of_rename : KeepsSharing (c.rename p) c id where
  inside := fun i h => by rwa [gateCount_rename] at h
  before := fun _ _ before _ => before
  share := fun _ _ _ share => (c.shareQubit_rename p).mp share

theorem levels_rename : (c.rename p).levels = c.levels := by
  refine List.ext_getElem (by simp) ?_
  intro i renamed old
  have inside : i < c.gateCount := by rwa [c.length_levels] at old
  rw [getElem_levels, getElem_levels]
  exact (c.keepsSharing_rename p).levelAt_eq (c.keepsSharing_of_rename p) inside rfl

theorem depth_rename : (c.rename p).depth = c.depth :=
  (c.keepsSharing_rename p).depth_eq (c.keepsSharing_of_rename p)

end Circuit

end CircuitBench
