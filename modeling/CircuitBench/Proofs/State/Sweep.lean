import CircuitBench.State.Vector
import Mathlib

/-!
# What sweeps leave at an index

A sweep over pairs works in place: it replaces both amplitudes of a pair while others
have still to be read. No amplitude is read after it has been written, though, so what a
sweep leaves at an index is a function of the state before it.
-/

namespace CircuitBench.Statevector

variable {R : Type} {n : Nat} (q : Nat) (hq : q < n) (chosen : Nat → Bool)
  (f : Amplitude R → Amplitude R → Amplitude R × Amplitude R)

theorem get_mixPair (v : Statevector R n) (i k : Fin (2 ^ n)) :
    (mixPair q hq chosen f v i).get k =
      if i.val.testBit q = false ∧ chosen i.val = true then
        if k = partner q hq i then (f (v.get i) (v.get (partner q hq i))).2
        else if k = i then (f (v.get i) (v.get (partner q hq i))).1
        else v.get k
      else v.get k := by
  unfold mixPair
  by_cases hi : i.val.testBit q = false
  · by_cases hc : chosen i.val = true
    · simp only [hi, hc, Bool.not_false, Bool.and_self, if_true, and_self, Fin.getElem_fin,
        Vector.get_eq_getElem, Vector.getElem_set, Fin.ext_iff]
      grind
    · simp [hc]
  · simp [hi]

/-- A sweep over different indices reads each pair before it is written. -/
theorem get_foldl_mixPair (is : List (Fin (2 ^ n))) (nodup : is.Nodup) (v : Statevector R n)
    (k : Fin (2 ^ n)) :
    (is.foldl (mixPair q hq chosen f) v).get k =
      if k.val.testBit q = false then
        if k ∈ is ∧ chosen k.val = true then (f (v.get k) (v.get (partner q hq k))).1
        else v.get k
      else if partner q hq k ∈ is ∧ chosen (partner q hq k).val = true then
        (f (v.get (partner q hq k)) (v.get k)).2
      else v.get k := by
  induction is generalizing v with
  | nil => simp
  | cons i is ih =>
    obtain ⟨fresh, nodup⟩ := List.nodup_cons.1 nodup
    have back := partner_partner q hq
    have bit := testBit_partner q hq
    rw [List.foldl_cons, ih nodup, get_mixPair, get_mixPair]
    simp only [List.mem_cons]
    grind

/-- Every amplitude of a sweep in place depends on the old amplitudes of its own pair alone. -/
theorem get_mixPairs (v : Statevector R n) (k : Fin (2 ^ n)) :
    (v.mixPairs q hq chosen f).get k =
      if k.val.testBit q = false then
        if chosen k.val = true then (f (v.get k) (v.get (partner q hq k))).1 else v.get k
      else if chosen (partner q hq k).val = true then
        (f (v.get (partner q hq k)) (v.get k)).2
      else v.get k := by
  rw [mixPairs, Fin.foldl_eq_finRange_foldl,
    get_foldl_mixPair _ _ _ _ _ (List.nodup_finRange _)]
  simp [List.mem_finRange]

theorem get_mapSet (g : Amplitude R → Amplitude R) (v : Statevector R n) (k : Fin (2 ^ n)) :
    (v.mapSet q g).get k = if k.val.testBit q then g (v.get k) else v.get k := by
  simp [mapSet, Vector.get_eq_getElem]

theorem testBit_partner_of_ne {other : Nat} (apart : q ≠ other) (k : Fin (2 ^ n)) :
    (partner q hq k).val.testBit other = k.val.testBit other := by
  simp [partner, Nat.testBit_xor, apart]

/-- A sweep that swaps leaves the amplitude of the partner where the pair is chosen. -/
theorem get_swapPairs (v : Statevector R n) (k : Fin (2 ^ n))
    (both : chosen (partner q hq k).val = chosen k.val) :
    (v.mixPairs q hq chosen fun a b => (b, a)).get k =
      if chosen k.val then v.get (partner q hq k) else v.get k := by
  rw [get_mixPairs, both]
  split <;> rfl

/-- A controlled X leaves the amplitude of the partner where the control bit is set, which it is
at both indices of a pair or at neither. -/
theorem get_applyCnot {control target : Nat} (ht : target < n) (apart : control ≠ target)
    (v : Statevector R n) (k : Fin (2 ^ n)) :
    (v.applyCnot control target ht).get k =
      if k.val.testBit control then v.get (partner target ht k) else v.get k :=
  get_swapPairs target ht (·.testBit control) v k (testBit_partner_of_ne target ht apart.symm k)

variable [Scalar R]

theorem get_initial (k : Fin (2 ^ n)) :
    (initial R n).get k = if k.val = 0 then Amplitude.one else Amplitude.zero := by
  simp only [initial, Vector.get_eq_getElem, Vector.getElem_set, Vector.getElem_replicate, eq_comm]

theorem get_applySingle_x (v : Statevector R n) (k : Fin (2 ^ n)) :
    (v.applySingle .x q hq).get k = v.get (partner q hq k) :=
  get_swapPairs q hq (fun _ => true) v k rfl

theorem get_applySingle_y (v : Statevector R n) (k : Fin (2 ^ n)) :
    (v.applySingle .y q hq).get k =
      if k.val.testBit q = false then .mul (.neg .unit) (v.get (partner q hq k))
      else .mul .unit (v.get (partner q hq k)) :=
  get_mixPairs q hq (fun _ => true) _ v k

end CircuitBench.Statevector
