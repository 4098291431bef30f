import CircuitBench.Power
import CircuitBench.Sampling.Tally
import Mathlib

/-!
# The characters of a bitstring

The bitstring of an outcome of `n` qubits has `n` characters, and qubit `k` is the character `k`
from the right. The last character is the lowest bit, and those in front of it are the bitstring of
the other bits, which is how all of them are found.
-/

namespace CircuitBench.Sampling

theorem toList_bitstring (outcome width : Nat) :
    (bitstring outcome width).toList =
      List.replicate (width - (Nat.toDigits 2 outcome).length) '0' ++ Nat.toDigits 2 outcome := by
  rw [bitstring, String.toList_ofList]

/-- The bitstring of one qubit more has one character more at its end. -/
theorem toList_bitstring_succ {width : Nat} (pos : 0 < width) (outcome : Nat) :
    (bitstring outcome (width + 1)).toList =
      (bitstring (outcome / 2) width).toList ++ [(outcome % 2).digitChar] := by
  rw [toList_bitstring, toList_bitstring]
  rcases Nat.lt_or_ge outcome 2 with small | large
  · rw [Nat.toDigits_of_lt_base small, Nat.div_eq_of_lt small, Nat.mod_eq_of_lt small,
      Nat.toDigits_of_lt_base (by decide), List.length_singleton, List.length_singleton,
      Nat.add_sub_cancel]
    obtain ⟨w, rfl⟩ := Nat.exists_eq_add_of_lt pos
    simp [List.replicate_succ']
  · rw [Nat.toDigits_of_base_le (by decide) large, List.length_append, List.length_singleton,
      Nat.add_sub_add_right, List.append_assoc]

theorem digitChar_mod_two (outcome : Nat) :
    (outcome % 2).digitChar = if outcome.testBit 0 then '1' else '0' := by
  rw [Nat.testBit_zero]
  rcases Nat.mod_two_eq_zero_or_one outcome with even | odd
  · rw [even]
    rfl
  · rw [odd]
    rfl

/-- From right to left the characters are the bits, and there are no more of them. -/
theorem reverse_bitstring {width outcome : Nat} (pos : 0 < width) (inside : outcome < 2 ^ width) :
    (bitstring outcome width).toList.reverse =
      (List.range width).map fun k => if outcome.testBit k then '1' else '0' := by
  induction width, pos using Nat.le_induction generalizing outcome with
  | base =>
    have small : outcome < 2 := inside
    have digit := digitChar_mod_two outcome
    rw [Nat.mod_eq_of_lt small] at digit
    rw [toList_bitstring, Nat.toDigits_of_lt_base small, digit]
    rfl
  | succ width pos ih =>
    have half : outcome / 2 < 2 ^ width := by
      rw [Nat.pow_succ] at inside
      omega
    rw [toList_bitstring_succ pos, List.reverse_append, ih half, List.range_succ_eq_map,
      digitChar_mod_two]
    simp [Nat.testBit_succ, Function.comp_def]

theorem length_bitstring {width outcome : Nat} (pos : 0 < width) (inside : outcome < 2 ^ width) :
    (bitstring outcome width).length = width := by
  rw [← String.length_toList, ← List.length_reverse, reverse_bitstring pos inside, List.length_map,
    List.length_range]

/-- The character `k` from the right is qubit `k`. -/
theorem getElem?_reverse_bitstring {width outcome : Nat} (inside : outcome < 2 ^ width) {k : Nat}
    (h : k < width) :
    (bitstring outcome width).toList.reverse[k]? =
      some (if outcome.testBit k then '1' else '0') := by
  rw [reverse_bitstring (Nat.zero_lt_of_lt h) inside]
  simp [h]

end CircuitBench.Sampling
