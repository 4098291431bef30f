import CircuitBench.Dictionary

/-!
# Histograms of measured bitstrings

A histogram counts bitstrings. Counts are 64-bit numbers, and the bitstrings are in
ascending order, so histograms of the same shots are equal in whatever order the shots
were counted.
-/

namespace CircuitBench

/-- Counts by bitstring. -/
abbrev Histogram := Dictionary UInt64

namespace Histogram

def add (h : Histogram) (key : String) (count : UInt64) : Histogram :=
  h.insertWith (· + ·) key count

/-- The histogram of pairs, where the counts of a bitstring add up. -/
def collect (pairs : List (String × UInt64)) : Histogram :=
  pairs.foldr (fun pair h => add h pair.1 pair.2) .empty

/-- The count of a bitstring, zero if it is missing. -/
def count (h : Histogram) (key : String) : UInt64 :=
  (h.get? key).getD 0

def total (h : Histogram) : UInt64 :=
  (h.entries.map (·.2)).foldl (· + ·) 0

/-- The entries by descending count, those of equal count by ascending bitstring. -/
def byCount (h : Histogram) : List (String × UInt64) :=
  h.entries.mergeSort fun a b => b.2 < a.2 || (a.2 = b.2 && decide (a.1 ≤ b.1))

@[simp] theorem count_empty (key : String) : count .empty key = 0 := rfl

/-- Adding occurrences of a bitstring adds to its count and to no other. -/
theorem count_add (h : Histogram) (key : String) (n : UInt64) (other : String) :
    (h.add key n).count other = if other = key then h.count key + n else h.count other := by
  unfold count add
  rw [Dictionary.get?_insertWith]
  split
  · cases h.get? key <;> simp
  · rfl

end Histogram

end CircuitBench
