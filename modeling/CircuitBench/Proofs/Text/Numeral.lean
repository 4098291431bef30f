import CircuitBench.Text.Numeral

/-!
# Runs of characters and printed numbers

Where a run of characters of one class is followed by a character outside of it, the run
can be cut off again. In particular a printed number in front of anything but a digit
determines both the number and what follows.
-/

namespace CircuitBench.Text

/-- What holds of the first character holds of whatever a text begins with. -/
theorem head?_cons {P : Char → Prop} {c : Char} (h : P c) (rest : List Char) :
    ∀ d ∈ (c :: rest).head?, P d := by
  intro d head
  obtain rfl : c = d := by simpa using head
  exact h

/-- A run of characters of a class ends where the next character is not of that class. -/
theorem span_append {p : Char → Bool} {run rest : List Char} (inside : ∀ c ∈ run, p c)
    (outside : ∀ c ∈ rest.head?, p c = false) :
    (run ++ rest).takeWhile p = run ∧ (run ++ rest).dropWhile p = rest := by
  rw [List.takeWhile_append_of_pos inside, List.dropWhile_append_of_pos inside]
  cases rest with
  | nil => simp
  | cons c rest => simp [outside c (by simp)]

/-- Two texts that begin with maximal runs of a class agree run by run. -/
theorem run_append_inj {p : Char → Bool} {run run' rest rest' : List Char}
    (inside : ∀ c ∈ run, p c) (inside' : ∀ c ∈ run', p c)
    (outside : ∀ c ∈ rest.head?, p c = false) (outside' : ∀ c ∈ rest'.head?, p c = false)
    (h : run ++ rest = run' ++ rest') : run = run' ∧ rest = rest' := by
  obtain ⟨taken, left⟩ := span_append inside outside
  obtain ⟨taken', left'⟩ := span_append inside' outside'
  rw [h] at taken left
  exact ⟨taken.symm.trans taken', left.symm.trans left'⟩

theorem isDigit_of_mem_toDigits {n : Nat} {c : Char} (h : c ∈ Nat.toDigits 10 n) : c.isDigit :=
  Nat.isDigit_of_mem_toDigits (by decide) (by decide) h

theorem toDigits_injective {m n : Nat} (h : Nat.toDigits 10 m = Nat.toDigits 10 n) : m = n := by
  rw [← decimalValue_toDigits m, h, decimalValue_toDigits]

/-- Printed numbers that no digit follows can be told apart from what follows. -/
theorem toDigits_append_inj {m n : Nat} {rest rest' : List Char}
    (outside : ∀ c ∈ rest.head?, c.isDigit = false)
    (outside' : ∀ c ∈ rest'.head?, c.isDigit = false)
    (h : Nat.toDigits 10 m ++ rest = Nat.toDigits 10 n ++ rest') : m = n ∧ rest = rest' := by
  obtain ⟨digits, behind⟩ := run_append_inj (fun _ => isDigit_of_mem_toDigits)
    (fun _ => isDigit_of_mem_toDigits) outside outside' h
  exact ⟨toDigits_injective digits, behind⟩

end CircuitBench.Text
