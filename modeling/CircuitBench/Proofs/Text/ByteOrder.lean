import Mathlib.Tactic.SplitIfs

/-!
# The order of texts by their bytes

Texts are ordered by the code points of their characters. In UTF-8 the greater of two characters
has the greater byte where their bytes first differ, and the bytes of no character begin with those
of another. So the bytes of two texts are in the order of the texts.
-/

namespace CircuitBench.Text

def bytes (text : String) : List UInt8 :=
  text.toUTF8.data.toList

theorem bytes_eq_flatMap (text : String) :
    bytes text = text.toList.flatMap String.utf8EncodeChar := by
  rw [bytes, String.toUTF8_eq_toByteArray, ← String.utf8Encode_toList, List.utf8Encode,
    List.toList_data_toByteArray]

/-- Of two numbers the greater one has the greater quotient, or the same one and the greater
remainder. -/
theorem div_lt_or_mod_lt {v w : Nat} (less : v < w) :
    v / 64 < w / 64 ∨ v / 64 = w / 64 ∧ v % 64 < w % 64 := by
  omega

/-- The bytes of the greater character are greater, whatever follows them. -/
theorem utf8EncodeChar_append_lt {c d : Char} (less : c < d) (rest rest' : List UInt8) :
    String.utf8EncodeChar c ++ rest < String.utf8EncodeChar d ++ rest' := by
  have order : c.val.toNat < d.val.toNat := less
  have last : d.val.toNat < 0x110000 := by
    rcases d.valid with low | ⟨-, high⟩
    · exact Nat.lt_trans low (by decide)
    · exact high
  simp only [String.utf8EncodeChar]
  generalize c.val.toNat = v at order ⊢
  generalize d.val.toNat = w at order last ⊢
  have units := div_lt_or_mod_lt order
  have sixties : v / 64 < w / 64 → _ := div_lt_or_mod_lt
  have hundreds : v / 64 / 64 < w / 64 / 64 → _ := div_lt_or_mod_lt
  simp only [Nat.div_div_eq_div_mul, Nat.reduceMul] at units sixties hundreds
  -- The lengths can only grow with the character, and a longer sequence has a greater first byte.
  split_ifs <;>
    simp only [List.cons_append, List.nil_append, List.cons_lt_cons_iff,
      UInt8.lt_iff_toNat_lt, ← UInt8.toNat_inj, UInt8.toNat_ofNat', Nat.reducePow] <;>
    simp (disch := omega) only [Nat.mod_eq_of_lt] <;>
    omega

theorem flatMap_utf8EncodeChar_lt {text other : List Char} (less : text < other) :
    text.flatMap String.utf8EncodeChar < other.flatMap String.utf8EncodeChar := by
  induction text generalizing other with
  | nil =>
    cases other with
    | nil => exact absurd less (List.lt_irrefl _)
    | cons d other =>
      have some_byte : String.utf8EncodeChar d ≠ [] := String.utf8EncodeChar_ne_nil
      obtain ⟨first, rest, bytes⟩ := List.exists_cons_of_ne_nil some_byte
      rw [List.flatMap_cons, bytes]
      exact List.nil_lt_cons _ _
  | cons c text ih =>
    cases other with
    | nil => exact absurd less (List.not_lt_nil _)
    | cons d other =>
      rw [List.flatMap_cons, List.flatMap_cons]
      rcases List.cons_lt_cons_iff.mp less with before | ⟨rfl, behind⟩
      · exact utf8EncodeChar_append_lt before _ _
      · exact List.append_left_lt (ih behind)

/-- The order of texts is that of their bytes. -/
theorem bytes_lt_bytes_iff {text other : String} : bytes text < bytes other ↔ text < other := by
  have keeps : ∀ {a b : String}, a < b → bytes a < bytes b := by
    intro a b less
    rw [bytes_eq_flatMap, bytes_eq_flatMap]
    exact flatMap_utf8EncodeChar_lt less
  refine ⟨fun less => ?_, keeps⟩
  rcases Classical.em (text < other) with here | notLess
  · exact here
  · rcases Classical.em (other < text) with greater | notGreater
    · exact absurd (keeps greater) (List.lt_asymm less)
    · have same := String.le_antisymm (String.not_lt.mp notGreater) (String.not_lt.mp notLess)
      exact absurd (same ▸ less) (List.lt_irrefl _)

theorem bytes_le_bytes_iff {text other : String} : bytes text ≤ bytes other ↔ text ≤ other :=
  not_congr bytes_lt_bytes_iff

end CircuitBench.Text
