import CircuitBench.Power

/-!
# Decimal numerals

The number that a run of decimal digits denotes, the reading of signed and
unsigned integers from a whole text, and the cap that a fixed width puts on a
value. Digits are the ASCII digits; no separator, blank or exponent is part of a
numeral.
-/

namespace CircuitBench.Text

def decimalValue (digits : List Char) : Nat :=
  Nat.ofDigitChars 10 digits 0

/-- The digits of a number are read back as that number. -/
@[simp] theorem decimalValue_toDigits (n : Nat) : decimalValue (Nat.toDigits 10 n) = n :=
  Nat.ofDigitChars_toDigits (by decide) (by decide)

/-- Whether a text is a numeral: at least one digit and nothing else. -/
def isNumeral (text : List Char) : Bool :=
  !text.isEmpty && text.all Char.isDigit

/-- A value capped at the largest one that `bits` bits hold. -/
def saturate (bits value : Nat) : Nat :=
  min value (2 ^ bits - 1)

theorem saturate_of_lt {bits value : Nat} (h : value < 2 ^ bits) : saturate bits value = value := by
  unfold saturate
  omega

/-- Reads an unsigned integer below `2 ^ bits`. A single plus sign may stand in front;
a larger number is refused and not capped. -/
def readUnsigned? (bits : Nat) (text : List Char) : Option Nat :=
  let digits := match text with
    | '+' :: rest => rest
    | _ => text
  if isNumeral digits && decimalValue digits < 2 ^ bits then some (decimalValue digits) else none

/-- Reads a signed integer that a two's complement word of `bits` bits holds. One sign may
stand in front, and a minus sign may stand in front of a zero. -/
def readSigned? (bits : Nat) (text : List Char) : Option Int :=
  let (negative, digits) := match text with
    | '-' :: rest => (true, rest)
    | '+' :: rest => (false, rest)
    | _ => (false, text)
  let value : Int := if negative then -(decimalValue digits : Int) else decimalValue digits
  if isNumeral digits && -(2 ^ (bits - 1) : Int) ≤ value && value < (2 ^ (bits - 1) : Int) then
    some value
  else none

end CircuitBench.Text
