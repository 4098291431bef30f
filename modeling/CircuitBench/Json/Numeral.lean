import CircuitBench.Json.Basic
import CircuitBench.Text.Numeral

/-!
# Numbers in JSON text

An integer numeral in the range of the 64-bit integers is an integer, signed or
unsigned; minus zero and every other numeral is a binary64. That is computed as a
64-bit significand that is scaled by powers of ten, in at most a few roundings: the
digits that no longer fit into the significand are dropped.
-/

namespace CircuitBench.Json

/-- The parts of a number as written. -/
structure Numeral where
  negative : Bool
  whole : List Char
  /-- The digits behind the point, if there is a point. -/
  fraction : Option (List Char)
  /-- Whether the exponent is negative, and its digits. -/
  exponent : Option (Bool × List Char)

namespace Numeral

/-- Appends digits to a significand as long as it stays below `2 ^ 64`. The second
component is the number of digits that are left out. -/
def absorb (significand : Nat) : List Char → Nat × Nat
  | [] => (significand, 0)
  | c :: rest =>
    let next := significand * 10 + (c.toNat - '0'.toNat)
    if next < 2 ^ 64 then absorb next rest else (significand, rest.length + 1)

def powerOfTen (places : Nat) : Float :=
  Float.ofScientific 1 false places

/-- The number scaled by a power of ten, or nothing beyond the largest finite number. A
magnitude that needs a power below `10 ^ -308` is divided in several steps, so that it
may still end as a subnormal number or zero. -/
def scale (x : Float) (exponent : Int) : Option Float :=
  if exponent.natAbs ≤ 308 then
    if 0 ≤ exponent then
      let scaled := x * powerOfTen exponent.natAbs
      if scaled.isInf then none else some scaled
    else some (x / powerOfTen exponent.natAbs)
  else if x == 0.0 then some x
  else if 0 ≤ exponent then none
  else scale (x / powerOfTen 308) (exponent + 308)
termination_by exponent.natAbs

/-- The binary64 that a numeral denotes, if it is in range. -/
def toFloat? (n : Numeral) : Option Float :=
  let (wholePart, dropped) := absorb 0 n.whole
  let digits := n.fraction.getD []
  let (significand, ignored) := absorb wholePart digits
  let power : Int := match n.exponent with
    | some (negative, digits) =>
      if negative then -(Text.decimalValue digits : Int) else Text.decimalValue digits
    | none => 0
  let exponent := (dropped : Int) - ((digits.length - ignored : Nat) : Int) + power
  (scale significand.toUInt64.toFloat exponent).map fun x => if n.negative then -x else x

def toJson (n : Numeral) : Json :=
  let value := Text.decimalValue n.whole
  let asInteger : Option Int :=
    if n.fraction.isSome || n.exponent.isSome then none
    else if n.negative then if 0 < value && value ≤ 2 ^ 63 then some (-value) else none
    else if value < 2 ^ 64 then some value
    else none
  match asInteger with
  | some n => .int n
  | none =>
    match n.toFloat? with
    | some x => .float x
    | none => .unrepresentable

end Numeral

end CircuitBench.Json
