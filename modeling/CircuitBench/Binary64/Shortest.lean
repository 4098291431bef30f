import CircuitBench.Binary64.Parts

/-!
# Shortest decimal text of a binary64

The digits are the fewest that read back as the same number, and of those the
nearest to it. They are found by exact integer arithmetic: on ever finer decimal
grids, the two grid points around the number are tested against the interval of
reals that round to it. How the digits are laid out is a separate choice, kept in a
`Layout`.
-/

namespace CircuitBench.Binary64

/-- The decimal number `digits · 10 ^ exponent`. -/
structure Decimal where
  digits : Nat
  exponent : Int
deriving DecidableEq, Repr

namespace Decimal

/-- The same number with the fewest digits: trailing zeros move into the exponent. -/
def stripZeros (d : Decimal) : Decimal :=
  if _h : d.digits % 10 = 0 ∧ d.digits ≠ 0 then stripZeros ⟨d.digits / 10, d.exponent + 1⟩ else d
termination_by d.digits
decreasing_by exact Nat.div_lt_self (Nat.pos_of_ne_zero _h.2) (by decide)

end Decimal

/-- The reals that round to a magnitude, as `low / scale` to `high / scale` around
`value / scale`. The ends belong to it exactly if the significand is even. -/
structure RoundingInterval where
  low : Nat
  value : Nat
  high : Nat
  scale : Nat
  closed : Bool

/-- The interval of a number: half a unit on either side, a quarter below a power of two. -/
def Parts.roundingInterval (p : Parts) : RoundingInterval :=
  let unit := 2 ^ (p.exponent - 2).toNat
  { low := (4 * p.significand - (if p.closerBelow then 1 else 2)) * unit
    value := 4 * p.significand * unit
    high := (4 * p.significand + 2) * unit
    scale := 2 ^ (2 - p.exponent).toNat
    closed := p.significand % 2 = 0 }

namespace RoundingInterval

/-- Whether `numerator / denominator` rounds to the number. -/
def contains (i : RoundingInterval) (numerator denominator : Nat) : Bool :=
  let point := numerator * i.scale
  if i.closed then i.low * denominator ≤ point && point ≤ i.high * denominator
  else i.low * denominator < point && point < i.high * denominator

/-- The point of the grid `10 ^ exponent` that rounds to the number and is the nearer of
the two around it, if one of them does. Of two that are equally near the even one counts. -/
def pointOnGrid? (i : RoundingInterval) (exponent : Int) : Option Decimal :=
  let up := 10 ^ exponent.toNat
  let down := 10 ^ (-exponent).toNat
  let below := i.value * down / (i.scale * up)
  let fits (point : Nat) : Bool := i.contains (point * up) down
  let distanceBelow := i.value * down - below * up * i.scale
  let distanceAbove := (below + 1) * up * i.scale - i.value * down
  let preferBelow := distanceBelow < distanceAbove ||
    (distanceBelow = distanceAbove && below % 2 = 0)
  if fits below && (preferBelow || !fits (below + 1)) then some ⟨below, exponent⟩
  else if fits (below + 1) then some ⟨below + 1, exponent⟩
  else none

/-- The first hit on the grids `10 ^ exponent`, `10 ^ (exponent - 1)`, and so on, over at
most `grids` of them. -/
def firstHit (i : RoundingInterval) : (grids : Nat) → (exponent : Int) → Option Decimal
  | 0, _ => none
  | grids + 1, exponent =>
    match i.pointOnGrid? exponent with
    | some d => some d
    | none => i.firstHit grids (exponent - 1)

/-- The exponent of the leading decimal digit of the value. Below one it is the negated
least number of places by which the value must move left to reach one. -/
def leadingExponent (i : RoundingInterval) : Int :=
  if i.scale ≤ i.value then ((Nat.toDigits 10 (i.value / i.scale)).length : Int) - 1
  else -((Nat.toDigits 10 ((i.scale - 1) / i.value)).length : Int)

end RoundingInterval

/-- The shortest decimal number that reads back as the magnitude with the given parts.
Seventeen significant digits always suffice, so the search ends within eighteen grids. -/
def Parts.shortest (p : Parts) : Decimal :=
  if p.significand = 0 then ⟨0, 0⟩
  else
    let i := p.roundingInterval
    ((i.firstHit 18 i.leadingExponent).getD ⟨0, 0⟩).stripZeros

/-- How the digits of a decimal number are laid out. -/
structure Layout where
  /-- Positional notation is used for leading exponents from here … -/
  least : Option Int
  /-- … to here; `none` puts no bound. -/
  greatest : Option Int
  /-- A whole number ends in `.0`. -/
  pointZero : Bool

namespace Layout

/-- Whether a number with this leading exponent is written positionally. -/
def isPositional (layout : Layout) (leading : Int) : Bool :=
  layout.least.all (· ≤ leading) && layout.greatest.all (leading ≤ ·)

/-- Numbers in JSON text: positional from `1e-5` up to below `1e16`, a whole number with
`.0`, any other with an exponent that has neither plus sign nor padding. -/
def json : Layout := ⟨some (-5), some 15, true⟩

/-- Numbers inside a sentence: always positional, a whole number without a point. -/
def plain : Layout := ⟨none, none, false⟩

def render (layout : Layout) (d : Decimal) : String :=
  let digits := Nat.toDigits 10 d.digits
  let leading := (digits.length : Int) + d.exponent - 1
  let zeros (n : Int) := List.replicate n.toNat '0'
  String.ofList <|
    if layout.isPositional leading then
      if 0 ≤ d.exponent then
        digits ++ zeros d.exponent ++ (if layout.pointZero then ['.', '0'] else [])
      else if 0 ≤ leading then
        digits.take (leading + 1).toNat ++ '.' :: digits.drop (leading + 1).toNat
      else
        '0' :: '.' :: zeros (-leading - 1) ++ digits
    else
      digits.take 1 ++ (if digits.length = 1 then [] else '.' :: digits.drop 1) ++
        'e' :: (toString leading).toList

end Layout

/-- The shortest text of a finite number that reads back as it; zero keeps its sign. -/
def text (layout : Layout) (x : Float) : String :=
  let p := parts x
  (if p.negative then "-" else "") ++ layout.render p.shortest

end CircuitBench.Binary64
