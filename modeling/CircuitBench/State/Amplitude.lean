/-!
# Amplitudes

An amplitude is a pair of a real and an imaginary part. The parts come from any type with
the arithmetic that gates need; nothing is assumed about that arithmetic, so everything
defined over it can be run with binary64 numbers and studied over a ring.
-/

namespace CircuitBench

/-- A complex number by its parts. -/
structure Amplitude (R : Type) where
  re : R
  im : R
deriving DecidableEq, Repr

/-- The arithmetic of the parts of amplitudes, and the constants of the gates. -/
class Scalar (R : Type) extends Zero R, One R, Add R, Sub R, Neg R, Mul R where
  /-- The factor of the Hadamard gate, one over the root of two. -/
  rootHalf : R
  /-- The factor of the gate `S`, a quarter of a turn. -/
  quarterTurn : Amplitude R
  /-- The factor of the gate `T`, an eighth of a turn. -/
  eighthTurn : Amplitude R

namespace Amplitude

variable {R : Type} [Scalar R]

/-- The amplitude of an impossible outcome. -/
def zero : Amplitude R := ⟨0, 0⟩

/-- The amplitude of a certain outcome. -/
def one : Amplitude R := ⟨1, 0⟩

def unit : Amplitude R := ⟨0, 1⟩

@[inline] def add (a b : Amplitude R) : Amplitude R := ⟨a.re + b.re, a.im + b.im⟩

@[inline] def sub (a b : Amplitude R) : Amplitude R := ⟨a.re - b.re, a.im - b.im⟩

@[inline] def neg (a : Amplitude R) : Amplitude R := ⟨-a.re, -a.im⟩

/-- The complex product, as four products of parts. -/
@[inline] def mul (a b : Amplitude R) : Amplitude R :=
  ⟨a.re * b.re - a.im * b.im, a.re * b.im + a.im * b.re⟩

@[inline] def scale (r : R) (a : Amplitude R) : Amplitude R := ⟨r * a.re, r * a.im⟩

/-- The probability that belongs to an amplitude, its squared magnitude. -/
@[inline] def probability (a : Amplitude R) : R := a.re * a.re + a.im * a.im

end Amplitude

/-- Binary64 arithmetic. The turns are the binary64 cosine and sine of the binary64 numbers
nearest to a half and a quarter of π, so the real part of a quarter turn is not quite zero. -/
instance : Scalar Float where
  zero := 0.0
  one := 1.0
  rootHalf := Float.ofBits 0x3fe6a09e667f3bcd
  quarterTurn := ⟨Float.ofBits 0x3c91a62633145c07, Float.ofBits 0x3ff0000000000000⟩
  eighthTurn := ⟨Float.ofBits 0x3fe6a09e667f3bcd, Float.ofBits 0x3fe6a09e667f3bcc⟩

end CircuitBench
