import CircuitBench.Circuit.Basic
import CircuitBench.Power
import CircuitBench.State.Amplitude

/-!
# State vectors

The state of `n` qubits has one amplitude for each of `2 ^ n` outcomes; bit `k` of an
index is the value of qubit `k`. A gate is applied in place, by one of two sweeps over
all indices. The first takes the two indices that differ in the target bit, at the
lower one of them, and replaces both amplitudes by functions of the two. The second
changes the amplitudes whose target bit is set, each on its own.

An operation is applied only together with a proof that it fits, so no index that is
read or written can be out of range.
-/

namespace CircuitBench

/-- The amplitudes of `n` qubits. -/
abbrev Statevector (R : Type) (n : Nat) := Vector (Amplitude R) (2 ^ n)

namespace Statevector

variable {R : Type} {n : Nat}

theorem partner_lt {n q : Nat} (hq : q < n) (i : Fin (2 ^ n)) : i.val ^^^ 2 ^ q < 2 ^ n :=
  Nat.xor_lt_two_pow i.isLt (Nat.pow_lt_pow_right (by decide) hq)

/-- The index that differs in bit `q` alone. -/
def partner (q : Nat) (hq : q < n) (i : Fin (2 ^ n)) : Fin (2 ^ n) :=
  ⟨i.val ^^^ 2 ^ q, partner_lt hq i⟩

@[simp] theorem partner_partner (q : Nat) (hq : q < n) (i : Fin (2 ^ n)) :
    partner q hq (partner q hq i) = i := by
  simp only [partner, Nat.xor_assoc, Nat.xor_self, Nat.xor_zero]

@[simp] theorem testBit_partner (q : Nat) (hq : q < n) (i : Fin (2 ^ n)) :
    (partner q hq i).val.testBit q = !i.val.testBit q := by
  simp [partner, Nat.testBit_xor, Nat.testBit_two_pow_self]

@[inline] def mixPair (q : Nat) (hq : q < n) (chosen : Nat → Bool)
    (f : Amplitude R → Amplitude R → Amplitude R × Amplitude R) (v : Statevector R n)
    (i : Fin (2 ^ n)) : Statevector R n :=
  if !i.val.testBit q && chosen i.val then
    let j := partner q hq i
    let mixed := f v[i] v[j]
    (v.set i mixed.1).set j mixed.2
  else v

/-- Replaces the amplitudes of every pair of indices that differ in bit `q` alone, where the
lower index is chosen, by the two results of `f` on them. -/
@[specialize] def mixPairs (q : Nat) (hq : q < n) (chosen : Nat → Bool)
    (f : Amplitude R → Amplitude R → Amplitude R × Amplitude R) (v : Statevector R n) :
    Statevector R n :=
  Fin.foldl (2 ^ n) (mixPair q hq chosen f) v

/-- Replaces the amplitude of every index with bit `q` set by its image under `f`. -/
@[specialize] def mapSet (q : Nat) (f : Amplitude R → Amplitude R) (v : Statevector R n) :
    Statevector R n :=
  v.mapFinIdx fun i a _ => if i.testBit q then f a else a

variable [Scalar R]

/-- The state in which every qubit is zero. -/
def initial (R : Type) [Scalar R] (n : Nat) : Statevector R n :=
  (Vector.replicate (2 ^ n) Amplitude.zero).set 0 Amplitude.one (Nat.two_pow_pos n)

/-- Applies a gate to one qubit. -/
@[specialize] def applySingle (gate : SingleGate) (q : Nat) (hq : q < n) (v : Statevector R n) :
    Statevector R n :=
  match gate with
  | .h =>
    v.mixPairs q hq (fun _ => true) fun a b =>
      (.scale Scalar.rootHalf (a.add b), .scale Scalar.rootHalf (a.sub b))
  | .x => v.mixPairs q hq (fun _ => true) fun a b => (b, a)
  | .y =>
    v.mixPairs q hq (fun _ => true) fun a b =>
      (.mul (.neg .unit) b, .mul .unit a)
  | .z => v.mapSet q .neg
  | .s => v.mapSet q fun a => a.mul Scalar.quarterTurn
  | .t => v.mapSet q fun a => a.mul Scalar.eighthTurn

/-- Applies a controlled X: swaps the amplitudes of the pairs whose control bit is set. -/
@[specialize] def applyCnot (control target : Nat) (ht : target < n) (v : Statevector R n) :
    Statevector R n :=
  v.mixPairs target ht (·.testBit control) fun a b => (b, a)

/-- Applies an operation that fits. -/
@[specialize] def apply (op : Operation) (fits : op.Fits n) (v : Statevector R n) :
    Statevector R n :=
  match op, fits with
  | .single gate target, fits => v.applySingle gate target.toNat (Operation.fits_single.1 fits)
  | .cnot control target, fits =>
    v.applyCnot control.toNat target.toNat (Operation.fits_cnot.1 fits).2.1

/-- Applies operations one after the other. -/
@[specialize] def applyAll : (ops : List Operation) → (∀ op ∈ ops, op.Fits n) →
    Statevector R n → Statevector R n
  | [], _, v => v
  | op :: rest, fits, v =>
    applyAll rest (fun o m => fits o (List.mem_cons_of_mem _ m))
      (v.apply op (fits op List.mem_cons_self))

/-- The states from `v` on, before each operation and after the last. -/
def trace : (ops : List Operation) → (∀ op ∈ ops, op.Fits n) → Statevector R n →
    List (Statevector R n)
  | [], _, v => [v]
  | op :: rest, fits, v =>
    v :: trace rest (fun o m => fits o (List.mem_cons_of_mem _ m))
      (v.apply op (fits op List.mem_cons_self))

/-- The probability of every outcome. -/
@[specialize] def probabilities (v : Statevector R n) : Array R :=
  v.toArray.map Amplitude.probability

@[simp] theorem size_probabilities (v : Statevector R n) : v.probabilities.size = 2 ^ n := by
  simp [probabilities]

end Statevector

/-- The state that a circuit makes of all zeros. -/
@[specialize] def Circuit.finalState (R : Type) [Scalar R] (c : Circuit) :
    Statevector R c.width.toNat :=
  (Statevector.initial R c.width.toNat).applyAll c.ops c.fits

def Circuit.states (R : Type) [Scalar R] (c : Circuit) : List (Statevector R c.width.toNat) :=
  (Statevector.initial R c.width.toNat).trace c.ops c.fits

end CircuitBench
