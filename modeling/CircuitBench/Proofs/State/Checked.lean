import CircuitBench.Proofs.State.Update

/-!
# States computed with every step checked

Here the state of a circuit is computed as on a machine. Its size and the masks of qubits are ones
that are shifted up in a word, the qubits of an operation are read from a list, and the amplitudes
stand in an array that is read and written at plain indices. Every shift, read and write is checked.
On fewer qubits than a word has bits no check fails, because the operations of a circuit fit, and
the array in the end is that of the final state.
-/

namespace CircuitBench

/-- One, shifted up in a word of 64 bits; none if it is shifted by as many places as there are. -/
def shift? (places : Nat) : Option Nat :=
  if places < 64 then some (1 <<< places) else none

theorem shift?_of_lt {places : Nat} (h : places < 64) : shift? places = some (2 ^ places) := by
  rw [shift?, if_pos h, Nat.one_shiftLeft]

section Steps

variable {R : Type} [Scalar R]

/-- Applies an operation to an array of any size, with masks that are made of the qubits in its
list; none if a qubit is missing, a shift too wide or an index outside of the array. -/
def Operation.runChecked? (op : Operation) (amplitudes : Array (Amplitude R)) :
    Option (Array (Amplitude R)) :=
  let mask (i : Nat) : Option Nat := do shift? (← op.qubits[i]?).toNat
  match op.gate with
  | .single .h => do
    loop? (mixPair? (← mask 0) (fun _ => true) fun a b =>
      (.scale Scalar.rootHalf (a.add b), .scale Scalar.rootHalf (a.sub b))) amplitudes
  | .single .x => do
    loop? (mixPair? (← mask 0) (fun _ => true) fun a b => (b, a)) amplitudes
  | .single .y => do
    loop? (mixPair? (← mask 0) (fun _ => true) fun a b =>
      (.mul (.neg .unit) b, .mul .unit a)) amplitudes
  | .single .z => do loop? (changeSet? (← mask 0) .neg) amplitudes
  | .single .s => do
    loop? (changeSet? (← mask 0) fun a => a.mul Scalar.quarterTurn) amplitudes
  | .single .t => do
    loop? (changeSet? (← mask 0) fun a => a.mul Scalar.eighthTurn) amplitudes
  | .cnot => do
    let control ← mask 0
    let target ← mask 1
    loop? (mixPair? target (fun i => i &&& control ≠ 0) fun a b => (b, a)) amplitudes

def Statevector.initialChecked? (R : Type) [Scalar R] (width : Nat) :
    Option (Array (Amplitude R)) := do
  write? (Array.replicate (← shift? width) .zero) 0 .one

def Circuit.finalStateChecked? (R : Type) [Scalar R] (c : Circuit) :
    Option (Array (Amplitude R)) := do
  c.ops.foldlM (fun amplitudes op => op.runChecked? amplitudes)
    (← Statevector.initialChecked? R c.width.toNat)

variable {n : Nat}

/-- An operation that fits has its qubits, and their masks fit into a word. -/
theorem Operation.runChecked?_eq {op : Operation} (fits : op.Fits n) (narrow : n ≤ 64)
    (amplitudes : Array (Amplitude R)) :
    op.runChecked? amplitudes = op.applyChecked? amplitudes := by
  have mask : ∀ q ∈ op.qubits, shift? q.toNat = some (2 ^ q.toNat) := fun q member =>
    shift?_of_lt ((fits.1 q member).trans_le narrow)
  cases op with
  | single gate target =>
    have here := mask target (by simp)
    cases gate <;> simp [runChecked?, applyChecked?, here]
  | cnot control target =>
    have first := mask control (by simp)
    have second := mask target (by simp)
    simp [runChecked?, applyChecked?, first, second]

/-- A target behind the last place of a word is noticed, in an array of any size. -/
example : (Operation.single .x 64).runChecked? (#[] : Array (Amplitude Float)) = none := rfl

theorem Statevector.initialChecked?_eq (narrow : n < 64) :
    initialChecked? R n = some (initial R n).toArray := by
  have first : 0 < (Array.replicate (2 ^ n) (Amplitude.zero (R := R))).size := by simp
  rw [initialChecked?, shift?_of_lt narrow, Option.bind_eq_bind, Option.bind_some, write?,
    dif_pos first]
  rfl

/-- Operations that fit take the array of a state to that of the state they make of it. -/
theorem Statevector.foldlM_runChecked? (narrow : n ≤ 64) {ops : List Operation}
    (fits : ∀ op ∈ ops, op.Fits n) (v : Statevector R n) :
    ops.foldlM (fun amplitudes op => op.runChecked? amplitudes) v.toArray =
      some (v.applyAll ops fits).toArray := by
  induction ops generalizing v with
  | nil => rfl
  | cons op rest ih =>
    have here := fits op List.mem_cons_self
    have step : op.runChecked? v.toArray = some (v.apply op here).toArray :=
      (Operation.runChecked?_eq here narrow _).trans (applyChecked?_toArray here v)
    rw [List.foldlM_cons, step]
    exact ih _ (v.apply op here)

/-- On fewer than 64 qubits no check fails. -/
theorem Circuit.finalStateChecked?_eq (c : Circuit) (narrow : c.width.toNat < 64) :
    c.finalStateChecked? R = some (c.finalState R).toArray := by
  rw [finalStateChecked?, Statevector.initialChecked?_eq narrow]
  exact Statevector.foldlM_runChecked? narrow.le c.fits _

end Steps

end CircuitBench
