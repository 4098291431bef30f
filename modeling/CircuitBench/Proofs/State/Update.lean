import Mathlib
import CircuitBench.Proofs.State.Commutation

/-!
# What an operation makes of the old state

An operation works in place, on one array of amplitudes. What it leaves at an index is given here as
a function of two amplitudes of the state before it, the one at the index and the one at the index
with the target bit flipped, whatever the arithmetic.

The loops are also written down as they run on an array of any size: with indices that are made of
bit masks and carry no proofs, and with every read and write checked. On the array of a state the
checks never fail, and the loops leave the array of the state that the operation makes.
-/

namespace CircuitBench

section Loops

variable {α : Type}

def write? (entries : Array α) (i : Nat) (entry : α) : Option (Array α) :=
  if h : i < entries.size then some (entries.set i entry) else none

/-- One step for each index of an array in turn. -/
def loop? (step : Array α → Nat → Option (Array α)) (entries : Array α) : Option (Array α) :=
  (List.range entries.size).foldlM step entries

/-- Where the bit of the mask is clear, and the index is chosen, rewrites the entry together with
the one at the index with the bit set. -/
def mixPair? (mask : Nat) (chosen : Nat → Bool) (f : α → α → α × α) (entries : Array α) (i : Nat) :
    Option (Array α) :=
  if i &&& mask = 0 ∧ chosen i = true then do
    let mixed := f (← entries[i]?) (← entries[i ||| mask]?)
    write? (← write? entries i mixed.1) (i ||| mask) mixed.2
  else some entries

/-- Where the bit of the mask is set, rewrites the entry on its own. -/
def changeSet? (mask : Nat) (g : α → α) (entries : Array α) (i : Nat) : Option (Array α) :=
  if i &&& mask = 0 then some entries else do write? entries i (g (← entries[i]?))

end Loops

namespace Operation

variable {R : Type} [Scalar R]

def applyChecked? : Operation → Array (Amplitude R) → Option (Array (Amplitude R))
  | single .h target =>
    loop? (mixPair? (2 ^ target.toNat) (fun _ => true) fun a b =>
      (.scale Scalar.rootHalf (a.add b), .scale Scalar.rootHalf (a.sub b)))
  | single .x target => loop? (mixPair? (2 ^ target.toNat) (fun _ => true) fun a b => (b, a))
  | single .y target =>
    loop? (mixPair? (2 ^ target.toNat) (fun _ => true) fun a b =>
      (.mul (.neg .unit) b, .mul .unit a))
  | single .z target => loop? (changeSet? (2 ^ target.toNat) .neg)
  | single .s target => loop? (changeSet? (2 ^ target.toNat) fun a => a.mul Scalar.quarterTurn)
  | single .t target => loop? (changeSet? (2 ^ target.toNat) fun a => a.mul Scalar.eighthTurn)
  | cnot control target =>
    loop? (mixPair? (2 ^ target.toNat) (fun i => i &&& 2 ^ control.toNat ≠ 0) fun a b => (b, a))

/-- What an operation puts at an index in the place of the amplitude `here`, if the amplitude at the
index with the target bit flipped is `there`. -/
def update (i : Nat) (here there : Amplitude R) : Operation → Amplitude R
  | single .h target =>
    .scale Scalar.rootHalf (if i.testBit target.toNat then there.sub here else here.add there)
  | single .x _ => there
  | single .y target => .mul (if i.testBit target.toNat then .unit else .neg .unit) there
  | single .z target => if i.testBit target.toNat then here.neg else here
  | single .s target => if i.testBit target.toNat then here.mul Scalar.quarterTurn else here
  | single .t target => if i.testBit target.toNat then here.mul Scalar.eighthTurn else here
  | cnot control _ => if i.testBit control.toNat then there else here

end Operation

namespace Statevector

section Masks

theorem and_two_pow_eq_zero_iff {i q : Nat} : i &&& 2 ^ q = 0 ↔ i.testBit q = false := by
  rw [Nat.and_two_pow]
  cases i.testBit q <;> simp

theorem or_two_pow_of_clear {i q : Nat} (clear : i.testBit q = false) :
    i ||| 2 ^ q = i ^^^ 2 ^ q := by
  refine Nat.eq_of_testBit_eq fun k => ?_
  by_cases same : q = k
  · subst same
    simp [clear]
  · simp [Nat.testBit_two_pow_of_ne same]

end Masks

section Loops

variable {α : Type} {m : Nat}

/-- A loop whose steps succeed on vectors goes through all of them. -/
theorem loop?_toArray {step : Array α → Nat → Option (Array α)}
    {next : Vector α m → Fin m → Vector α m}
    (same : ∀ v i, step v.toArray i.val = some (next v i).toArray) (v : Vector α m) :
    loop? step v.toArray = some ((List.finRange m).foldl next v).toArray := by
  have through : ∀ (is : List (Fin m)) (v : Vector α m),
      (is.map Fin.val).foldlM step v.toArray = some (is.foldl next v).toArray := by
    intro is
    induction is with
    | nil => exact fun v => rfl
    | cons i is ih =>
      intro v
      rw [List.map_cons, List.foldlM_cons, same]
      exact ih (next v i)
  rw [loop?, Vector.size_toArray, ← List.map_coe_finRange_eq_range]
  exact through _ v

theorem write?_toArray (v : Vector α m) (i : Fin m) (entry : α) :
    write? v.toArray i.val entry = some (v.set i entry).toArray := by
  rw [write?, dif_pos (by simp)]
  rfl

theorem getElem?_toArray (v : Vector α m) (i : Fin m) : v.toArray[i.val]? = some (v.get i) := by
  simp [Vector.get_eq_getElem]

end Loops

section Steps

variable {R : Type} {n : Nat}

def changeSet (q : Nat) (g : Amplitude R → Amplitude R) (v : Statevector R n) (i : Fin (2 ^ n)) :
    Statevector R n :=
  if i.val.testBit q then v.set i (g (v.get i)) else v

variable {q : Nat} (hq : q < n) (v : Statevector R n)

theorem mixPair?_toArray (chosen : Nat → Bool)
    (f : Amplitude R → Amplitude R → Amplitude R × Amplitude R) (i : Fin (2 ^ n)) :
    mixPair? (2 ^ q) chosen f v.toArray i.val = some (mixPair q hq chosen f v i).toArray := by
  simp only [mixPair?, mixPair, and_two_pow_eq_zero_iff]
  cases clear : i.val.testBit q with
  | true => simp
  | false =>
    have there : i.val ||| 2 ^ q = (partner q hq i).val := or_two_pow_of_clear clear
    cases taken : chosen i.val with
    | false => simp
    | true =>
      rw [if_pos ⟨rfl, rfl⟩, there, getElem?_toArray, getElem?_toArray]
      simp only [Option.bind_eq_bind, Option.bind_some, write?_toArray]
      rfl

theorem loop?_mixPair? (chosen : Nat → Bool)
    (f : Amplitude R → Amplitude R → Amplitude R × Amplitude R) :
    loop? (mixPair? (2 ^ q) chosen f) v.toArray = some (v.mixPairs q hq chosen f).toArray := by
  rw [loop?_toArray fun w i => mixPair?_toArray hq w chosen f i, mixPairs,
    Fin.foldl_eq_finRange_foldl]

theorem get_changeSet (g : Amplitude R → Amplitude R) (i k : Fin (2 ^ n)) :
    (changeSet q g v i).get k =
      if k = i ∧ k.val.testBit q = true then g (v.get k) else v.get k := by
  rw [changeSet]
  by_cases same : k = i
  · subst same
    split <;> simp_all [Vector.get_eq_getElem]
  · have apart : i.val ≠ k.val := fun h => same (Fin.ext h.symm)
    split <;> simp [Vector.get_eq_getElem, same, apart]

theorem get_foldl_changeSet (g : Amplitude R → Amplitude R) {is : List (Fin (2 ^ n))}
    (nodup : is.Nodup) (k : Fin (2 ^ n)) :
    (is.foldl (changeSet q g) v).get k =
      if k ∈ is ∧ k.val.testBit q = true then g (v.get k) else v.get k := by
  induction is generalizing v with
  | nil => simp
  | cons i is ih =>
    obtain ⟨fresh, nodup⟩ := List.nodup_cons.mp nodup
    rw [List.foldl_cons, ih _ nodup, get_changeSet]
    by_cases same : k = i
    · subst same
      simp [fresh]
    · simp [same]

theorem foldl_changeSet (g : Amplitude R → Amplitude R) :
    (List.finRange (2 ^ n)).foldl (changeSet q g) v = v.mapSet q g := by
  apply ext_get
  intro k
  rw [get_foldl_changeSet v g (List.nodup_finRange _), get_mapSet]
  simp [List.mem_finRange]

theorem loop?_changeSet? (g : Amplitude R → Amplitude R) :
    loop? (changeSet? (2 ^ q) g) v.toArray = some (v.mapSet q g).toArray := by
  have step : ∀ (v : Statevector R n) (i : Fin (2 ^ n)),
      changeSet? (2 ^ q) g v.toArray i.val = some (changeSet q g v i).toArray := by
    intro v i
    simp only [changeSet?, changeSet, and_two_pow_eq_zero_iff]
    cases set : i.val.testBit q with
    | false => rfl
    | true =>
      rw [if_neg (by simp), getElem?_toArray]
      exact write?_toArray v i _
  rw [loop?_toArray step, foldl_changeSet]

end Steps

variable {R : Type} [Scalar R] {n : Nat} {op : Operation} (fits : op.Fits n) (v : Statevector R n)

/-- On the array of a state the checked loops leave the array of the state that the operation makes,
for every operation that fits. -/
theorem applyChecked?_toArray : op.applyChecked? v.toArray = some (v.apply op fits).toArray := by
  cases op with
  | single gate target =>
    have inside := Operation.fits_single.mp fits
    cases gate with
    | h => exact loop?_mixPair? inside v _ _
    | x => exact loop?_mixPair? inside v _ _
    | y => exact loop?_mixPair? inside v _ _
    | z => exact loop?_changeSet? v _
    | s => exact loop?_changeSet? v _
    | t => exact loop?_changeSet? v _
  | cnot control target =>
    obtain ⟨-, inside, -⟩ := Operation.fits_cnot.mp fits
    have bits : ∀ i : Nat, decide (i &&& 2 ^ control.toNat ≠ 0) = i.testBit control.toNat := by
      intro i
      rw [Bool.eq_iff_iff, decide_eq_true_iff, ne_eq, and_two_pow_eq_zero_iff,
        Bool.not_eq_false]
    calc
      _ = some (v.mixPairs target.toNat inside
          (fun i => decide (i &&& 2 ^ control.toNat ≠ 0)) fun a b => (b, a)).toArray :=
        loop?_mixPair? inside v _ _
      _ = _ := by
        rw [funext bits]
        rfl

/-- A target outside of the array is noticed. -/
example : ((Operation.single .x 2).applyChecked? (initial Float 2).toArray).isNone := by
  decide +kernel

/-- What an operation leaves at an index comes from the old amplitudes there and at the partner. -/
theorem get_apply_eq_update (i : Fin (2 ^ n)) :
    (v.apply op fits).get i =
      op.update i.val (v.get i) (v.get (partner op.target.toNat (op.target_lt fits) i)) := by
  cases op with
  | single gate target =>
    have inside := Operation.fits_single.mp fits
    change (v.applySingle gate target.toNat inside).get i = _
    cases gate with
    | h =>
      rw [applySingle, get_mixPairs]
      cases bit : i.val.testBit target.toNat <;>
        simp [Operation.update, Operation.target, bit]
    | x => exact get_applySingle_x _ inside v i
    | y =>
      rw [get_applySingle_y]
      cases bit : i.val.testBit target.toNat <;>
        simp [Operation.update, Operation.target, bit]
    | z => exact get_mapSet _ _ v i
    | s => exact get_mapSet _ _ v i
    | t => exact get_mapSet _ _ v i
  | cnot control target =>
    obtain ⟨-, inside, apart⟩ := Operation.fits_cnot.mp fits
    have differ : control.toNat ≠ target.toNat := fun same => apart (UInt32.toNat_inj.mp same)
    exact get_applyCnot inside differ v i

end Statevector

/-- Whatever the arithmetic on amplitudes, an operation on `n` qubits leaves at every index what it
makes of the old amplitudes at the index and at the index with the target bit flipped, which is
below `2 ^ n`. As loops over an array with every index checked, it gives the same `2 ^ n`
amplitudes, and no check fails. -/
theorem operations_rewrite_old_amplitudes {R : Type} [Scalar R] {n : Nat} {op : Operation}
    (fits : op.Fits n) (v : Statevector R n) :
    (∀ i : Fin (2 ^ n), ∃ inside : i.val ^^^ 2 ^ op.target.toNat < 2 ^ n,
      (v.apply op fits).get i =
        op.update i.val (v.get i) (v.get ⟨i.val ^^^ 2 ^ op.target.toNat, inside⟩)) ∧
    op.applyChecked? v.toArray = some (v.apply op fits).toArray ∧
    (v.apply op fits).toArray.size = 2 ^ n := by
  refine ⟨fun i => ?_, Statevector.applyChecked?_toArray fits v, Vector.size_toArray _⟩
  exact ⟨_, Statevector.get_apply_eq_update fits v i⟩

/-- A controlled flip from the lower of two qubits to the upper one, on a state that is not one of
the basis. -/
theorem operations_rewrite_old_amplitudes_cnot :
    (Operation.cnot 0 1).Fits 2 ∧
    ((phased.finalState ℝ).apply (.cnot 0 1) (by decide)).get ⟨1, by decide⟩ =
      (phased.finalState ℝ).get ⟨3, by decide⟩ ∧
    (Operation.cnot 0 1).applyChecked? (phased.finalState ℝ).toArray =
      some ((phased.finalState ℝ).apply (.cnot 0 1) (by decide)).toArray := by
  have fits : (Operation.cnot 0 1).Fits 2 := by decide
  obtain ⟨indices, checked, -⟩ := operations_rewrite_old_amplitudes fits (phased.finalState ℝ)
  obtain ⟨inside, moved⟩ := indices ⟨1, by decide⟩
  exact ⟨fits, moved, checked⟩

end CircuitBench
