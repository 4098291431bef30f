import Mathlib
import CircuitBench.Proofs.State.Commutation

/-!
# Taking operations back

Two sweeps over the same bit one after the other are one sweep with both functions, so what undoes
the function of a sweep undoes the sweep. Hadamard gates, flips and controlled flips undo
themselves; a quarter of a turn is undone by three more of them, an eighth by seven. A whole
circuit is taken back operation by operation, the last of them first, and what is left of it is
the state that it began with.
-/

namespace CircuitBench

namespace Operation

/-- The operations that take an operation back. -/
def mirror : Operation → List Operation
  | single .s target => List.replicate 3 (single .s target)
  | single .t target => List.replicate 7 (single .t target)
  | op => [op]

theorem eq_of_mem_mirror {op other : Operation} (member : other ∈ op.mirror) : other = op := by
  unfold mirror at member
  split at member
  · exact List.eq_of_mem_replicate member
  · exact List.eq_of_mem_replicate member
  · exact List.mem_singleton.mp member

theorem Fits.mirror {op : Operation} {n : Nat} (fits : op.Fits n) :
    ∀ other ∈ op.mirror, other.Fits n := by
  intro other member
  exact eq_of_mem_mirror member ▸ fits

/-- The operations that take operations back, in the order in which they do. -/
def mirrorAll (ops : List Operation) : List Operation :=
  ops.reverse.flatMap mirror

theorem mirrorAll_cons (op : Operation) (rest : List Operation) :
    mirrorAll (op :: rest) = mirrorAll rest ++ op.mirror := by
  simp [mirrorAll]

theorem fits_mirrorAll {ops : List Operation} {n : Nat} (fits : ∀ op ∈ ops, op.Fits n) :
    ∀ op ∈ mirrorAll ops, op.Fits n := by
  intro op member
  obtain ⟨source, inside, back⟩ := List.mem_flatMap.mp member
  exact (fits source (List.mem_reverse.mp inside)).mirror op back

end Operation

open Operation

def Circuit.thereAndBack (c : Circuit) : Circuit :=
  { c with
    ops := c.ops ++ mirrorAll c.ops
    fits := List.forall_mem_append.mpr ⟨c.fits, fits_mirrorAll c.fits⟩ }

namespace Statevector

section Sweeps

variable {R : Type} {n q : Nat} (v : Statevector R n)

theorem mapSet_mapSet (f g : Amplitude R → Amplitude R) :
    (v.mapSet q f).mapSet q g = v.mapSet q (g ∘ f) := by
  apply ext_get
  intro k
  rw [get_mapSet, get_mapSet, get_mapSet]
  split <;> rfl

theorem mapSet_id : v.mapSet q id = v := by
  apply ext_get
  intro k
  rw [get_mapSet]
  split <;> rfl

variable (hq : q < n) (chosen : Nat → Bool)

theorem mixPairs_mixPairs (f g : Amplitude R → Amplitude R → Amplitude R × Amplitude R) :
    (v.mixPairs q hq chosen f).mixPairs q hq chosen g =
      v.mixPairs q hq chosen fun a b => g (f a b).1 (f a b).2 := by
  apply ext_get
  intro k
  simp only [get_mixPairs, partner_partner, testBit_partner]
  cases k.val.testBit q <;> cases chosen k.val <;> cases chosen (partner q hq k).val <;> simp

/-- A sweep that leaves both amplitudes of a pair in their places changes nothing. -/
theorem mixPairs_pair : v.mixPairs q hq chosen Prod.mk = v := by
  apply ext_get
  intro k
  rw [get_mixPairs]
  split_ifs <;> rfl

/-- A sweep is undone by the sweep whose function undoes that of the first. -/
theorem mixPairs_cancel {f g : Amplitude R → Amplitude R → Amplitude R × Amplitude R}
    (undoes : ∀ a b, g (f a b).1 (f a b).2 = (a, b)) :
    (v.mixPairs q hq chosen f).mixPairs q hq chosen g = v := by
  rw [mixPairs_mixPairs, funext₂ undoes]
  exact v.mixPairs_pair hq chosen

end Sweeps

variable {R : Type} {n : Nat}

theorem applyAll_append [Scalar R] {front back : List Operation}
    (fits : ∀ op ∈ front ++ back, op.Fits n) (v : Statevector R n) :
    v.applyAll (front ++ back) fits =
      (v.applyAll front (List.forall_mem_append.mp fits).1).applyAll back
        (List.forall_mem_append.mp fits).2 := by
  induction front generalizing v with
  | nil => rfl
  | cons op rest ih => exact ih _ _

section Gates

variable [ScalarRing R] (exact : ExactGates R) {q : Nat} (hq : q < n) (v : Statevector R n)

theorem applySingle_z_z : (v.applySingle .z q hq).applySingle .z q hq = v := by
  have twice : (Amplitude.neg ∘ Amplitude.neg : Amplitude R → Amplitude R) = id := by
    funext a
    simp [Amplitude.neg]
  calc
    _ = v.mapSet q (Amplitude.neg ∘ Amplitude.neg) := v.mapSet_mapSet _ _
    _ = v := by rw [twice, mapSet_id]

include exact

/-- Two quarters of a turn are a half. -/
theorem applySingle_s_s :
    (v.applySingle .s q hq).applySingle .s q hq = v.applySingle .z q hq := by
  have half : ∀ a : Amplitude R, (a.mul Scalar.quarterTurn).mul Scalar.quarterTurn = a.neg := by
    intro a
    simp [exact.quarterTurn, Amplitude.mul, Amplitude.neg]
  calc
    _ = v.mapSet q (fun a => (a.mul Scalar.quarterTurn).mul Scalar.quarterTurn) :=
      v.mapSet_mapSet _ _
    _ = v.mapSet q .neg := by rw [funext half]

/-- Two eighths of a turn are a quarter. -/
theorem applySingle_t_t :
    (v.applySingle .t q hq).applySingle .t q hq = v.applySingle .s q hq := by
  have quarter : ∀ a : Amplitude R,
      (a.mul Scalar.eighthTurn).mul Scalar.eighthTurn = a.mul Scalar.quarterTurn := by
    intro a
    have square := exact.rootHalf
    simp only [exact.eighthTurn, exact.quarterTurn, Amplitude.mul, Amplitude.mk.injEq]
    constructor
    · linear_combination -a.im * square
    · linear_combination a.re * square
  calc
    _ = v.mapSet q (fun a => (a.mul Scalar.eighthTurn).mul Scalar.eighthTurn) :=
      v.mapSet_mapSet _ _
    _ = v.mapSet q (fun a => a.mul Scalar.quarterTurn) := by rw [funext quarter]

theorem applySingle_h_h : (v.applySingle .h q hq).applySingle .h q hq = v := by
  refine v.mixPairs_cancel hq _ ?_
  rintro ⟨a, a'⟩ ⟨b, b'⟩
  have square := exact.rootHalf
  simp only [Amplitude.scale, Amplitude.add, Amplitude.sub, Prod.mk.injEq, Amplitude.mk.injEq]
  refine ⟨⟨?_, ?_⟩, ?_, ?_⟩
  · linear_combination a * square
  · linear_combination a' * square
  · linear_combination b * square
  · linear_combination b' * square

/-- The mirror of an operation undoes it, whatever the state. -/
theorem applyAll_mirror {op : Operation} (fits : op.Fits n) :
    (v.apply op fits).applyAll op.mirror fits.mirror = v := by
  cases op with
  | single gate target =>
    have inside := Operation.fits_single.mp fits
    cases gate with
    | h => exact applySingle_h_h exact inside v
    | x => exact v.mixPairs_cancel inside _ fun a b => rfl
    | y =>
      refine v.mixPairs_cancel inside _ fun a b => ?_
      simp [Amplitude.mul, Amplitude.neg, Amplitude.unit]
    | z => exact applySingle_z_z inside v
    | s =>
      simp only [mirror, List.replicate, applyAll, apply]
      rw [applySingle_s_s exact, applySingle_s_s exact, applySingle_z_z]
    | t =>
      simp only [mirror, List.replicate, applyAll, apply]
      rw [applySingle_t_t exact, applySingle_t_t exact, applySingle_t_t exact,
        applySingle_t_t exact, applySingle_s_s exact, applySingle_s_s exact, applySingle_z_z]
  | cnot control target =>
    obtain ⟨-, inside, -⟩ := Operation.fits_cnot.mp fits
    exact v.mixPairs_cancel inside _ fun a b => rfl

/-- A run of operations and the run of their mirrors after it change nothing. -/
theorem applyAll_mirrorAll {ops : List Operation}
    (fits : ∀ op ∈ ops ++ mirrorAll ops, op.Fits n) :
    v.applyAll (ops ++ mirrorAll ops) fits = v := by
  induction ops generalizing v with
  | nil => rfl
  | cons op rest ih =>
    have fits_op : op.Fits n := fits op (by simp)
    have inner : ∀ other ∈ rest ++ mirrorAll rest, other.Fits n := by
      intro other member
      refine fits other ?_
      simp only [mirrorAll_cons, List.mem_append, List.mem_cons] at member ⊢
      tauto
    have split : op :: rest ++ mirrorAll (op :: rest) =
        op :: ((rest ++ mirrorAll rest) ++ op.mirror) := by
      simp [mirrorAll_cons]
    calc
      v.applyAll (op :: rest ++ mirrorAll (op :: rest)) fits =
          (v.apply op fits_op).applyAll ((rest ++ mirrorAll rest) ++ op.mirror)
            (List.forall_mem_append.mpr ⟨inner, fits_op.mirror⟩) := by
        simp only [split, applyAll]
      _ = ((v.apply op fits_op).applyAll (rest ++ mirrorAll rest) inner).applyAll op.mirror
            fits_op.mirror := applyAll_append _ _
      _ = (v.apply op fits_op).applyAll op.mirror fits_op.mirror := by rw [ih]
      _ = v := applyAll_mirror exact v fits_op

end Gates

end Statevector

/-- Over exact arithmetic every operation is undone by its mirror in any state, and two quarters of
a turn are a half and two eighths a quarter. So a circuit with its operations taken back in the end
leaves the state in which every qubit is zero. -/
theorem circuits_are_reversible {R : Type} [ScalarRing R] (exact : ExactGates R) :
    (∀ c : Circuit, (c.thereAndBack.finalState R : Statevector R c.width.toNat) =
      Statevector.initial R c.width.toNat) ∧
    (∀ {n : Nat} (op : Operation) (fits : op.Fits n) (v : Statevector R n),
      (v.apply op fits).applyAll op.mirror fits.mirror = v) ∧
    ∀ {n q : Nat} (hq : q < n) (v : Statevector R n),
      (v.applySingle .s q hq).applySingle .s q hq = v.applySingle .z q hq ∧
      (v.applySingle .t q hq).applySingle .t q hq = v.applySingle .s q hq := by
  refine ⟨fun c => ?_, fun op fits v => ?_, fun hq v => ⟨?_, ?_⟩⟩
  · exact Statevector.applyAll_mirrorAll exact _ c.thereAndBack.fits
  · exact Statevector.applyAll_mirror exact v fits
  · exact Statevector.applySingle_s_s exact hq v
  · exact Statevector.applySingle_t_t exact hq v

theorem circuits_are_reversible_phased :
    ExactGates ℝ ∧ phased.thereAndBack.gateCount = 18 ∧
    (phased.thereAndBack.finalState ℝ : Statevector ℝ 2) = Statevector.initial ℝ 2 ∧
    ((phased.finalState ℝ).apply (.single .t 1) (by decide)).applyAll
      (List.replicate 7 (.single .t 1)) (by decide) = phased.finalState ℝ ∧
    (((phased.finalState ℝ).applySingle .s 0 (by decide)).applySingle .s 0 (by decide) :
      Statevector ℝ 2) = (phased.finalState ℝ).applySingle .z 0 (by decide) := by
  obtain ⟨circuits, gates, turns⟩ := circuits_are_reversible exactGates_real
  exact ⟨exactGates_real, by decide, circuits phased, gates (.single .t 1) _ _, (turns _ _).1⟩

end CircuitBench
