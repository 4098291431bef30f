import CircuitBench.Proofs.Assembly.RoundTrip
import CircuitBench.Proofs.Assembly.Script
import CircuitBench.Service.Basic
import Mathlib

/-!
# Validating, exporting and importing agree

A service accepts a description in all of these operations or in none, with the same
error. What it exports as assembly text it imports again, also where the width is
exactly the limit, and gets the canonical form of the description. Descriptions that
come from an import are canonical already, so exporting and importing them changes
nothing.
-/

namespace CircuitBench.Service

variable {R : Type} {service : Service R} {d : Description} {c : Circuit}

abbrev limit (service : Service R) : Nat :=
  service.settings.execution.maxQubits.toNat

theorem build_eq_ok_iff : service.build d = .ok c ↔
    d.qubits.toInt ≤ service.limit ∧ d.build = .ok c := by
  rw [build, checkWidth]
  by_cases wide : (service.limit : Int) < d.qubits.toInt
  · simp only [wide, if_true]
    constructor
    · intro impossible
      cases impossible
    · rintro ⟨within, -⟩
      exact absurd wide (Int.not_lt.mpr within)
  · simp only [wide, if_false, Assembly.mapError_eq_ok_iff]
    exact (and_iff_right (Int.not_lt.mp wide)).symm

theorem build_ofCircuit_iff : service.build (.ofCircuit c) = .ok c ↔
    c.width.toNat ≤ service.limit := by
  rw [build_eq_ok_iff, Description.build_ofCircuit, Description.ofCircuit, toInt_ofNat_toNat]
  simp

/-- A circuit that a service builds is built again from the canonical form. -/
theorem build_canonical (h : service.build d = .ok c) : service.build d.canonical = .ok c := by
  obtain ⟨within, built⟩ := build_eq_ok_iff.mp h
  have same := Description.ofCircuit_eq_canonical built
  refine build_eq_ok_iff.mpr ⟨within, ?_⟩
  rw [← same, Description.build_ofCircuit]

theorem width_le_of_build (h : service.build d = .ok c) : c.width.toNat ≤ service.limit := by
  have built := build_canonical h
  rw [← Description.ofCircuit_eq_canonical (build_eq_ok_iff.mp h).2] at built
  exact build_ofCircuit_iff.mp built

theorem validate_of_build (h : service.build d = .ok c) : service.validate d = .ofCircuit c := by
  rw [validate, h]

theorem exportAssembly_of_build (h : service.build d = .ok c) :
    service.exportAssembly d = .ok ⟨Assembly.print c⟩ := by
  rw [exportAssembly, h]
  rfl

theorem exportScript_of_build (h : service.build d = .ok c) :
    service.exportScript d = .ok ⟨Assembly.Script.rendered c⟩ := by
  simp only [exportScript, h, Assembly.Script.script_eq_rendered]

/-- An error that keeps a circuit from being built is the error of every operation on the
description. -/
theorem fails_of_build {e : ServiceError} (h : service.build d = .error e) :
    service.validate d = .invalid e ∧ service.exportAssembly d = .error e ∧
      service.exportScript d = .error e := by
  refine ⟨by rw [validate, h], ?_, by rw [exportScript, h]⟩
  rw [exportAssembly, h]
  rfl

theorem importAssembly_print (within : c.width.toNat ≤ service.limit) :
    service.importAssembly ⟨Assembly.print c⟩ = .ok ⟨.ofCircuit c⟩ := by
  rw [importAssembly, Assembly.read_print_of_le c within]

/-- What is imported is the description of a circuit within the limit. -/
theorem importAssembly_eq_ok {request : ImportRequest} {response : ImportResponse}
    (h : service.importAssembly request = .ok response) :
    ∃ c : Circuit, response = ⟨.ofCircuit c⟩ ∧ c.width.toNat ≤ service.limit := by
  rw [importAssembly] at h
  split at h
  · cases h
  next circuit read =>
    cases h
    exact ⟨circuit, rfl, Assembly.width_le_of_read read⟩

/-- A description is valid, has an assembly text and has a script all at once, or the three
operations report one error. The text is imported as the canonical form of the description, on
which the operations answer as before; and what has been imported from any text is exported and
imported again unchanged. -/
theorem interchange_agrees (service : Service R) :
    (∀ d,
      ((service.validate d).valid = true ↔ ∃ r, service.exportAssembly d = .ok r) ∧
      ((service.validate d).valid = true ↔ ∃ r, service.exportScript d = .ok r) ∧
      ((service.validate d).valid = false → ∃ e, service.validate d = .invalid e ∧
        service.exportAssembly d = .error e ∧ service.exportScript d = .error e) ∧
      ∀ r, service.exportAssembly d = .ok r →
        service.importAssembly ⟨r.assembly⟩ = .ok ⟨d.canonical⟩ ∧
        service.validate d.canonical = service.validate d ∧
        service.exportAssembly d.canonical = service.exportAssembly d ∧
        service.exportScript d.canonical = service.exportScript d) ∧
    ∀ text response, service.importAssembly ⟨text⟩ = .ok response →
      ∃ r, service.exportAssembly response.description = .ok r ∧
        service.importAssembly ⟨r.assembly⟩ = .ok response := by
  constructor
  · intro d
    cases built : service.build d with
    | error e =>
      obtain ⟨invalid, noText, noScript⟩ := fails_of_build built
      rw [invalid, noText, noScript]
      refine ⟨by simp [ValidateResponse.invalid], by simp [ValidateResponse.invalid], ?_, ?_⟩
      · intro _
        exact ⟨e, rfl, rfl, rfl⟩
      · intro r impossible
        cases impossible
    | ok c =>
      have canonical := build_canonical built
      rw [validate_of_build built, exportAssembly_of_build built, exportScript_of_build built,
        validate_of_build canonical, exportAssembly_of_build canonical,
        exportScript_of_build canonical]
      refine ⟨by simp [ValidateResponse.ofCircuit], by simp [ValidateResponse.ofCircuit], ?_, ?_⟩
      · intro impossible
        cases impossible
      · intro r exported
        cases exported
        refine ⟨?_, rfl, rfl, rfl⟩
        rw [importAssembly_print (width_le_of_build built),
          Description.ofCircuit_eq_canonical (build_eq_ok_iff.mp built).2]
  · intro text response imported
    obtain ⟨c, rfl, within⟩ := importAssembly_eq_ok imported
    have exported := exportAssembly_of_build (build_ofCircuit_iff.mpr within)
    have back := importAssembly_print within
    exact ⟨_, exported, back⟩

def pairService : Service Unit :=
  ⟨{ execution := { maxQubits := 2 } }, .error "none"⟩

/-- Two qubits, the limit of the service above, with an alias and an unknown type. -/
def mixed : Description :=
  ⟨2, [⟨"h", [0], []⟩, ⟨"ccx", [0, 1, 7], []⟩, ⟨"cx", [0, 1], []⟩]⟩

theorem interchange_agrees_mixed :
    (∃ r, pairService.exportAssembly mixed = .ok r ∧ pairService.importAssembly ⟨r.assembly⟩ =
      .ok ⟨⟨2, [⟨"H", [0], []⟩, ⟨"CNOT", [0, 1], []⟩]⟩⟩) ∧
    (∃ e, pairService.validate ⟨2, [⟨"cx", [1, 1], []⟩]⟩ = .invalid e ∧
      pairService.exportAssembly ⟨2, [⟨"cx", [1, 1], []⟩]⟩ = .error e ∧
      pairService.exportScript ⟨2, [⟨"cx", [1, 1], []⟩]⟩ = .error e) ∧
    ∃ r, pairService.exportAssembly ⟨2, [⟨"CNOT", [1, 0], []⟩]⟩ = .ok r ∧
      pairService.importAssembly ⟨r.assembly⟩ = .ok ⟨⟨2, [⟨"CNOT", [1, 0], []⟩]⟩⟩ := by
  obtain ⟨exporting, importing⟩ := interchange_agrees pairService
  refine ⟨?_, ?_, ?_⟩
  · obtain ⟨hasText, -, -, back⟩ := exporting mixed
    have valid : (pairService.validate mixed).valid = true := by cbv
    have canonical : mixed.canonical = ⟨2, [⟨"H", [0], []⟩, ⟨"CNOT", [0, 1], []⟩]⟩ := by cbv
    obtain ⟨r, exported⟩ := hasText.mp valid
    rw [← canonical]
    exact ⟨r, exported, (back r exported).1⟩
  · obtain ⟨-, -, refused, -⟩ := exporting ⟨2, [⟨"cx", [1, 1], []⟩]⟩
    have invalid : (pairService.validate ⟨2, [⟨"cx", [1, 1], []⟩]⟩).valid = false := rfl
    exact refused invalid
  · have imported : pairService.importAssembly ⟨"qubit[2] a;\ncx a[1], a[0];"⟩ =
        .ok ⟨⟨2, [⟨"CNOT", [1, 0], []⟩]⟩⟩ := by cbv
    exact importing _ ⟨⟨2, [⟨"CNOT", [1, 0], []⟩]⟩⟩ imported

end CircuitBench.Service
