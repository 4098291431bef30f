import CircuitBench.Backend.Simulator

/-!
# Which backend is selected

The first candidate that can be created is selected, and if none can there is no backend. The
built-in simulators are created under the same condition, that the qubit limit is one that they
support, so the candidate of the newest generation is the only one that counts.
-/

namespace CircuitBench

namespace Registry

variable {R : Type} {registry : Registry R} {preference : Preference} {options : BackendOptions}

theorem select_eq_ok_of_first {first : Registration R} {others : List (Registration R)}
    {backend : Backend R} (tried : registry.candidates preference = first :: others)
    (created : first.create options = .ok backend) :
    registry.select preference options = .ok backend := by
  rw [select, tried, List.findSome?_cons, created]
  rfl

theorem select_eq_noneAvailable
    (fails : ∀ c ∈ registry.candidates preference, (c.create options).toOption = none) :
    registry.select preference options = .error (.noneAvailable preference) := by
  rw [select, List.findSome?_eq_none_iff.mpr fails]

end Registry

def Preference.first : Preference → Generation
  | auto => .sampling
  | sampling => .sampling
  | legacy => .legacyExecute

theorem Preference.exists_generations (preference : Preference) :
    ∃ others, preference.generations = preference.first :: others := by
  cases preference with
  | auto => exact ⟨[.legacyExecute], rfl⟩
  | sampling => exact ⟨[], rfl⟩
  | legacy => exact ⟨[], rfl⟩

namespace Simulator

variable (R : Type) [Chance R] (machine : Machine)

/-- Every generation has one built-in simulator. -/
theorem ofGeneration_registry (generation : Generation) :
    (registry R machine).ofGeneration generation =
      [⟨generation, create R machine generation⟩] := by
  cases generation with
  | sampling => rfl
  | legacyExecute => rfl

theorem candidates_registry (preference : Preference) :
    (registry R machine).candidates preference =
      preference.generations.map fun generation => ⟨generation, create R machine generation⟩ := by
  rw [Registry.candidates, funext (ofGeneration_registry R machine), List.map_eq_flatMap]

variable {R machine} {preference : Preference} {options : BackendOptions}

/-- Under a limit that the simulator supports the first generation is selected. -/
theorem select_registry {limit : UInt32} (supported : qubitLimit options = .ok limit) :
    (registry R machine).select preference options =
      .ok (backend R machine preference.first limit options.seed) := by
  obtain ⟨others, order⟩ := preference.exists_generations
  have tried := candidates_registry R machine preference
  rw [order, List.map_cons] at tried
  refine Registry.select_eq_ok_of_first tried ?_
  show (qubitLimit options).map _ = _
  rw [supported]
  rfl

/-- Under any other limit none is. -/
theorem select_registry_of_error {error : BackendError}
    (refused : qubitLimit options = .error error) :
    (registry R machine).select preference options = .error (.noneAvailable preference) := by
  apply Registry.select_eq_noneAvailable
  intro c tried
  rw [candidates_registry] at tried
  obtain ⟨generation, -, rfl⟩ := List.mem_map.mp tried
  show ((qubitLimit options).map _).toOption = none
  rw [refused]
  rfl

end Simulator

end CircuitBench
