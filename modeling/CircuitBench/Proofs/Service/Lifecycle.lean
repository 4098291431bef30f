import CircuitBench.Proofs.Service.Run
import Mathlib.Data.List.Chain

/-!
# The lifecycle of an execution

Whatever a backend answers and whenever it does, an execution goes along the edges of its
lifecycle and ends where nothing leads on. What a client gets tells where it has ended, and the
other way round.

`Consultation` says what the calls on a backend come to, each made when the one before it has
answered, and how much time they have taken together. `Execution.Course` says from there how an
execution goes: the calls have come to something by the deadline or they have not. Everything else
is read off the five ways in which it can go. The state is asked for last and only its time counts,
so a backend that cannot show states completes the same executions.
-/

namespace CircuitBench

namespace Response

variable {α β : Type} {response : Response α} {deadline : Nat}

/-- Of two calls the second answers when both have taken their time. -/
theorem andThen_eq_answer_iff {next : α → Response β} {total : Nat} {result : β} :
    response.andThen next = .answer total result ↔
      ∃ delay value more, response = .answer delay value ∧
        next value = .answer more result ∧ total = delay + more := by
  cases response with
  | never => simp [andThen]
  | answer delay value =>
    cases second : next value with
    | never => simp [andThen, second]
    | answer more found => simp [andThen, second, and_comm, eq_comm]

theorem within_eq_some_iff {value : α} :
    response.within deadline = some value ↔
      ∃ delay, response = .answer delay value ∧ delay ≤ deadline := by
  cases response with
  | never => simp
  | answer delay found => simp [within, and_comm]

theorem within_eq_none_iff :
    response.within deadline = none ↔
      ∀ delay value, response = .answer delay value → deadline < delay := by
  cases response with
  | never => simp
  | answer delay found => simp [within]

/-- A second call that answers at once does not change which answers come in time. -/
theorem within_andThen_now (f : α → β) :
    (response.andThen fun value => .now (f value)).within deadline =
      (response.within deadline).map f := by
  cases response with
  | never => rfl
  | answer delay value => by_cases late : delay ≤ deadline <;> simp [andThen, now, within, late]

end Response

namespace Phase

/-- The edges of the lifecycle. -/
inductive Edge : Phase → Phase → Prop
  | build : Edge .idle .building
  | reject : Edge .building .failed
  | start : Edge .building .running
  | complete : Edge .running .completed
  | expire : Edge .running .timedOut
  | fail : Edge .running .failed

/-- No edge leaves a phase in which an execution ends. -/
theorem Edge.isTerminal_eq_false {p q : Phase} (edge : Edge p q) : p.isTerminal = false := by
  cases edge <;> rfl

/-- On a way along the edges only the last phase can be one in which an execution ends. -/
theorem isTerminal_eq_false_of_isChain {phases : List Phase} (chain : phases.IsChain Edge) :
    ∀ p ∈ phases.dropLast, p.isTerminal = false := by
  induction chain with
  | nil => simp
  | singleton p => simp
  | cons_cons edge _ ih =>
    rw [List.dropLast_cons_cons, List.forall_mem_cons]
    exact ⟨edge.isTerminal_eq_false, ih⟩

end Phase

section Consultation

variable {R : Type}

/-- What the calls on a backend come to, and the time that they take: the check, the run if the
check is passed, and the state if there are counts and the circuit is small enough. -/
inductive Consultation (backend : Backend R) (stateLimit : UInt32) (earlier : Nat) (c : Circuit)
    (shots : UInt32) :
    Nat → Except BackendError (Histogram × Option (Array (Amplitude R))) → Prop
  | refused {t : Nat} {error : BackendError}
    (check : backend.check c shots = .answer t (.error error)) :
    Consultation backend stateLimit earlier c shots t (.error error)
  | failed {t u : Nat} {error : BackendError} (check : backend.check c shots = .answer t (.ok ()))
    (run : backend.run earlier c shots = .answer u (.error error)) :
    Consultation backend stateLimit earlier c shots (t + u) (.error error)
  | wide {t u : Nat} {counts : Histogram} (check : backend.check c shots = .answer t (.ok ()))
    (run : backend.run earlier c shots = .answer u (.ok counts)) (wide : ¬c.width ≤ stateLimit) :
    Consultation backend stateLimit earlier c shots (t + u) (.ok (counts, none))
  | shown {t u v : Nat} {counts : Histogram} {state : Except BackendError (Array (Amplitude R))}
    (check : backend.check c shots = .answer t (.ok ()))
    (run : backend.run earlier c shots = .answer u (.ok counts)) (narrow : c.width ≤ stateLimit)
    (show_state : backend.statevector c = .answer v state) :
    Consultation backend stateLimit earlier c shots (t + u + v) (.ok (counts, state.toOption))

variable {backend : Backend R} {stateLimit : UInt32} {earlier : Nat} {c : Circuit} {shots : UInt32}

theorem Execution.consult_eq_answer_iff {t : Nat}
    {outcome : Except BackendError (Histogram × Option (Array (Amplitude R)))} :
    consult backend stateLimit earlier c shots = .answer t outcome ↔
      Consultation backend stateLimit earlier c shots t outcome := by
  rw [consult]
  constructor
  · intro answered
    obtain ⟨t, checked, rest, check, checked_next, rfl⟩ :=
      Response.andThen_eq_answer_iff.mp answered
    cases checked with
    | error error =>
      cases checked_next
      exact .refused check
    | ok =>
      obtain ⟨u, ran, rest, run, ran_next, rfl⟩ := Response.andThen_eq_answer_iff.mp checked_next
      cases ran with
      | error error =>
        cases ran_next
        exact .failed check run
      | ok counts =>
        by_cases narrow : c.width ≤ stateLimit
        · simp only [if_pos narrow] at ran_next
          obtain ⟨v, state, rest, shown, last, rfl⟩ := Response.andThen_eq_answer_iff.mp ran_next
          cases last
          exact Nat.add_assoc t u v ▸ .shown check run narrow shown
        · simp only [if_neg narrow] at ran_next
          cases ran_next
          exact .wide check run narrow
  · intro consultation
    cases consultation with
    | refused check => simp [check, Response.andThen, Response.now]
    | failed check run => simp [check, run, Response.andThen, Response.now]
    | wide check run wide => simp [check, run, wide, Response.andThen, Response.now]
    | shown check run narrow show_state =>
      simp [check, run, narrow, show_state, Response.andThen, Response.now, Nat.add_assoc]

end Consultation

namespace ServiceError

theorem ofBackendError_ne_circuit (error : BackendError) (wrong : CircuitError) :
    ofBackendError error ≠ .circuit wrong := by
  cases h : error.errorClass <;> simp [ofBackendError, h]

theorem ofBackendError_ne_timedOut (error : BackendError) (micros : Nat) :
    ofBackendError error ≠ .timedOut micros := by
  cases h : error.errorClass <;> simp [ofBackendError, h]

end ServiceError

/-- What is wrong with options is never said in the words of a backend. -/
theorem RunOptions.check_ne_ofBackendError {options : RunOptions} {fault : RequestFault}
    {error : BackendError} (check : options.check = .error fault) :
    ServiceError.request fault ≠ .ofBackendError error := by
  intro same
  have own : fault = .noShots ∨ fault = .noTime := by
    grind [RunOptions.check]
  cases h : error.errorClass <;> grind [ServiceError.ofBackendError]

namespace Execution

variable {R : Type}

/-- How an execution goes: the phases and the result, from what is asked and what the calls on the
backend come to by the deadline. -/
inductive Course (backend : Backend R) (stateLimit : UInt32) (earlier : Nat) (d : Description)
    (options : RunOptions) : List Phase → Except ServiceError (RunResult R) → Prop
  | refused {fault : RequestFault} (check : options.check = .error fault) :
    Course backend stateLimit earlier d options [.idle] (.error (.request fault))
  | rejected {error : CircuitError} (ready : options.check = .ok ())
    (wrong : d.build = .error error) :
    Course backend stateLimit earlier d options [.idle, .building, .failed]
      (.error (.circuit error))
  | expired {c : Circuit} (ready : options.check = .ok ()) (built : d.build = .ok c)
    (late : ∀ t outcome, Consultation backend stateLimit earlier c options.shots t outcome →
      options.deadline < t) :
    Course backend stateLimit earlier d options [.idle, .building, .running, .timedOut]
      (.error (.timedOut options.deadline))
  | failed {c : Circuit} {t : Nat} {error : BackendError} (ready : options.check = .ok ())
    (built : d.build = .ok c)
    (fails : Consultation backend stateLimit earlier c options.shots t (.error error))
    (in_time : t ≤ options.deadline) :
    Course backend stateLimit earlier d options [.idle, .building, .running, .failed]
      (.error (.ofBackendError error))
  | completed {c : Circuit} {t : Nat} {counts : Histogram} {state : Option (Array (Amplitude R))}
    (ready : options.check = .ok ()) (built : d.build = .ok c)
    (answers : Consultation backend stateLimit earlier c options.shots t (.ok (counts, state)))
    (in_time : t ≤ options.deadline) :
    Course backend stateLimit earlier d options [.idle, .building, .running, .completed]
      (.ok { counts, statevector := state, width := c.width, depth := c.depth,
             gateCount := c.gateCount })

variable (backend : Backend R) (stateLimit : UInt32) (earlier : Nat) (d : Description)
  (options : RunOptions)

theorem course_ofDescription :
    Course backend stateLimit earlier d options
      (ofDescription backend stateLimit earlier d options).phases
      (ofDescription backend stateLimit earlier d options).result := by
  cases ready : options.check with
  | error fault =>
    rw [ofDescription, ready]
    exact .refused ready
  | ok =>
    cases built : d.build with
    | error error =>
      rw [ofDescription, ready, built]
      exact .rejected ready built
    | ok c =>
      rw [ofDescription_of_build ready built, ofCircuit]
      cases raced :
        (consult backend stateLimit earlier c options.shots).within options.deadline with
      | none =>
        refine .expired ready built fun t outcome consultation => ?_
        have answered := consult_eq_answer_iff.mpr consultation
        exact Response.within_eq_none_iff.mp raced t outcome answered
      | some outcome =>
        obtain ⟨t, answered, in_time⟩ := Response.within_eq_some_iff.mp raced
        have consultation := consult_eq_answer_iff.mp answered
        cases outcome with
        | error error => exact .failed ready built consultation in_time
        | ok found => exact .completed ready built consultation in_time

namespace Course

variable {backend stateLimit earlier d options} {phases : List Phase}
  {result : Except ServiceError (RunResult R)}
  (course : Course backend stateLimit earlier d options phases result)

include course

theorem head?_eq : phases.head? = some .idle := by
  cases course <;> rfl

theorem isChain : phases.IsChain Phase.Edge := by
  cases course with
  | refused => exact .singleton _
  | rejected => exact .cons_cons .build (.cons_cons .reject (.singleton _))
  | expired => exact .cons_cons .build (.cons_cons .start (.cons_cons .expire (.singleton _)))
  | failed => exact .cons_cons .build (.cons_cons .start (.cons_cons .fail (.singleton _)))
  | completed => exact .cons_cons .build (.cons_cons .start (.cons_cons .complete (.singleton _)))

theorem completed_iff : (∃ found, result = .ok found) ↔ phases.getLast? = some .completed := by
  cases course <;> simp

theorem timedOut_iff :
    (∃ micros, result = .error (.timedOut micros)) ↔ phases.getLast? = some .timedOut := by
  cases course with
  | failed => simp [ServiceError.ofBackendError_ne_timedOut]
  | _ => simp

theorem rejected_iff :
    (∃ error, d.build = .error error ∧ result = .error (.circuit error)) ↔
      [.building, .failed] <:+ phases := by
  cases course with
  | refused => exact iff_of_false (by simp) (by decide)
  | rejected _ wrong => exact iff_of_true ⟨_, wrong, rfl⟩ (by decide)
  | expired => exact iff_of_false (by simp) (by decide)
  | failed _ built => exact iff_of_false (by simp [built]) (by decide)
  | completed => exact iff_of_false (by simp) (by decide)

theorem failed_iff :
    (∃ error, result = .error (.ofBackendError error)) ↔ [.running, .failed] <:+ phases := by
  cases course with
  | refused check =>
    refine iff_of_false ?_ (by decide)
    rintro ⟨error, same⟩
    exact RunOptions.check_ne_ofBackendError check (Except.error.inj same)
  | rejected =>
    refine iff_of_false ?_ (by decide)
    rintro ⟨error, same⟩
    exact ServiceError.ofBackendError_ne_circuit error _ (Except.error.inj same).symm
  | expired =>
    refine iff_of_false ?_ (by decide)
    rintro ⟨error, same⟩
    exact ServiceError.ofBackendError_ne_timedOut error _ (Except.error.inj same).symm
  | failed => exact iff_of_true ⟨_, rfl⟩ (by decide)
  | completed => exact iff_of_false (by simp) (by decide)

end Course

def withoutState (execution : Execution R) : Execution R :=
  { execution with result := execution.result.map fun found => { found with statevector := none } }

end Execution

section FailingState

variable {R : Type} (backend : Backend R) (failure : Circuit → BackendError)

/-- The backend that has an error to show wherever it has a state, after the same time. -/
def Backend.withFailingState : Backend R :=
  { backend with
    statevector := fun c => (backend.statevector c).andThen fun _ => .now (.error (failure c)) }

variable {stateLimit : UInt32} {earlier : Nat} {c : Circuit} {shots : UInt32}

theorem Execution.consult_withFailingState :
    consult (backend.withFailingState failure) stateLimit earlier c shots =
      (consult backend stateLimit earlier c shots).andThen fun outcome =>
        .now (outcome.map fun found => (found.1, none)) := by
  simp only [consult, Backend.withFailingState]
  rcases backend.check c shots with ⟨t, error | ok⟩ | _
  · rfl
  · rcases backend.run earlier c shots with ⟨u, error | counts⟩ | _
    · rfl
    · by_cases narrow : c.width ≤ stateLimit
      · rcases backend.statevector c with ⟨v, state⟩ | _
        · simp [Response.andThen, Response.now, narrow, Except.map, Except.toOption]
        · simp [Response.andThen, Response.now, narrow]
      · simp [Response.andThen, Response.now, narrow, Except.map]
    · rfl
  · rfl

/-- A state that cannot be shown is missing from the result, and nothing else is different. -/
theorem Execution.ofDescription_withFailingState (d : Description) (options : RunOptions) :
    ofDescription (backend.withFailingState failure) stateLimit earlier d options =
      (ofDescription backend stateLimit earlier d options).withoutState := by
  cases ready : options.check with
  | error fault =>
    rw [ofDescription, ofDescription, ready]
    rfl
  | ok =>
    cases built : d.build with
    | error error =>
      rw [ofDescription, ofDescription, ready, built]
      rfl
    | ok c =>
      rw [ofDescription_of_build ready built, ofDescription_of_build ready built, ofCircuit,
        ofCircuit, consult_withFailingState, Response.within_andThen_now]
      rcases (consult backend stateLimit earlier c options.shots).within options.deadline with
        _ | error | found
      · rfl
      · rfl
      · rfl

end FailingState

/-- An execution starts idle, goes along the edges of the lifecycle and leaves no phase in which one
ends. Where it ends is what the client is told: a result is a completed execution, a timeout one
that timed out, a wrong circuit one that failed as it was built, and an error of the backend one
that failed as it ran. How it goes is decided by what the calls on the backend come to by the
deadline. Options without shots or without time are refused before anything is built or called,
and a backend whose states fail completes the same executions with the same counts. -/
theorem executions_end_as_their_phases_tell {R : Type} (backend : Backend R) (stateLimit : UInt32)
    (earlier : Nat) (d : Description) (options : RunOptions) :
    let execution := Execution.ofDescription backend stateLimit earlier d options
    (execution.phases.head? = some .idle ∧ execution.phases.IsChain Phase.Edge ∧
      ∀ p ∈ execution.phases.dropLast, p.isTerminal = false) ∧
    ((∃ found, execution.result = .ok found) ↔
      execution.phases.getLast? = some .completed) ∧
    ((∃ micros, execution.result = .error (.timedOut micros)) ↔
      execution.phases.getLast? = some .timedOut) ∧
    ((∃ error, d.build = .error error ∧ execution.result = .error (.circuit error)) ↔
      [.building, .failed] <:+ execution.phases) ∧
    ((∃ error, execution.result = .error (.ofBackendError error)) ↔
      [.running, .failed] <:+ execution.phases) ∧
    Execution.Course backend stateLimit earlier d options execution.phases execution.result ∧
    (options.shots = 0 ∨ options.deadline = 0 → ∃ fault : RequestFault,
      ∀ (backend : Backend R) (stateLimit : UInt32) (earlier : Nat) (d : Description),
        Execution.ofDescription backend stateLimit earlier d options =
          .refused (.request fault)) ∧
    ∀ failure : Circuit → BackendError,
      Execution.ofDescription (backend.withFailingState failure) stateLimit earlier d options =
        execution.withoutState := by
  have course := Execution.course_ofDescription backend stateLimit earlier d options
  refine ⟨⟨course.head?_eq, course.isChain,
      Phase.isTerminal_eq_false_of_isChain course.isChain⟩, course.completed_iff,
    course.timedOut_iff, course.rejected_iff, course.failed_iff, course, ?_,
    fun failure => Execution.ofDescription_withFailingState backend failure d options⟩
  intro unusable
  cases check : options.check with
  | ok =>
    obtain ⟨some_shots, some_time⟩ := RunOptions.check_eq_ok_iff.mp check
    exact absurd unusable (not_or.mpr ⟨some_shots, some_time⟩)
  | error fault =>
    refine ⟨fault, fun backend stateLimit earlier d => ?_⟩
    rw [Execution.ofDescription, check]

end CircuitBench
