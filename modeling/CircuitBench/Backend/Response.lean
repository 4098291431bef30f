/-!
# Responses in time

A call on a backend answers after some time or not at all. Time is counted in
microseconds from the call. Calls that follow each other add up their times, and a
deadline lets an answer through if it comes in time, where an answer at the very moment
of the deadline still counts.
-/

namespace CircuitBench

/-- What becomes of a call: an answer after `delay` microseconds, or none ever. -/
inductive Response (α : Type) where
  | answer (delay : Nat) (value : α)
  | never
deriving DecidableEq, Repr

namespace Response

variable {α β : Type}

def now (value : α) : Response α :=
  answer 0 value

/-- A second call that is made when the first one has answered. -/
def andThen : Response α → (α → Response β) → Response β
  | never, _ => never
  | answer delay value, next =>
    match next value with
    | never => never
    | answer more result => answer (delay + more) result

/-- The answer, if it comes no later than the deadline. -/
def within (deadline : Nat) : Response α → Option α
  | answer delay value => if delay ≤ deadline then some value else none
  | never => none

@[simp] theorem within_now (deadline : Nat) (value : α) :
    (now value).within deadline = some value := by
  simp [now, within]

@[simp] theorem within_never (deadline : Nat) : (never : Response α).within deadline = none := rfl

@[simp] theorem now_andThen (value : α) (next : α → Response β) :
    (now value).andThen next = next value := by
  simp only [now, andThen]
  split <;> simp_all

end Response

end CircuitBench
