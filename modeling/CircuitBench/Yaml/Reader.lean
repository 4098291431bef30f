import CircuitBench.Yaml.Basic
import CircuitBench.Yaml.Token

/-!
# Reading YAML text

The tokens of a text drive a machine with a stack of open collections. A collection
within brackets is closed by its bracket; any other is closed by a line that is indented
less. The items of a sequence may be indented as far as the key that they belong to. A
text holds at most one document.
-/

namespace CircuitBench.Yaml

/-- A collection that is still open, with what it holds so far, newest first. -/
inductive Frame where
  /-- A mapping whose keys are at `column`; `pending` is a key that has no value yet. -/
  | mapping (column : Nat) (entries : List (String × Yaml)) (pending : Option String)
  /-- A sequence whose dashes are at `column`; `pending` tells whether the last dash has no item
  yet. -/
  | sequence (column : Nat) (items : List Yaml) (pending : Bool)
  /-- A mapping within brackets; an entry can begin if it is `ready`. -/
  | flowMapping (entries : List (String × Yaml)) (pending : Option String) (ready : Bool)
  /-- A sequence within brackets; an item can begin if it is `ready`. -/
  | flowSequence (items : List Yaml) (ready : Bool)

namespace Frame

def isFlow : Frame → Bool
  | mapping .. | sequence .. => false
  | flowMapping .. | flowSequence .. => true

/-- The collection with a value where it waits for one. -/
def receive (value : Yaml) : Frame → Option Frame
  | mapping column entries (some key) => some (mapping column ((key, value) :: entries) none)
  | sequence column items true => some (sequence column (value :: items) false)
  | flowMapping entries (some key) _ => some (flowMapping ((key, value) :: entries) none false)
  | flowSequence items true => some (flowSequence (value :: items) false)
  | flowMapping entries none true =>
    match value with
    | .scalar _ text => some (flowMapping ((text, empty) :: entries) none false)
    | _ => none
  | _ => none

/-- The collection in which nothing waits: a value that has not been written is empty. -/
def complete : Frame → Frame
  | mapping column entries (some key) => mapping column ((key, empty) :: entries) none
  | sequence column items true => sequence column (empty :: items) false
  | flowMapping entries (some key) _ => flowMapping ((key, empty) :: entries) none false
  | frame => frame

def node (frame : Frame) : Yaml :=
  match frame.complete with
  | mapping _ entries _ | flowMapping entries _ _ => .mapping entries.reverse
  | sequence _ items _ | flowSequence items _ => .sequence items.reverse

def endsAt (column : Nat) (dash : Bool) : Frame → Bool
  | mapping own .. => column < own
  | sequence own .. => column < own || (column = own && !dash)
  | _ => false

/-- The collection at a line that begins at its own column, with the next entry or item. -/
def atLine (column : Nat) (dash : Bool) : Frame → Frame
  | frame@(mapping own _ _) => if column = own && !dash then frame.complete else frame
  | frame@(sequence own _ _) => if column = own then frame.complete else frame
  | frame => frame

end Frame

/-- The state of the reader. -/
structure Reader where
  /-- The line of the last token. -/
  line : Option Nat := none
  /-- The last token, if it is on the line of the next one. -/
  afterDash : Bool := false
  started : Bool := false
  ended : Bool := false
  root : Option Yaml := none
  /-- What is open, innermost first. -/
  frames : List Frame := []

namespace Reader

def deliver (r : Reader) (value : Yaml) : Option Reader :=
  match r.frames with
  | [] => if r.root.isNone then some { r with root := some value } else none
  | frame :: frames => (frame.receive value).map fun frame => { r with frames := frame :: frames }

/-- Closes the collections that end at a line, and hands each to the one around it. -/
def unwind (column : Nat) (dash : Bool) (carried : Option Yaml) :
    List Frame → Option Yaml × List Frame
  | [] => (carried, [])
  | frame :: frames =>
    let frame := (carried.bind frame.receive).getD frame
    if frame.endsAt column dash then unwind column dash (some frame.node) frames
    else (none, frame.atLine column dash :: frames)

def settle (r : Reader) (column : Nat) (dash : Bool) : Reader :=
  let (carried, frames) := unwind column dash none r.frames
  { r with frames, root := carried.or r.root }

def close (r : Reader) : Option Yaml :=
  if r.frames.any Frame.isFlow then none
  else
    let node := r.frames.foldl
      (fun carried frame => some ((carried.bind frame.receive).getD frame).node) none
    some ((node.or r.root).getD empty)

/-- Whether a collection can begin here that needs a line of its own: at the beginning of a line
or behind a dash. -/
def opens (r : Reader) (fresh : Bool) : Bool :=
  (fresh || r.afterDash) &&
    match r.frames with
    | [] => r.root.isNone
    | .mapping _ _ pending :: _ => pending.isSome && fresh
    | .sequence _ _ pending :: _ => pending
    | _ => false

def stepBlock (r : Reader) (token : Token) (fresh : Bool) : Option Reader :=
  match token.mark, r.frames with
  | .scalar plain text, _ => r.deliver (.scalar plain text)
  | .key text, .mapping column entries none :: frames =>
    if fresh && column = token.column then
      some { r with frames := .mapping column entries (some text) :: frames }
    else none
  | .key text, frames =>
    if r.opens fresh then
      some { r with frames := .mapping token.column [] (some text) :: frames }
    else none
  | .dash, .sequence column items false :: frames =>
    if fresh && column = token.column then
      some { r with frames := .sequence column items true :: frames }
    else none
  | .dash, frames =>
    if r.opens fresh then some { r with frames := .sequence token.column [] true :: frames }
    else none
  | .openSequence, frames =>
    (r.deliver empty).map fun _ => { r with frames := .flowSequence [] true :: frames }
  | .openMapping, frames =>
    (r.deliver empty).map fun _ => { r with frames := .flowMapping [] none true :: frames }
  | _, _ => none

def stepFlow (r : Reader) (token : Token) : Option Reader :=
  match token.mark, r.frames with
  | .scalar plain text, _ => r.deliver (.scalar plain text)
  | .key text, .flowMapping entries none true :: frames =>
    some { r with frames := .flowMapping entries (some text) true :: frames }
  | .comma, .flowMapping entries (some key) _ :: frames =>
    some { r with frames := .flowMapping ((key, empty) :: entries) none true :: frames }
  | .comma, .flowMapping entries none false :: frames =>
    some { r with frames := .flowMapping entries none true :: frames }
  | .comma, .flowSequence items false :: frames =>
    some { r with frames := .flowSequence items true :: frames }
  | .closeMapping, frame@(.flowMapping ..) :: frames => deliver { r with frames } frame.node
  | .closeSequence, frame@(.flowSequence ..) :: frames => deliver { r with frames } frame.node
  | .openSequence, frames@(.flowMapping _ (some _) _ :: _) =>
    some { r with frames := .flowSequence [] true :: frames }
  | .openMapping, frames@(.flowMapping _ (some _) _ :: _) =>
    some { r with frames := .flowMapping [] none true :: frames }
  | .openSequence, frames@(.flowSequence _ true :: _) =>
    some { r with frames := .flowSequence [] true :: frames }
  | .openMapping, frames@(.flowSequence _ true :: _) =>
    some { r with frames := .flowMapping [] none true :: frames }
  | _, _ => none

def step (r : Reader) (token : Token) : Option Reader :=
  let fresh := r.line ≠ some token.line
  let inFlow := r.frames.head?.any Frame.isFlow
  let after : Option Reader :=
    match token.mark with
    | .documentStart => if r.started || inFlow then none else some r
    | .documentEnd => if inFlow || !r.started then none else some { r with ended := true }
    | mark =>
      if r.ended then none
      else if inFlow then r.stepFlow token
      else (if fresh then r.settle token.column (mark = .dash) else r).stepBlock token fresh
  after.map fun after =>
    { after with line := some token.line, afterDash := token.mark = .dash, started := true }

end Reader

/-- The document of a text; a text without content is an empty document. -/
def read? (text : List Char) : Option Yaml :=
  (tokens? text).bind fun tokens => (tokens.foldlM Reader.step {}).bind Reader.close

end CircuitBench.Yaml
