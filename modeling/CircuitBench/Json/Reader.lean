import CircuitBench.Json.Token

/-!
# Reading JSON text

The tokens of a text drive a machine with a stack of open arrays and objects. Each
token is one step, so that nesting costs no recursion and the text is accepted if the
machine ends with one complete value and nothing open.
-/

namespace CircuitBench.Json

/-- An array or object that is still open. -/
inductive Frame where
  /-- The items so far, newest first. -/
  | array (items : List Json)
  /-- The members so far, newest first, and whether all member names could be held. -/
  | object (fields : List (String × Json)) (sound : Bool)

/-- What the reader expects next. -/
inductive Expecting where
  | value
  /-- A value, or the end of the array that has just been opened. -/
  | firstItem
  /-- A member name, or the end of the object that has just been opened. -/
  | firstKey
  | key
  /-- The colon behind a member name; no name if it could not be held. -/
  | colon (name : Option String)
  /-- The value of a member. -/
  | member (name : Option String)
  /-- A comma or the end of the innermost open array or object. -/
  | separator
  /-- The end of the text, behind a complete value. -/
  | finish (value : Json)

/-- The state of the reader: what it expects, and what is open, innermost first. The name of a
member waits in `names` while its value is read. -/
structure Reader where
  expecting : Expecting
  frames : List Frame
  names : List (Option String)

namespace Reader

def start : Reader := ⟨.value, [], []⟩

/-- Puts a complete value where it belongs. -/
def deliver (value : Json) (frames : List Frame) (names : List (Option String)) : Option Reader :=
  match frames, names with
  | [], _ => some ⟨.finish value, [], []⟩
  | .array items :: frames, names => some ⟨.separator, .array (value :: items) :: frames, names⟩
  | .object fields sound :: frames, name :: names =>
    some ⟨.separator, .object ((name.getD "", value) :: fields) (sound && name.isSome) :: frames,
      names⟩
  | .object _ _ :: _, [] => none

/-- The value of a closed object. An object with a name that cannot be held is itself
without representation. -/
def closedObject (fields : List (String × Json)) (sound : Bool) : Json :=
  if sound then .object fields.reverse else .unrepresentable

def beginValue (token : Token) (frames : List Frame) (names : List (Option String)) :
    Option Reader :=
  match token with
  | .scalar value => deliver value frames names
  | .text content => deliver ((content.map Json.string).getD .unrepresentable) frames names
  | .openArray => some ⟨.firstItem, .array [] :: frames, names⟩
  | .openObject => some ⟨.firstKey, .object [] true :: frames, names⟩
  | _ => none

/-- One step of the reader. -/
def step (reader : Reader) (token : Token) : Option Reader :=
  match reader.expecting, token, reader.frames with
  | .value, token, frames => beginValue token frames reader.names
  | .firstItem, .closeArray, .array items :: frames =>
    deliver (.array items.reverse) frames reader.names
  | .firstItem, token, frames => beginValue token frames reader.names
  | .firstKey, .closeObject, .object fields sound :: frames =>
    deliver (closedObject fields sound) frames reader.names
  | .firstKey, .text name, frames => some ⟨.colon name, frames, reader.names⟩
  | .key, .text name, frames => some ⟨.colon name, frames, reader.names⟩
  | .colon name, .colon, frames => some ⟨.member name, frames, reader.names⟩
  | .member name, token, frames => beginValue token frames (name :: reader.names)
  | .separator, .comma, .array items :: frames =>
    some ⟨.value, .array items :: frames, reader.names⟩
  | .separator, .comma, .object fields sound :: frames =>
    some ⟨.key, .object fields sound :: frames, reader.names⟩
  | .separator, .closeArray, .array items :: frames =>
    deliver (.array items.reverse) frames reader.names
  | .separator, .closeObject, .object fields sound :: frames =>
    deliver (closedObject fields sound) frames reader.names
  | _, _, _ => none

def result? (reader : Reader) : Option Json :=
  match reader.expecting with
  | .finish value => some value
  | _ => none

end Reader

/-- The value of a JSON text, or nothing if the text is not JSON. -/
def read? (text : List Char) : Option Json :=
  (Token.tokens? text).bind fun tokens =>
    (tokens.foldlM Reader.step Reader.start).bind Reader.result?

mutual

/-- The value in which a repeated member name has only its last member, at all depths. -/
def lastWins : Json → Json
  | .array items => .array (lastWinsItems items)
  | .object fields => .object (lastWinsFields fields)
  | value => value

def lastWinsItems : List Json → List Json
  | [] => []
  | item :: items => lastWins item :: lastWinsItems items

/-- `lastWins` for the members of an object: a member gives way to a later one of its name. -/
def lastWinsFields : List (String × Json) → List (String × Json)
  | [] => []
  | (name, value) :: fields =>
    if fields.any (·.1 = name) then lastWinsFields fields
    else (name, lastWins value) :: lastWinsFields fields

end

end CircuitBench.Json
