/-!
# JSON values

A value keeps the order of object members, keeps integers apart from other numbers,
and may repeat a member name: what a repetition means is for the reader of a record
to decide.
-/

namespace CircuitBench

/-- A JSON value. -/
inductive Json where
  | null
  | bool (value : Bool)
  | int (value : Int)
  | float (value : Float)
  | string (value : String)
  | array (items : List Json)
  | object (fields : List (String × Json))
  /-- A value that is correctly written but denotes nothing that can be held: a number
  beyond the range of binary64, or a text with half of a surrogate pair. It is harmless
  where nobody looks at it, and no reader accepts it. -/
  | unrepresentable
deriving Inhabited

namespace Json

/-- A number of the binary64 range; the infinities and NaN have no JSON form. -/
def ofFloat (x : Float) : Json :=
  if x.isFinite then .float x else .null

/-- The first member of an object with that name. -/
def member? (name : String) : Json → Option Json
  | .object fields => fields.lookup name
  | _ => none

end Json

end CircuitBench
