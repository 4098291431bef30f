import CircuitBench.Json.Basic
import CircuitBench.Power

/-!
# Values and records as JSON

`Wire` says how a type is written as JSON and read back. A record is written as an
object and read from an object or from an array: an object names its fields, in any
order and among others that are ignored, and an array holds them in their declared
order, where the last ones may be left out if they have a default. A field that an
object names twice is refused, and so is an array with too many items.
-/

namespace CircuitBench

/-- A type with a JSON form. -/
class Wire (α : Type) where
  encode : α → Json
  decode? : Json → Option α

export Wire (encode decode?)

namespace Json

/-- The fields of a record that are still to be read. -/
inductive Fields where
  | named (fields : List (String × Json))
  | positional (items : List Json)

abbrev Record (α : Type) := StateT Fields Option α

namespace Record

/-- The member of that name, or the next item. -/
def field (name : String) : Record (Option Json)
  | .named fields =>
    match fields.filter (·.1 = name) with
    | [] => some (none, .named fields)
    | [(_, value)] => some (some value, .named fields)
    | _ => none
  | .positional [] => some (none, .positional [])
  | .positional (item :: items) => some (some item, .positional items)

variable {α : Type} [Wire α]

def required (name : String) : Record α := do
  match ← field name with
  | some value => StateT.lift (decode? value)
  | none => failure

def withDefault (name : String) (default : α) : Record α := do
  match ← field name with
  | some value => StateT.lift (decode? value)
  | none => pure default

def read? {β : Type} (record : Record β) : Json → Option β
  | .object fields => (record (.named fields)).map (·.1)
  | .array items =>
    match record (.positional items) with
    | some (value, .positional []) => some value
    | _ => none
  | _ => none

end Record

def member {α : Type} [Wire α] (name : String) (value : α) : List (String × Json) :=
  [(name, encode value)]

/-- A member that is left out if there is no value. -/
def memberIfSome {α : Type} [Wire α] (name : String) : Option α → List (String × Json)
  | some value => member name value
  | none => []

end Json

/-- Reads a value of an enumeration from its name, which may also be the only member of an
object with the value `null`. -/
def Json.variant? {α : Type} (ofName? : String → Option α) : Json → Option α
  | .string name => ofName? name
  | .object [(name, .null)] => ofName? name
  | _ => none

instance : Wire Bool where
  encode := .bool
  decode?
    | .bool b => some b
    | _ => none

instance : Wire String where
  encode := .string
  decode?
    | .string s => some s
    | _ => none

instance : Wire Nat where
  encode n := .int n
  decode?
    | .int n => if 0 ≤ n then some n.toNat else none
    | _ => none

instance : Wire UInt32 where
  encode n := .int n.toNat
  decode?
    | .int n => if 0 ≤ n && n < 2 ^ 32 then some (UInt32.ofNat n.toNat) else none
    | _ => none

instance : Wire UInt64 where
  encode n := .int n.toNat
  decode?
    | .int n => if 0 ≤ n && n < 2 ^ 64 then some (UInt64.ofNat n.toNat) else none
    | _ => none

instance : Wire Int64 where
  encode n := .int n.toInt
  decode?
    | .int n => if -(2 ^ 63) ≤ n && n < 2 ^ 63 then some (Int64.ofInt n) else none
    | _ => none

/-- The binary64 nearest to an integer of the range of the 64-bit integers. -/
def Json.floatOfInt (n : Int) : Float :=
  let magnitude := (UInt64.ofNat n.natAbs).toFloat
  if n < 0 then -magnitude else magnitude

/-- A number field takes integers too. -/
instance : Wire Float where
  encode := Json.ofFloat
  decode?
    | .float x => some x
    | .int n => some (Json.floatOfInt n)
    | _ => none

instance {α : Type} [Wire α] : Wire (List α) where
  encode items := .array (items.map encode)
  decode?
    | .array items => items.mapM decode?
    | _ => none

/-- A value that may be missing is `null` where a field for it is written all the same. -/
instance {α : Type} [Wire α] : Wire (Option α) where
  encode
    | some value => encode value
    | none => .null
  decode?
    | .null => some none
    | value => (decode? value).map some

@[simp] theorem decode?_encode_bool (b : Bool) : decode? (encode b) = some b := rfl

@[simp] theorem decode?_encode_string (s : String) : decode? (encode s) = some s := rfl

@[simp] theorem decode?_encode_nat (n : Nat) : decode? (encode n) = some n := by
  simp [encode, decode?]

@[simp] theorem decode?_encode_uint32 (n : UInt32) : decode? (encode n) = some n := by
  have := n.toNat_lt
  simp [encode, decode?]
  omega

@[simp] theorem decode?_encode_uint64 (n : UInt64) : decode? (encode n) = some n := by
  have := n.toNat_lt
  simp [encode, decode?]
  omega

@[simp] theorem decode?_encode_int64 (n : Int64) : decode? (encode n) = some n := by
  have := n.le_toInt
  have := n.toInt_lt
  simp [encode, decode?]
  omega

theorem decode?_encode_float {x : Float} (h : x.isFinite = true) : decode? (encode x) = some x := by
  simp [encode, decode?, Json.ofFloat, h]

end CircuitBench
