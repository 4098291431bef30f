import CircuitBench.Wire.Backend
import CircuitBench.Wire.Circuit
import Mathlib

/-!
# What may be sent in the place of a value

Members of an object have no order, and a record ignores members it does not know. So the same value
can be sent in several forms, at any depth: as an array of the forms of its items, or as an object
with forms of its members in another order and among others. A record that reads its members by name
finds the same ones in all of these forms.
-/

namespace CircuitBench.Json

/-- Which values may be sent in the place of a value. The value itself always may, and nothing but
`null` may be sent in the place of `null`. -/
structure Variation where
  Permits : Json → Json → Prop
  refl : ∀ value, Permits value value
  null : ∀ sent, Permits .null sent → sent = .null

namespace Variation

def unchanged : Variation where
  Permits value sent := sent = value
  refl _ := rfl
  null _ same := same

inductive ItemsPermit (item : Variation) : Json → Json → Prop
  | same (value : Json) : ItemsPermit item value value
  | array {items sent : List Json} (each : List.Forall₂ item.Permits items sent) :
    ItemsPermit item (.array items) (.array sent)

def items (item : Variation) : Variation where
  Permits := ItemsPermit item
  refl := .same
  null sent permitted := by
    cases permitted
    rfl

inductive TablePermits : Json → Json → Prop
  | same (value : Json) : TablePermits value value
  | object {fields sent : List (String × Json)} (order : sent.Perm fields) :
    TablePermits (.object fields) (.object sent)

def table : Variation where
  Permits := TablePermits
  refl := .same
  null sent permitted := by
    cases permitted
    rfl

/-- An object that keeps the members, each under its name, in any order and among others under names
that the record does not know. -/
inductive RecordPermits (known : List (String × Variation)) : Json → Json → Prop
  | same (value : Json) : RecordPermits known value value
  | object {fields kept added sent : List (String × Json)}
    (each : List.Forall₂ (fun field other => other.1 = field.1 ∧
      ∀ form, (field.1, form) ∈ known → form.Permits field.2 other.2) fields kept)
    (unknown : ∀ field ∈ added, field.1 ∉ known.map Prod.fst)
    (order : sent.Perm (kept ++ added)) :
    RecordPermits known (.object fields) (.object sent)

def record (known : List (String × Variation)) : Variation where
  Permits := RecordPermits known
  refl := .same
  null sent permitted := by
    cases permitted
    rfl

/-- Under every name that a record knows, the same members are found up to their order and form. -/
def Carries (known : List (String × Variation)) (fields sent : List (String × Json)) : Prop :=
  ∀ name form, (name, form) ∈ known → ∃ kept,
    List.Forall₂ (fun field other => other.1 = name ∧ form.Permits field.2 other.2)
      (fields.filter (·.1 = name)) kept ∧
    (sent.filter (·.1 = name)).Perm kept

variable {known : List (String × Variation)} {fields sent : List (String × Json)} {value : Json}

theorem exists_carries (permitted : (record known).Permits (.object fields) value) :
    ∃ sent, value = .object sent ∧ Carries known fields sent := by
  cases permitted with
  | same =>
    refine ⟨fields, rfl, fun name form _ => ⟨_, List.forall₂_same.mpr ?_, .refl _⟩⟩
    intro field member
    exact ⟨of_decide_eq_true (List.mem_filter.mp member).2, form.refl _⟩
  | @object _ kept added sent each unknown order =>
    refine ⟨sent, rfl, fun name form here => ⟨kept.filter (·.1 = name), ?_, ?_⟩⟩
    · clear order
      induction each with
      | nil => exact .nil
      | @cons field other _ _ first rest ih =>
        rw [List.filter_cons, List.filter_cons, first.1]
        by_cases same : field.1 = name
        · rw [if_pos (decide_eq_true same), if_pos (decide_eq_true same)]
          exact .cons ⟨first.1.trans same, first.2 form (same ▸ here)⟩ ih
        · rwa [if_neg (by simpa using same), if_neg (by simpa using same)]
    · have none : added.filter (·.1 = name) = [] := by
        refine List.filter_eq_nil_iff.mpr fun field member same => unknown field member ?_
        exact List.mem_map.mpr ⟨(name, form), here, (of_decide_eq_true same).symm⟩
      have kept_or_added := order.filter (·.1 = name)
      rwa [List.filter_append, none, List.append_nil] at kept_or_added

end Variation

end CircuitBench.Json

namespace CircuitBench

open Json

/-- What is known of the JSON forms of a type: which values may be sent in the place of the form of
a value, and of which values all numbers have a form. -/
class Sendable (α : Type) where
  variation : Variation
  AllFinite : α → Prop := fun _ => True

export Sendable (variation AllFinite)

/-- Whatever is sent in the place of a value is read as the value. -/
class Stable (α : Type) [Wire α] [Sendable α] : Prop where
  decode?_of_permits : ∀ value : α, AllFinite value → ∀ sent,
    (variation α).Permits (encode value) sent → decode? sent = some value

class NeverNull (α : Type) [Wire α] : Prop where
  decode?_null : decode? .null = (none : Option α)

/-- Any value can be sent and read again, also in the other forms that it may be sent in. -/
def RoundTrips (α : Type) [Wire α] [Sendable α] : Prop :=
  ∀ value : α, AllFinite value → decode? (encode value) = some value ∧
    ∀ sent, (variation α).Permits (encode value) sent → decode? sent = some value

theorem Stable.roundTrips (α : Type) [Wire α] [Sendable α] [Stable α] : RoundTrips α := by
  intro value finite
  have stable := Stable.decode?_of_permits value finite
  exact ⟨stable _ ((variation α).refl _), stable⟩

section Values

/-- A type whose values are sent in one form only. -/
theorem Stable.of_unchanged {α : Type} [Wire α] [Sendable α] (one : variation α = .unchanged)
    (read : ∀ value : α, AllFinite value → decode? (encode value) = some value) : Stable α := by
  refine ⟨fun value finite sent permitted => ?_⟩
  rw [one] at permitted
  rw [show sent = encode value from permitted]
  exact read value finite

instance : Sendable Bool := { variation := .unchanged }
instance : Sendable String := { variation := .unchanged }
instance : Sendable Nat := { variation := .unchanged }
instance : Sendable UInt32 := { variation := .unchanged }
instance : Sendable UInt64 := { variation := .unchanged }
instance : Sendable Int64 := { variation := .unchanged }
instance : Sendable Float := { variation := .unchanged, AllFinite := fun x => x.isFinite = true }
instance : Sendable Gate := { variation := .unchanged }
instance : Sendable Generation := { variation := .unchanged }
instance : Sendable Preference := { variation := .unchanged }

instance : Stable Bool := .of_unchanged rfl fun b _ => decode?_encode_bool b
instance : Stable String := .of_unchanged rfl fun s _ => decode?_encode_string s
instance : Stable Nat := .of_unchanged rfl fun n _ => decode?_encode_nat n
instance : Stable UInt32 := .of_unchanged rfl fun n _ => decode?_encode_uint32 n
instance : Stable UInt64 := .of_unchanged rfl fun n _ => decode?_encode_uint64 n
instance : Stable Int64 := .of_unchanged rfl fun n _ => decode?_encode_int64 n
instance : Stable Float := .of_unchanged rfl fun _ finite => decode?_encode_float finite
instance : Stable Gate := .of_unchanged rfl fun gate _ => Gate.ofTypeName?_typeName gate
instance : Stable Generation := .of_unchanged rfl fun g _ => Generation.ofKey?_key g
instance : Stable Preference := .of_unchanged rfl fun p _ => Preference.ofName?_name p

end Values

section Collections

variable {α : Type} [Wire α] [Sendable α]

instance : Sendable (List α) where
  variation := .items (variation α)
  AllFinite items := ∀ item ∈ items, AllFinite item

instance : Sendable (Array α) where
  variation := .items (variation α)
  AllFinite items := ∀ item ∈ items, AllFinite item

instance : Sendable (Option α) where
  variation := variation α
  AllFinite value := ∀ v ∈ value, AllFinite v

variable [Stable α]

theorem mapM_decode?_of_forall₂ {items : List α} {sent : List Json}
    (finite : ∀ item ∈ items, AllFinite item)
    (each : List.Forall₂ (variation α).Permits (items.map encode) sent) :
    sent.mapM decode? = some items := by
  induction items generalizing sent with
  | nil =>
    cases each
    rfl
  | cons item rest ih =>
    obtain _ | ⟨first, later⟩ := each
    have here := Stable.decode?_of_permits item (finite item List.mem_cons_self) _ first
    rw [List.mapM_cons, here, ih (fun other member => finite other (.tail _ member)) later]
    rfl

instance : Stable (List α) where
  decode?_of_permits items finite sent permitted := by
    change Variation.ItemsPermit (variation α) (.array (items.map encode)) sent at permitted
    have each : ∃ found, sent = .array found ∧
        List.Forall₂ (variation α).Permits (items.map encode) found := by
      cases permitted with
      | same => exact ⟨_, rfl, List.forall₂_same.mpr fun item _ => (variation α).refl item⟩
      | array each => exact ⟨_, rfl, each⟩
    obtain ⟨found, rfl, each⟩ := each
    exact mapM_decode?_of_forall₂ finite each

instance : Stable (Array α) where
  decode?_of_permits items finite sent permitted := by
    have each : ∀ item ∈ items.toList, AllFinite item :=
      fun item member => finite item (by simpa using member)
    have listed : decode? sent = some items.toList :=
      Stable.decode?_of_permits items.toList each sent permitted
    change (decode? sent : Option (List α)).map List.toArray = some items
    rw [listed, Option.map_some, Array.toArray_toList]

instance [NeverNull α] : Stable (Option α) where
  decode?_of_permits value? finite sent permitted := by
    cases value? with
    | none =>
      rw [(variation α).null sent permitted]
      rfl
    | some value =>
      have read := Stable.decode?_of_permits value (finite value rfl) sent permitted
      have not_null : sent ≠ .null := by
        rintro rfl
        rw [NeverNull.decode?_null] at read
        cases read
      cases sent with
      | null => exact absurd rfl not_null
      | _ =>
        change (decode? _).map some = _
        rw [read]
        rfl

end Collections

section Records

namespace Json.Record

variable {α β : Type}

@[simp] theorem pure_apply (value : α) (fields : Fields) :
    (pure value : Record α) fields = some (value, fields) := rfl

@[simp] theorem bind_apply (record : Record α) (next : α → Record β) (fields : Fields) :
    (record >>= next) fields = (record fields).bind fun read => next read.1 read.2 := rfl

@[simp] theorem map_apply (f : α → β) (record : Record α) (fields : Fields) :
    (f <$> record) fields = (record fields).map fun read => (f read.1, read.2) := by
  change (record fields).bind _ = _
  cases record fields <;> rfl

@[simp] theorem lift_apply (value? : Option α) (fields : Fields) :
    (StateT.lift value? : Record α) fields = value?.map fun value => (value, fields) := by
  cases value? <;> rfl

@[simp] theorem read?_object (record : Record α) (fields : List (String × Json)) :
    read? record (.object fields) = (record (.named fields)).map (·.1) := rfl

end Json.Record

variable {α : Type} [Wire α] {name : String}

@[simp] theorem filter_member (name other : String) (value : α) :
    (member name value).filter (·.1 = other) = if name = other then member name value else [] := by
  by_cases same : name = other <;> simp [member, same]

@[simp] theorem filter_memberIfSome (name other : String) (value? : Option α) :
    (memberIfSome name value?).filter (·.1 = other) =
      if name = other then memberIfSome name value? else [] := by
  cases value? with
  | none => simp [memberIfSome]
  | some value => exact filter_member name other value

variable [Sendable α] [Stable α] {known : List (String × Variation)}
  {fields sent : List (String × Json)} (carries : Variation.Carries known fields sent)

include carries

/-- A member that was written is found, in a form that is read as its value. -/
theorem exists_member (here : (name, variation α) ∈ known) {value : α}
    (written : fields.filter (·.1 = name) = member name value) (finite : AllFinite value) :
    ∃ found, Record.field name (.named sent) = some (some found, .named sent) ∧
      decode? found = some value := by
  obtain ⟨kept, each, order⟩ := carries name _ here
  rw [written] at each
  obtain _ | ⟨⟨rfl, form⟩, _ | _⟩ := each
  have only := List.perm_singleton.mp order
  refine ⟨_, ?_, Stable.decode?_of_permits value finite _ form⟩
  rw [Record.field, only]

theorem required_eq (name : String) (value : α) (here : (name, variation α) ∈ known)
    (written : fields.filter (·.1 = name) = member name value) (finite : AllFinite value) :
    Record.required name (.named sent) = some (value, .named sent) := by
  obtain ⟨found, at_name, read⟩ := exists_member carries here written finite
  simp [Record.required, at_name, read]

/-- A member that was written is found, and instead of one that was not, its default. -/
theorem withDefault_eq_getD (name : String) (value? : Option α) (default : α)
    (here : (name, variation α) ∈ known)
    (written : fields.filter (·.1 = name) = memberIfSome name value?)
    (finite : ∀ value ∈ value?, AllFinite value) :
    Record.withDefault name default (.named sent) =
      some (value?.getD default, .named sent) := by
  cases value? with
  | none =>
    obtain ⟨kept, each, order⟩ := carries name _ here
    rw [written] at each
    cases each
    have none := List.perm_nil.mp order
    simp [Record.withDefault, Record.field, none]
  | some value =>
    obtain ⟨found, at_name, read⟩ := exists_member carries here written (finite value rfl)
    simp [Record.withDefault, at_name, read]

theorem withDefault_eq (name : String) (value default : α) (here : (name, variation α) ∈ known)
    (written : fields.filter (·.1 = name) = member name value) (finite : AllFinite value) :
    Record.withDefault name default (.named sent) = some (value, .named sent) :=
  withDefault_eq_getD carries name (some value) default here written
    fun _ same => Option.some.inj same ▸ finite

/-- What may be missing, and is left out then, has no default of its own. -/
theorem withDefault_none_eq [NeverNull α] (name : String) (value? : Option α)
    (here : (name, variation α) ∈ known)
    (written : fields.filter (·.1 = name) = memberIfSome name value?)
    (finite : ∀ value ∈ value?, AllFinite value) :
    Record.withDefault name none (.named sent) = some (value?, .named sent) := by
  cases value? with
  | none =>
    exact withDefault_eq_getD carries name (none : Option (Option α)) none here written nofun
  | some value => exact withDefault_eq carries name (some value) none here written finite

end Records

end CircuitBench
