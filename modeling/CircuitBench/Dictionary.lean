/-!
# Dictionaries in the order of their keys

A dictionary keeps its entries in ascending order of their keys, by the code points of
the characters, which is also the order of their UTF-8 bytes. Because the order is part
of the type, two dictionaries with the same entries are equal, however they came about.
-/

namespace CircuitBench

/-- Values by key, in ascending order of the keys. -/
structure Dictionary (β : Type) where
  entries : List (String × β)
  sorted : entries.Pairwise fun a b => a.1 < b.1

namespace Dictionary

variable {β : Type}

def empty : Dictionary β := ⟨[], List.Pairwise.nil⟩

instance : Inhabited (Dictionary β) := ⟨empty⟩

theorem ext_iff {d e : Dictionary β} : d = e ↔ d.entries = e.entries := by
  cases d
  cases e
  simp

instance [DecidableEq β] : DecidableEq (Dictionary β) := fun d e =>
  if h : d.entries = e.entries then isTrue (ext_iff.2 h) else isFalse fun f => h (ext_iff.1 f)

/-- Entries with one for `key` put into its place. If there is one already, `merge` makes one
value of the old and the new. -/
def put (merge : β → β → β) (key : String) (value : β) : List (String × β) → List (String × β)
  | [] => [(key, value)]
  | (other, old) :: rest =>
    if key < other then (key, value) :: (other, old) :: rest
    else if key = other then (other, merge old value) :: rest
    else (other, old) :: put merge key value rest

theorem mem_put {merge : β → β → β} {key : String} {value : β} {entries : List (String × β)}
    {entry : String × β} (h : entry ∈ put merge key value entries) :
    entry.1 = key ∨ ∃ found ∈ entries, found.1 = entry.1 := by
  induction entries with
  | nil => simp_all [put]
  | cons head rest ih =>
    unfold put at h
    grind

theorem put_sorted {merge : β → β → β} {key : String} {value : β} {entries : List (String × β)}
    (h : entries.Pairwise fun a b => a.1 < b.1) :
    (put merge key value entries).Pairwise fun a b => a.1 < b.1 := by
  induction entries with
  | nil => simp [put]
  | cons head rest ih =>
    obtain ⟨other, old⟩ := head
    obtain ⟨first, later⟩ := List.pairwise_cons.1 h
    unfold put
    split
    · rename_i less
      refine List.pairwise_cons.2 ⟨fun entry m => ?_, h⟩
      rcases List.mem_cons.1 m with rfl | m
      · exact less
      · exact String.lt_trans less (first entry m)
    · rename_i notLess
      split
      · exact List.pairwise_cons.2 ⟨first, later⟩
      · rename_i notEqual
        have greater : other < key := by
          rcases Classical.em (other < key) with g | g
          · exact g
          · exact absurd (String.le_antisymm (String.not_lt.1 g) (String.not_lt.1 notLess)) notEqual
        refine List.pairwise_cons.2 ⟨fun entry m => ?_, ih later⟩
        rcases mem_put m with e | ⟨found, mf, e⟩
        · exact e ▸ greater
        · exact e ▸ first found mf

/-- The dictionary with a value for `key`; `merge` makes one value of an old one and the new. -/
def insertWith (merge : β → β → β) (key : String) (value : β) (d : Dictionary β) : Dictionary β :=
  ⟨put merge key value d.entries, put_sorted d.sorted⟩

/-- The dictionary with a value for `key` that replaces an old one. -/
def insert (d : Dictionary β) (key : String) (value : β) : Dictionary β :=
  d.insertWith (fun _ new => new) key value

def get? (d : Dictionary β) (key : String) : Option β :=
  d.entries.lookup key

def size (d : Dictionary β) : Nat :=
  d.entries.length

@[simp] theorem entries_empty : (empty : Dictionary β).entries = [] := rfl

@[simp] theorem get?_empty (key : String) : (empty : Dictionary β).get? key = none := rfl

theorem lookup_put (merge : β → β → β) (key : String) (value : β)
    {entries : List (String × β)} (sorted : entries.Pairwise fun a b => a.1 < b.1)
    (other : String) :
    (put merge key value entries).lookup other =
      if other = key then some (((entries.lookup key).map (merge · value)).getD value)
      else entries.lookup other := by
  induction entries with
  | nil =>
    by_cases h : other = key
    · simp [put, h]
    · have : (other == key) = false := by simpa using h
      simp [put, List.lookup_cons, this, h]
  | cons head rest ih =>
    obtain ⟨name, old⟩ := head
    obtain ⟨first, later⟩ := List.pairwise_cons.1 sorted
    unfold put
    split
    · rename_i less
      have missing : ((name, old) :: rest).lookup key = none := by
        rw [List.lookup_eq_none_iff]
        intro entry m
        have : key < entry.1 := by
          rcases List.mem_cons.1 m with rfl | m
          · exact less
          · exact String.lt_trans less (first entry m)
        simpa using fun e => String.lt_irrefl _ (e ▸ this)
      by_cases h : other = key
      · subst h
        rw [missing]
        simp
      · have : (other == key) = false := by simpa using h
        simp [h, List.lookup_cons, this]
    · split
      · rename_i equal
        subst equal
        by_cases h : other = key
        · simp [h]
        · have : (other == key) = false := by simpa using h
          simp [List.lookup_cons, this, h]
      · rename_i notEqual
        have apart : (key == name) = false := by simpa using notEqual
        by_cases h : other = name
        · subst h
          have : ¬other = key := fun e => notEqual e.symm
          simp [this]
        · have : (other == name) = false := by simpa using h
          simp only [List.lookup_cons, this, apart]
          exact ih later

/-- What a dictionary holds after a value has been put in, key by key. -/
theorem get?_insertWith (merge : β → β → β) (d : Dictionary β) (key : String) (value : β)
    (other : String) :
    (d.insertWith merge key value).get? other =
      if other = key then some (((d.get? key).map (merge · value)).getD value)
      else d.get? other :=
  lookup_put merge key value d.sorted other

end Dictionary

end CircuitBench
