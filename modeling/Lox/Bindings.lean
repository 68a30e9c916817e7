/-!
# Bindings

A finite table from names to values: the variables of one scope, the fields of an instance, the
methods of a class. A name is bound at most once, and binding it again replaces its value.
-/

namespace Lox

/-- A table from names to values. -/
structure Bindings (α : Type) where
  entries : List (String × α)
  deriving Repr

namespace Bindings

variable {α β : Type}

/-- The value of the first entry with this name. -/
def find? (name : String) : List (String × α) → Option α
  | [] => none
  | (key, value) :: rest => if key = name then some value else find? name rest

/-- Replaces the value of the first entry with this name; without one, adds an entry. -/
def put (name : String) (value : α) : List (String × α) → List (String × α)
  | [] => [(name, value)]
  | (key, old) :: rest =>
    if key = name then (key, value) :: rest else (key, old) :: put name value rest

/-- No name is bound. -/
def empty : Bindings α := ⟨[]⟩

instance : Inhabited (Bindings α) := ⟨empty⟩

/-- The value bound to a name. -/
def get? (b : Bindings α) (name : String) : Option α := find? name b.entries

/-- The name is bound. -/
def contains (b : Bindings α) (name : String) : Bool := (b.get? name).isSome

/-- Binds a name, in place of its value so far. -/
def insert (b : Bindings α) (name : String) (value : α) : Bindings α :=
  ⟨put name value b.entries⟩

/-- The number of names bound. -/
def size (b : Bindings α) : Nat := b.entries.length

/-- The names bound. -/
def names (b : Bindings α) : List String := b.entries.map Prod.fst

/-- Binds the names of a list in order, so that the last one of a name counts. -/
def ofList (entries : List (String × α)) : Bindings α :=
  entries.foldl (fun b e => b.insert e.1 e.2) empty

theorem find?_put_self (name : String) (value : α) (entries : List (String × α)) :
    find? name (put name value entries) = some value := by
  induction entries with
  | nil => simp [put, find?]
  | cons e rest ih => by_cases h : e.1 = name <;> simp [put, find?, h, ih]

theorem find?_put_of_ne {name other : String} (ne : other ≠ name) (value : α)
    (entries : List (String × α)) :
    find? other (put name value entries) = find? other entries := by
  induction entries with
  | nil => simp [put, find?, Ne.symm ne]
  | cons e rest ih =>
    by_cases h : e.1 = name
    · simp [put, find?, h, Ne.symm ne]
    · simp only [put, h, if_false, find?, ih]

@[simp] theorem get?_empty (name : String) : (empty : Bindings α).get? name = none := rfl

@[simp] theorem get?_insert_self (b : Bindings α) (name : String) (value : α) :
    (b.insert name value).get? name = some value :=
  find?_put_self name value b.entries

theorem get?_insert_of_ne (b : Bindings α) {name other : String} (ne : other ≠ name) (value : α) :
    (b.insert name value).get? other = b.get? other :=
  find?_put_of_ne ne value b.entries

theorem get?_insert (b : Bindings α) (name other : String) (value : α) :
    (b.insert name value).get? other = if other = name then some value else b.get? other := by
  split
  · next h => subst h; exact get?_insert_self b other value
  · next h => exact get?_insert_of_ne b h value

/-- Where one name is bound, no other is found. -/
theorem get?_insert_empty {name other : String} {value found : α} :
    (empty.insert name value).get? other = some found ↔ other = name ∧ found = value := by
  rw [get?_insert, get?_empty]
  split
  · next same => simp [same, eq_comm]
  · next ne => simp [ne]

theorem contains_insert (b : Bindings α) (name other : String) (value : α) :
    (b.insert name value).contains other = (decide (other = name) || b.contains other) := by
  rw [contains, get?_insert, contains]
  by_cases h : other = name <;> simp [h]

end Bindings

end Lox
