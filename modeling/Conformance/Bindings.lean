namespace Conformance

-- Names bound to values, in the order in which they were first bound. Binding a
-- name again replaces its value and leaves it in its place.
structure Bindings (α : Type) where
  entries : List (String × α)
deriving DecidableEq

namespace Bindings

variable {α : Type}

def empty : Bindings α := ⟨[]⟩

instance : EmptyCollection (Bindings α) := ⟨empty⟩

instance : Inhabited (Bindings α) := ⟨empty⟩

def isEmpty (b : Bindings α) : Bool := b.entries.isEmpty

def find (name : String) : List (String × α) → Option α
  | [] => none
  | (key, value) :: rest => if key = name then some value else find name rest

def put (name : String) (value : α) : List (String × α) → List (String × α)
  | [] => [(name, value)]
  | (key, old) :: rest =>
      if key = name then (key, value) :: rest else (key, old) :: put name value rest

def get? (b : Bindings α) (name : String) : Option α := find name b.entries

def contains (b : Bindings α) (name : String) : Bool := (b.get? name).isSome

def insert (b : Bindings α) (name : String) (value : α) : Bindings α :=
  ⟨put name value b.entries⟩

-- A name that is already bound keeps its value.
def insertIfNew (b : Bindings α) (name : String) (value : α) : Bindings α :=
  if b.contains name then b else b.insert name value

def ofList (entries : List (String × α)) : Bindings α :=
  entries.foldl (fun b entry => b.insert entry.1 entry.2) empty

def names (b : Bindings α) : List String := b.entries.map Prod.fst

@[simp] theorem get?_empty (name : String) : (empty : Bindings α).get? name = none := rfl

theorem find_put (name other : String) (value : α) (entries : List (String × α)) :
    find other (put name value entries) =
      if name = other then some value else find other entries := by
  induction entries with
  | nil => simp [put, find]
  | cons entry rest ih =>
      obtain ⟨key, old⟩ := entry
      by_cases hk : key = name
      · subst hk
        by_cases ho : key = other <;> simp [put, find, ho]
      · by_cases ho : key = other
        · subst ho
          simp [put, find, hk, Ne.symm hk]
        · simp [put, find, hk, ho, ih]

@[simp] theorem get?_insert (b : Bindings α) (name other : String) (value : α) :
    (b.insert name value).get? other = if name = other then some value else b.get? other :=
  find_put name other value b.entries

end Bindings

end Conformance
