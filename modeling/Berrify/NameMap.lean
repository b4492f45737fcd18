/-!
# Maps keyed by names

`NameMap α` is a finite map from text to `α`, kept as a list of pairs in the order in which the
keys were first put in. `NameMap.get?` looks a name up and `NameMap.put` binds it, replacing an
earlier binding in place; `NameMap.get?_put` says that these two fit together.
-/

namespace Berrify

/-- A finite map from names, in the order of first insertion. -/
structure NameMap (α : Type) where
  entries : List (String × α) := []
deriving Repr, DecidableEq

namespace NameMap

variable {α : Type}

/-- The map without entries. -/
def empty : NameMap α := ⟨[]⟩

instance : Inhabited (NameMap α) := ⟨empty⟩

/-- The value bound to a name. -/
def get? (m : NameMap α) (name : String) : Option α :=
  m.entries.lookup name

/-- Whether a name is bound. -/
def contains (m : NameMap α) (name : String) : Bool :=
  (m.get? name).isSome

/-- Binds a name in a list of pairs : in place if the name is there, else at the end. -/
def putEntry (name : String) (value : α) : List (String × α) → List (String × α)
  | [] => [(name, value)]
  | (other, old) :: rest =>
    if name == other then (name, value) :: rest else (other, old) :: putEntry name value rest

/-- Binds a name. -/
def put (m : NameMap α) (name : String) (value : α) : NameMap α :=
  ⟨putEntry name value m.entries⟩

/-- Binds the names of a list of pairs in turn, so that a later pair wins. -/
def putAll (m : NameMap α) (pairs : List (String × α)) : NameMap α :=
  pairs.foldl (fun acc pair => acc.put pair.1 pair.2) m

/-- The map that holds the given pairs, of which a later one wins. -/
def ofList (pairs : List (String × α)) : NameMap α :=
  empty.putAll pairs

/-- The bound names. -/
def keys (m : NameMap α) : List String :=
  m.entries.map Prod.fst

/-- Whether nothing is bound. -/
def isEmpty (m : NameMap α) : Bool :=
  m.entries.isEmpty

@[simp] theorem get?_empty (name : String) : (empty : NameMap α).get? name = none := rfl

theorem lookup_putEntry (name other : String) (value : α) (entries : List (String × α)) :
    (putEntry name value entries).lookup other =
      if other == name then some value else entries.lookup other := by
  induction entries with
  | nil => by_cases h : other = name <;> simp [putEntry, List.lookup_cons, h, beq_false_of_ne]
  | cons entry rest ih =>
    obtain ⟨key, old⟩ := entry
    by_cases hk : name = key
    · subst hk
      by_cases ho : other = name <;> simp [putEntry, List.lookup_cons, ho, beq_false_of_ne]
    · by_cases ho : other = key
      · simp [putEntry, hk, ho, Ne.symm hk]
      · simp [putEntry, List.lookup_cons, hk, beq_false_of_ne ho, ih]

/-- After a name is bound, it has the new value and every other name its old one. -/
theorem get?_put (m : NameMap α) (name other : String) (value : α) :
    (m.put name value).get? other = if other == name then some value else m.get? other :=
  lookup_putEntry name other value m.entries

@[simp] theorem get?_put_self (m : NameMap α) (name : String) (value : α) :
    (m.put name value).get? name = some value := by
  simp [get?_put]

end NameMap

end Berrify
