/-!
# Entries in key order

Maps and objects hold their entries in increasing order of keys. Inserting keeps the order, and
a key that is present takes the new value.

## Main definitions

* `Entries` — pairs of a key and a value
* `Entries.insert` — sets the value of a key
* `Entries.ofList` — the entries of a list of pairs, later pairs winning
-/

namespace TypedData

/-- Pairs of a key and a value. -/
abbrev Entries (α : Type) := List (String × α)

namespace Entries

variable {α : Type}

/-- The value of a key. -/
def get? (entries : Entries α) (key : String) : Option α :=
  (entries.find? (·.1 == key)).map (·.2)

/-- Whether a key is present. -/
def hasKey (entries : Entries α) (key : String) : Bool := entries.any (·.1 == key)

/-- Sets the value of a key, at its place in the order. -/
def insert (entries : Entries α) (key : String) (value : α) : Entries α :=
  match entries with
  | [] => [(key, value)]
  | (k, v) :: rest =>
    if key < k then (key, value) :: (k, v) :: rest
    else if key = k then (k, value) :: rest
    else (k, v) :: insert rest key value

/-- The entries of a list of pairs, in key order. -/
def ofList (pairs : List (String × α)) : Entries α :=
  pairs.foldl (fun entries (k, v) => entries.insert k v) []

end Entries

end TypedData
