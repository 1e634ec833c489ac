import TypedData.Value.Collection
import TypedData.Wire.Error
import TypedData.Limits

/-!
# Members of decoded containers

Keys on the wire are brought into composed form, and two keys that agree in that form are
refused. The members of a container have been decoded one by one when it is put together; the
first failure counts, for maps in the order of keys and for objects in the order of
declaration.

## Main definitions

* `Wire.distinctKeys` — keys in composed form
* `Wire.mapOf`, `Wire.objectOf` — a map or object from its decoded members
-/

namespace TypedData.Wire

/-- A member by its key, decoded or not. -/
abbrev Member := String × Except DecodeFailure Value

/-- Keys in composed form. `seen` holds those before. -/
def distinctKeys (seen : List String) :
    List (Except DecodeReason String) → Except DecodeReason (List String)
  | [] => .ok []
  | .error e :: _ => .error e
  | .ok k :: rest =>
    let key := Text.nfc k
    if seen.contains key then .error (.duplicateKey key)
    else (distinctKeys (key :: seen) rest).map (key :: ·)

/-- Members in key order. -/
def sortMembers {α : Type} (members : List (String × α)) : List (String × α) :=
  members.mergeSort fun a b => decide (a.1 ≤ b.1)

/-- A map of its members. -/
def mapOf (ty : Ty) (members : List Member) : Except DecodeFailure Value :=
  (Ty.firstError ((sortMembers members).map fun (k, r) =>
    (k, r.mapError (·.inside (.key k))))).map (Value.mapping ty)

/-- The least key that is not declared. -/
def undeclared? (attrs : List (Attr Ty)) (keys : List String) : Option String :=
  ((keys.mergeSort fun a b => decide (a ≤ b)).filter fun k =>
    (Attr.find? attrs k).isNone).head?

/-- The attributes in the order of declaration. An attribute that is not there is null. -/
def attributesOf (attrs : List (Attr Ty)) (members : List Member) : List Member :=
  attrs.map fun a =>
    (a.name,
      match members.find? (·.1 == a.name) with
      | some (_, r) => r.mapError (·.inside (.attr a.name))
      -- The wire may leave out any attribute, optional or not.
      | none => .ok (.null a.ty))

/-- An object of its members, all of which are declared. -/
def objectOf (ty : Ty) (attrs : List (Attr Ty)) (members : List Member) :
    Except DecodeFailure Value :=
  (Ty.firstError (attributesOf attrs members)).map fun es => Value.mapping ty (sortMembers es)

/-- The type of a member's slot. -/
def attrType (attrs : List (Attr Ty)) (key : String) : Ty :=
  ((Attr.find? attrs key).map (·.ty)).getD .dynamic

end TypedData.Wire
