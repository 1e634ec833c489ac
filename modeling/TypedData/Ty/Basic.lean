import TypedData.Capsule
import TypedData.Text.NormalForm

/-!
# Types

A closed algebra of shapes: primitives, collections of one element type, tuples, objects with
declared attributes, capsules, and `dynamic`, which stands for any type at all.

## Main definitions

* `Ty` — types
* `Ty.ofAttributes`, `Ty.ofAttributesWithOptional` — object types from declarations
* `Ty.same` — equality of types, which ignores the order of declarations
* `Ty.usableAs` — whether values of one type can stand where another is asked for
-/

namespace TypedData

/-- An attribute of an object type. -/
structure Attr (α : Type) where
  name : String
  ty : α
  /-- Whether the attribute may be left out. -/
  isOptional : Bool
deriving Repr, Inhabited

/-- A type. -/
inductive Ty where
  | bool
  | number
  | string
  /-- Any type, decided by the value. -/
  | dynamic
  | list (elem : Ty)
  | set (elem : Ty)
  | map (elem : Ty)
  | tuple (elems : List Ty)
  /-- Attributes in the order of declaration, with distinct names in composed form. -/
  | object (attrs : List (Attr Ty))
  | capsule (kind : CapsuleType)
deriving Repr, Inhabited

namespace Attr

variable {α : Type}

/-- The attribute of a name. -/
def find? (attrs : List (Attr α)) (name : String) : Option (Attr α) :=
  attrs.find? (·.name == name)

/-- The attribute of a name in either form; attributes have their names in composed form. -/
def lookup? (attrs : List (Attr α)) (name : String) : Option (Attr α) :=
  find? attrs (Text.nfc name)

/-- Declares a required attribute: a repeated name keeps its place and takes the new type. -/
def declare (attrs : List (Attr α)) (name : String) (ty : α) : List (Attr α) :=
  match attrs with
  | [] => [⟨name, ty, false⟩]
  | a :: rest =>
    if a.name = name then ⟨a.name, ty, a.isOptional⟩ :: rest else a :: declare rest name ty

/-- Makes an attribute optional. -/
def allowOmission (attrs : List (Attr α)) (name : String) : List (Attr α) :=
  attrs.map fun a => if a.name = name then ⟨a.name, a.ty, true⟩ else a

/-- The names in order, as every wire format has them. -/
def sortedNames (attrs : List (Attr α)) : List String :=
  (attrs.map (·.name)).mergeSort fun a b => decide (a ≤ b)

/-- The names of optional attributes, in order. -/
def optionalNames (attrs : List (Attr α)) : List String :=
  sortedNames (attrs.filter (·.isOptional))

end Attr

namespace Ty

/-! ### Object types -/

/-- An object type whose attributes are all required. Names are taken in composed form. -/
def ofAttributes (attrs : List (String × Ty)) : Ty :=
  .object (attrs.foldl (fun as (name, ty) => Attr.declare as (Text.nfc name) ty) [])

/-- An optional attribute that an object type does not declare. -/
structure UnknownOptional where
  name : String
deriving Repr, DecidableEq, Inhabited

/-- The wording of the error. -/
def UnknownOptional.message (e : UnknownOptional) : String :=
  "optional attribute " ++ Text.quoted e.name ++ " is not an attribute of the object type"

/-- An object type with some attributes optional. Each of them must be declared. -/
def ofAttributesWithOptional (attrs : List (String × Ty)) (optional : List String) :
    Except UnknownOptional Ty :=
  let declared := attrs.foldl (fun as (name, ty) => Attr.declare as (Text.nfc name) ty) []
  let names := optional.map Text.nfc
  match names.find? fun name => (Attr.find? declared name).isNone with
  | some name => .error ⟨name⟩
  | none => .ok (.object (names.foldl Attr.allowOmission declared))

/-! ### Kinds -/

/-- Booleans, numbers and strings. -/
def isPrimitive : Ty → Bool
  | bool | number | string => true
  | _ => false

/-- Lists, sets and maps. -/
def isCollection : Ty → Bool
  | list _ | set _ | map _ => true
  | _ => false

/-- Objects and tuples. -/
def isStructural : Ty → Bool
  | object _ | tuple _ => true
  | _ => false

/-- The type `dynamic` itself. -/
def isDynamic : Ty → Bool
  | dynamic => true
  | _ => false

/-- Capsule types. -/
def isCapsule : Ty → Bool
  | capsule _ => true
  | _ => false

/-- The type under which a value stands in a slot: in a `dynamic` slot its own. -/
def slotType (slot own : Ty) : Ty := if slot.isDynamic then own else slot

/-- Set types. -/
def isSet : Ty → Bool
  | set _ => true
  | _ => false

/-- The element type of a collection. -/
def element? : Ty → Option Ty
  | list t | set t | map t => some t
  | _ => none

/-- The element types of a tuple. -/
def tupleElements? : Ty → Option (List Ty)
  | tuple ts => some ts
  | _ => none

/-- The attributes of an object type. -/
def attributes? : Ty → Option (List (Attr Ty))
  | object attrs => some attrs
  | _ => none

mutual

/-- Whether `dynamic` appears anywhere. -/
def hasDynamic : Ty → Bool
  | dynamic => true
  | list t | set t | map t => t.hasDynamic
  | tuple ts => anyDynamic ts
  | object attrs => anyDynamicAttr attrs
  | bool | number | string | capsule _ => false

/-- Whether `dynamic` appears in one of several types. -/
def anyDynamic : List Ty → Bool
  | [] => false
  | t :: ts => t.hasDynamic || anyDynamic ts

/-- Whether `dynamic` appears in one of several attributes. -/
def anyDynamicAttr : List (Attr Ty) → Bool
  | [] => false
  | ⟨_, t, _⟩ :: as => t.hasDynamic || anyDynamicAttr as

end

/-! ### Equality -/

mutual

/-- Equality of types. The order in which attributes are declared does not matter. -/
def same : Ty → Ty → Bool
  | bool, bool | number, number | string, string | dynamic, dynamic => true
  | list t, list u | set t, set u | map t, map u => t.same u
  | tuple ts, tuple us => sameEach ts us
  | object as, object bs => as.length == bs.length && sameAttrs as bs
  | capsule a, capsule b => a.same b
  | _, _ => false
termination_by structural t => t

/-- Equality place by place. -/
def sameEach : List Ty → List Ty → Bool
  | [], [] => true
  | t :: ts, u :: us => t.same u && sameEach ts us
  | _, _ => false
termination_by structural ts => ts

/-- Whether each attribute on the left has an equal one on the right. -/
def sameAttrs : List (Attr Ty) → List (Attr Ty) → Bool
  | [], _ => true
  | ⟨name, t, o⟩ :: as, bs =>
    (match Attr.find? bs name with
      | some b => t.same b.ty && o == b.isOptional
      | none => false) && sameAttrs as bs
termination_by structural as => as

end

instance : BEq Ty := ⟨same⟩

/-! ### Assignability -/

mutual

/-- Whether values of the first type can stand where the second is asked for, without any
change of their contents. Anything can stand for `dynamic`; an object may have more attributes
than asked for, and may lack optional ones. -/
def usableAs : Ty → Ty → Bool
  | _, dynamic => true
  | dynamic, _ => false
  | list t, list u | set t, set u | map t, map u => t.usableAs u
  | tuple ts, tuple us => usableEach ts us
  | object as, object bs => usableAttrs as bs
  | bool, bool | number, number | string, string => true
  | capsule a, capsule b => a.same b
  | _, _ => false
termination_by structural _ u => u

/-- Assignability place by place. -/
def usableEach : List Ty → List Ty → Bool
  | [], [] => true
  | t :: ts, u :: us => t.usableAs u && usableEach ts us
  | _, _ => false
termination_by structural _ us => us

/-- Whether each attribute asked for is there and assignable, or may be left out. -/
def usableAttrs (as : List (Attr Ty)) : List (Attr Ty) → Bool
  | [] => true
  | ⟨name, u, o⟩ :: bs =>
    (match Attr.find? as name with
      | some a => a.ty.usableAs u
      | none => o) && usableAttrs as bs
termination_by structural bs => bs

end

end Ty

end TypedData
