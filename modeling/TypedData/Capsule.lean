import TypedData.Text.Quoted

/-!
# Capsules

A capsule carries something of the host's through typed data without looking into it. Capsule
types are told apart by identity: two types of one name are unrelated.

## Main definitions

* `CapsuleType` — an identity and the name it is shown by
* `CapsuleHandle` — a capsule with its contents
* `CapsuleRegistry` — capsule types under names of their own
-/

namespace TypedData

/-- A capsule type. The name is for readers only. -/
structure CapsuleType where
  id : Nat
  name : String
deriving Repr, DecidableEq, Inhabited

/-- Whether two capsule types are one and the same. -/
def CapsuleType.same (a b : CapsuleType) : Bool := a.id == b.id

/-- What a host puts into a capsule. -/
inductive HostValue where
  | word (value : Nat)
  | text (value : String)
deriving Repr, DecidableEq, Inhabited

/-- The word a host value holds, if it is one. -/
def HostValue.asWord? : HostValue → Option Nat
  | word n => some n
  | text _ => none

/-- The text a host value holds, if it is one. -/
def HostValue.asText? : HostValue → Option String
  | word _ => none
  | text s => some s

/-- A capsule. Handles made apart differ, even with equal contents. -/
structure CapsuleHandle where
  kind : CapsuleType
  /-- Where the contents live. -/
  id : Nat
  contents : HostValue
deriving Repr, DecidableEq, Inhabited

namespace CapsuleHandle

/-- Whether two handles lead to the same contents of the same type. -/
def same (a b : CapsuleHandle) : Bool := a.kind.same b.kind && a.id == b.id

/-- A handle for diagnostics: its type by name, and nothing of its contents. -/
def describe (h : CapsuleHandle) : String :=
  "CapsuleHandle \x7b type: " ++ Text.quoted h.kind.name ++ ", .. \x7d"

end CapsuleHandle

/-- Why a registry refuses a name. -/
inductive RegistryError where
  | duplicate (name : String)
  | unknown (name : String)
deriving Repr, DecidableEq, Inhabited

/-- The wording of a registry error. -/
def RegistryError.message : RegistryError → String
  | duplicate name => "capsule type " ++ Text.quoted name ++ " is already defined"
  | unknown name => "no capsule type named " ++ Text.quoted name

/-- Capsule types under names that are unique within the registry. -/
structure CapsuleRegistry where
  /-- The types defined so far, latest first. -/
  types : List CapsuleType
  /-- How many types and handles have been made. -/
  made : Nat
deriving Repr, DecidableEq, Inhabited

namespace CapsuleRegistry

/-- A registry without types. -/
def empty : CapsuleRegistry := ⟨[], 0⟩

/-- The type under a name. -/
def get? (r : CapsuleRegistry) (name : String) : Option CapsuleType :=
  r.types.find? (·.name == name)

/-- Makes a new type under a name that is not taken. -/
def define (r : CapsuleRegistry) (name : String) :
    Except RegistryError (CapsuleRegistry × CapsuleType) :=
  match r.get? name with
  | some _ => .error (.duplicate name)
  | none =>
    let ty := ⟨r.made, name⟩
    .ok (⟨ty :: r.types, r.made + 1⟩, ty)

/-- Makes a capsule of a named type. -/
def wrap (r : CapsuleRegistry) (name : String) (contents : HostValue) :
    Except RegistryError (CapsuleRegistry × CapsuleHandle) :=
  match r.get? name with
  | none => .error (.unknown name)
  | some ty => .ok (⟨r.types, r.made + 1⟩, ⟨ty, r.made, contents⟩)

end CapsuleRegistry

end TypedData
