import TypedData.Capsule
import TypedData.Entries
import TypedData.Marks
import TypedData.Refinement

/-!
# Values

A value has a type, contents, and marks. The contents are null, unknown under a refinement, or
known. Marks travel with a value whatever its contents are.

## Main definitions

* `Content` — what a value may hold, over values already made
* `Value` — typed values
* `Value.deepMarks`, `Value.unmarkDeep` — marks at every depth
* `Value.retype?` — nulls and unknowns carried over to another type
-/

namespace TypedData

/-- What a value may hold; `α` is the type of the values inside. -/
inductive Content (α : Type) where
  | null
  | unknown (refinement : Refinement)
  | bool (value : Bool)
  | number (value : Decimal)
  | string (value : String)
  /-- The elements of a list, set or tuple. -/
  | items (values : List α)
  /-- The entries of a map or the attributes of an object, in key order. -/
  | entries (values : List (String × α))
  | capsule (handle : CapsuleHandle)
deriving Inhabited

/-- A typed value. -/
structure Value where
  ty : Ty
  content : Content Value
  marks : Marks
deriving Inhabited

namespace Value

/-! ### Making values -/

/-- Contents of a type, without marks. -/
def ofContent (ty : Ty) (content : Content Value) : Value := ⟨ty, content, .empty⟩

/-- The null of a type. -/
def null (ty : Ty) : Value := ofContent ty .null

/-- An unknown of a type, about which nothing is certain. -/
def unknown (ty : Ty) : Value := ofContent ty (.unknown .none)

/-- An unknown of a type under what a refinement says about that type. -/
def unknownRefined (ty : Ty) (r : Refinement) : Value := ofContent ty (.unknown (r.retainFor ty))

/-- A boolean. -/
def bool (b : Bool) : Value := ofContent .bool (.bool b)

/-- A number. -/
def number (n : Decimal) : Value := ofContent .number (.number n)

/-- A string. -/
def string (s : String) : Value := ofContent .string (.string s)

/-- A capsule. -/
def capsule (h : CapsuleHandle) : Value := ofContent (.capsule h.kind) (.capsule h)

/-! ### Looking at values -/

/-- Whether a value is null. -/
def isNull (v : Value) : Bool := match v.content with | .null => true | _ => false

/-- Whether a value is unknown. -/
def isUnknown (v : Value) : Bool := match v.content with | .unknown _ => true | _ => false

/-- Whether a value is neither null nor unknown. -/
def isKnown (v : Value) : Bool := !v.isNull && !v.isUnknown

/-- What is certain of an unknown value. -/
def refinement? (v : Value) : Option Refinement :=
  match v.content with
  | .unknown r => some r
  | _ => none

/-- The boolean a value holds. -/
def asBool? (v : Value) : Option Bool := match v.content with | .bool b => some b | _ => none

/-- The number a value holds. -/
def asNumber? (v : Value) : Option Decimal :=
  match v.content with
  | .number n => some n
  | _ => none

/-- The string a value holds. -/
def asString? (v : Value) : Option String :=
  match v.content with
  | .string s => some s
  | _ => none

/-- The elements of a list, set or tuple. -/
def elements? (v : Value) : Option (List Value) :=
  match v.content with
  | .items vs => some vs
  | _ => none

/-- The entries of a map or the attributes of an object. -/
def entries? (v : Value) : Option (Entries Value) :=
  match v.content with
  | .entries es => some es
  | _ => none

/-- How many elements or entries there are. -/
def length? (v : Value) : Option Nat :=
  match v.content with
  | .items vs => some vs.length
  | .entries es => some es.length
  | _ => none

mutual

/-- Whether neither the value nor anything inside it is unknown. -/
def isWhollyKnown : Value → Bool
  | ⟨_, .unknown _, _⟩ => false
  | ⟨_, .items vs, _⟩ => allWhollyKnown vs
  | ⟨_, .entries es, _⟩ => allEntriesWhollyKnown es
  | _ => true

/-- Whether several values are wholly known. -/
def allWhollyKnown : List Value → Bool
  | [] => true
  | v :: vs => v.isWhollyKnown && allWhollyKnown vs

/-- Whether the values of several entries are wholly known. -/
def allEntriesWhollyKnown : Entries Value → Bool
  | [] => true
  | (_, v) :: es => v.isWhollyKnown && allEntriesWhollyKnown es

end

/-! ### Marks -/

/-- Adds a mark. -/
def mark (v : Value) (tag : String) : Value := { v with marks := v.marks.insert tag }

/-- Adds several marks. -/
def withMarks (v : Value) (marks : Marks) : Value := { v with marks := marks ∪ v.marks }

/-- A value without its own marks, and those marks. Marks inside stay. -/
def unmark (v : Value) : Value × Marks := ({ v with marks := .empty }, v.marks)

mutual

/-- The marks of a value and of everything inside it. -/
def deepMarks : Value → Marks
  | ⟨_, .items vs, m⟩ => m ∪ deepMarksOf vs
  | ⟨_, .entries es, m⟩ => m ∪ deepMarksOfEntries es
  | ⟨_, _, m⟩ => m

/-- The marks of several values and of everything inside them. -/
def deepMarksOf : List Value → Marks
  | [] => .empty
  | v :: vs => v.deepMarks ∪ deepMarksOf vs

/-- The marks of the values of several entries and of everything inside them. -/
def deepMarksOfEntries : Entries Value → Marks
  | [] => .empty
  | (_, v) :: es => v.deepMarks ∪ deepMarksOfEntries es

end

mutual

/-- A value without marks at any depth. -/
def withoutMarks : Value → Value
  | ⟨ty, .items vs, _⟩ => ⟨ty, .items (withoutMarksEach vs), .empty⟩
  | ⟨ty, .entries es, _⟩ => ⟨ty, .entries (withoutMarksEntries es), .empty⟩
  | ⟨ty, c, _⟩ => ⟨ty, c, .empty⟩

/-- Several values without marks. -/
def withoutMarksEach : List Value → List Value
  | [] => []
  | v :: vs => v.withoutMarks :: withoutMarksEach vs

/-- Several entries without marks. -/
def withoutMarksEntries : Entries Value → Entries Value
  | [] => []
  | (k, v) :: es => (k, v.withoutMarks) :: withoutMarksEntries es

end

/-- A value without marks at any depth, and all of those marks. -/
def unmarkDeep (v : Value) : Value × Marks := (v.withoutMarks, v.deepMarks)

/-! ### Nulls and unknowns of other types -/

/-- A null or an unknown carried over to another type, with its marks and with what still
applies of its refinement. Elements may merge when a collection becomes a set, so that only
one of them stays certain. Known values are not carried over. -/
def retype? (v : Value) (ty : Ty) : Option Value :=
  match v.content with
  | .null => some ⟨ty, .null, v.marks⟩
  | .unknown r =>
    let kept := r.retainFor ty
    let kept := if ty.isSet && !v.ty.isSet then kept.capLengthLower 1 else kept
    some ⟨ty, .unknown kept, v.marks⟩
  | _ => none

end Value

end TypedData
