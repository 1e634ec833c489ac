import TypedData.Path.Basic
import TypedData.Ty.Name
import TypedData.Value.Basic

/-!
# Walking along paths

Steps lead from a value to a value inside it, and from a type to a type inside it. What is
reached takes on the marks of everything passed on the way. Elements of sets have no place that
a step could name.

## Main definitions

* `Value.step`, `Value.follow` — one step, and a path, into a value
* `Ty.step`, `Ty.follow` — one step, and a path, into a type
* `PathError` — the step that failed, and the steps before it
-/

namespace TypedData

/-- Why a step leads nowhere. -/
inductive PathReason where
  | null
  | unknown
  | noAttribute (name : String)
  | outOfRange (index : Int) (length : Nat)
  | noKey (key : String)
  | notTraversable (ty : Ty)
deriving Inhabited

/-- The wording of a reason. -/
def PathReason.message : PathReason → String
  | null => "value is null"
  | unknown => "value is unknown"
  | noAttribute name => "no attribute " ++ Text.quoted name
  | outOfRange i n =>
    "index " ++ String.ofList (Decimal.intText i) ++ " out of range for length " ++ Nat.repr n
  | noKey key => "no element with key " ++ Text.quoted key
  | notTraversable ty => ty.name ++ " cannot be traversed with this step"

/-- A path that leads nowhere: the first step that fails, and those before it. -/
structure PathError where
  step : Step
  consumed : Path
  reason : PathReason
deriving Inhabited

namespace PathError

/-- The wording of a path error. -/
def message (e : PathError) : String :=
  "cannot apply " ++ e.step.text ++ " after " ++ Text.quoted e.consumed.text ++ ": " ++
    e.reason.message

/-- The same error after one more step before it. -/
def after (step : Step) (e : PathError) : PathError :=
  { e with consumed := step :: e.consumed }

end PathError

/-- The element at a position that may be negative. -/
def elementAt? {α : Type} (xs : List α) (i : Int) : Option α :=
  if 0 ≤ i then xs[i.toNat]? else none

namespace Value

/-- The value inside another that a step names. -/
def child (v : Value) (step : Step) : Except PathReason Value :=
  match v.content with
  | .null => .error .null
  | .unknown _ => .error .unknown
  | _ =>
    match step, v.ty with
    | .attr name, .object _ | .key name, .object _ =>
      match (v.entries?.getD []).find? (·.1 == Text.nfc name) with
      | some (_, w) => .ok w
      | none => .error (.noAttribute name)
    | .key key, .map _ =>
      match (v.entries?.getD []).find? (·.1 == Text.nfc key) with
      | some (_, w) => .ok w
      | none => .error (.noKey key)
    | .index i, .list _ | .index i, .tuple _ =>
      match v.elements? with
      | none => .error (.notTraversable v.ty)
      | some vs =>
        match elementAt? vs i with
        | some w => .ok w
        | none => .error (.outOfRange i vs.length)
    | _, ty => .error (.notTraversable ty)

/-- One step into a value. What is reached takes on the marks of what it was in. -/
def step (v : Value) (s : Step) : Except PathError Value :=
  match v.child s with
  | .ok w => .ok (w.withMarks v.marks)
  | .error r => .error ⟨s, [], r⟩

/-- A path into a value. -/
def follow (v : Value) : Path → Except PathError Value
  | [] => .ok v
  | s :: rest =>
    match v.step s with
    | .error e => .error e
    | .ok w => (w.follow rest).mapError (·.after s)

end Value

namespace Ty

/-- The type inside another that a step names. Every step from `dynamic` leads to `dynamic`. -/
def child (t : Ty) (step : Step) : Except PathReason Ty :=
  match step, t with
  | _, dynamic => .ok dynamic
  | .attr name, object attrs | .key name, object attrs =>
    match Attr.lookup? attrs name with
    | some a => .ok a.ty
    | none => .error (.noAttribute name)
  | .key _, map e => .ok e
  | .index _, list e => .ok e
  | .index i, tuple ts =>
    match elementAt? ts i with
    | some u => .ok u
    | none => .error (.outOfRange i ts.length)
  | _, t => .error (.notTraversable t)

/-- One step into a type. -/
def step (t : Ty) (s : Step) : Except PathError Ty :=
  match t.child s with
  | .ok u => .ok u
  | .error r => .error ⟨s, [], r⟩

/-- A path into a type. -/
def follow (t : Ty) : Path → Except PathError Ty
  | [] => .ok t
  | s :: rest =>
    match t.step s with
    | .error e => .error e
    | .ok u => (u.follow rest).mapError (·.after s)

end Ty

end TypedData
