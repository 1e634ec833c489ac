import TypedData.Limits
import TypedData.Path.Basic
import TypedData.Value.Collection
import TypedData.Decimal.Literal

/-!
# Conversion

Values convert between types beyond plain assignability: numbers and booleans to their texts
and back, lists, sets and tuples into one another, and likewise maps and objects. Marks stay.

Nulls and unknowns have no contents to try. They convert exactly when some value of their type
might.

## Main definitions

* `Ty.convertible` — whether values of one type may convert to another
* `Value.convert` — a value as another type
* `ConversionError` — why a value does not convert
-/

namespace TypedData

/-! ### Types -/

namespace Ty

mutual

/-- Whether some value of the first type may convert to the second. -/
def convertible (source : Ty) (target : Ty) : Bool :=
  source == target || target.isDynamic || source.isDynamic ||
    match source, target with
    | number, bool | bool, number => false
    | bool, string | number, string | string, bool | string, number => true
    | list s, list t | list s, set t | set s, list t | set s, set t => convertible s t
    | tuple ss, list t | tuple ss, set t => ss.all fun s => convertible s t
    | list s, tuple ts | set s, tuple ts =>
      convertibleEach (List.replicate ts.length s) ts
    | tuple ss, tuple ts => ss.length == ts.length && convertibleEach ss ts
    | map s, map t => convertible s t
    | object as, map t => as.all fun a => convertible a.ty t
    | map s, object bs => convertibleAttrs (fun _ => some s) bs
    | object as, object bs =>
      convertibleAttrs (fun name => (Attr.find? as name).map (·.ty)) bs
    | _, _ => false
termination_by structural target

/-- Convertibility place by place. -/
def convertibleEach (sources : List Ty) : List Ty → Bool
  | [] => true
  | t :: ts => convertible (sources.headD .dynamic) t && convertibleEach sources.tail ts
termination_by structural ts => ts

/-- Whether each attribute asked for may be had, or may be left out. -/
def convertibleAttrs (sourceOf : String → Option Ty) : List (Attr Ty) → Bool
  | [] => true
  | ⟨name, t, o⟩ :: bs =>
    (match sourceOf name with
      | some s => convertible s t
      | none => o) && convertibleAttrs sourceOf bs
termination_by structural bs => bs

end

@[simp] theorem convertible_dynamic (s : Ty) : s.convertible .dynamic := by
  unfold convertible
  rw [isDynamic, Bool.or_true, Bool.true_or, Bool.true_or]

/-- Lists, sets and tuples. -/
def isSequence : Ty → Bool
  | list _ | set _ | tuple _ => true
  | _ => false

/-- Map types. -/
def isMap : Ty → Bool
  | map _ => true
  | _ => false

end Ty

/-! ### Errors -/

/-- Why a value does not convert. -/
inductive ConversionReason where
  | unsupported
  | badNumber (text : String)
  | badBool (text : String)
  | length (expected found : Nat)
  | missingAttribute (name : String)
  | extraneousAttribute (name : String)
  | tooDeep (limit : Nat)
deriving Repr, DecidableEq, Inhabited

/-- The wording of a reason. -/
def ConversionReason.message : ConversionReason → String
  | unsupported => "no conversion exists between these types"
  | badNumber s => Text.quoted s ++ " is not a valid number"
  | badBool s => Text.quoted s ++ " is not a valid bool"
  | length expected found =>
    "expected " ++ Nat.repr expected ++ " elements, found " ++ Nat.repr found
  | missingAttribute name => "missing required attribute " ++ Text.quoted name
  | extraneousAttribute name => "unsupported attribute " ++ Text.quoted name
  | tooDeep limit => "nesting exceeds the maximum depth of " ++ Nat.repr limit

/-- A value that does not convert, and where in it the fault lies. -/
structure ConversionError where
  path : Path
  source : Ty
  target : Ty
  reason : ConversionReason
deriving Inhabited

namespace ConversionError

/-- The wording of a conversion error. -/
def message (e : ConversionError) : String :=
  e.path.located ++ "cannot convert " ++ e.source.name ++ " to " ++ e.target.name ++ ": " ++
    e.reason.message

/-- The same error seen from one level further out. -/
def inside (step : Step) (e : ConversionError) : ConversionError :=
  { e with path := step :: e.path }

end ConversionError

/-! ### Values -/

namespace Value

/-- The truth value a text stands for. -/
def boolOfText? (s : String) : Option Bool :=
  let lower := s.toList.map Char.toLower
  if s = "1" || lower = "true".toList then some true
  else if s = "0" || lower = "false".toList then some false
  else none

/-- A scalar as another type. -/
def convertScalar (limits : Limits) (target : Ty) : Content Value → Except ConversionReason Value
  | .number n =>
    match target with
    | .string => .ok (.string n.plain)
    | _ => .error .unsupported
  | .bool b =>
    match target with
    | .string => .ok (.string (if b then "true" else "false"))
    | _ => .error .unsupported
  | .string s =>
    match target with
    | .number =>
      match Decimal.ofText s limits.maxNumberExponent with
      | .ok n => .ok (.number n)
      | .error _ => .error (.badNumber s)
    | .bool =>
      match boolOfText? s with
      | some b => .ok (.bool b)
      | none => .error (.badBool s)
    | _ => .error .unsupported
  | _ => .error .unsupported

/-- The types that `n` elements take on in a sequence of another type. -/
def elementTargets (target : Ty) (n : Nat) : Except ConversionReason (List Ty) :=
  match target with
  | .list t | .set t => .ok (List.replicate n t)
  | .tuple ts => if n = ts.length then .ok ts else .error (.length ts.length n)
  | _ => .error .unsupported

/-- The least key of a map that an object does not declare. -/
def extraneous? (attrs : List (Attr Ty)) (es : List (String × Value)) : Option String :=
  (es.find? fun (k, _) => (Attr.find? attrs k).isNone).map (·.1)

/-- The attributes of an object from the members that were converted. What is not there is
null if it may be left out. -/
def convertedAttributes (source target : Ty) (attrs : List (Attr Ty))
    (members : List (String × Except ConversionError Value)) :
    List (String × Except ConversionError Value) :=
  attrs.map fun a =>
    (a.name,
      match members.find? (·.1 == a.name) with
      | some (_, r) => r.mapError (·.inside (.attr a.name))
      | none =>
        if a.isOptional then .ok (null a.ty)
        else .error ⟨[.attr a.name], source, target, .missingAttribute a.name⟩)

/-- Entries in key order. -/
def sortEntries (es : List (String × Value)) : Entries Value :=
  es.mergeSort fun a b => decide (a.1 ≤ b.1)

mutual

/-- A value as another type, inside `depth` containers. -/
def convertAt (limits : Limits) (depth : Nat) (target : Ty) (v : Value) :
    Except ConversionError Value :=
  if v.ty == target || target.isDynamic then .ok v
  else if limits.maxDepth < depth then
    .error ⟨[], v.ty, target, .tooDeep limits.maxDepth⟩
  else
    match v.retype? target with
    -- Without contents there is nothing to try, so the types decide.
    | some w =>
      if v.ty.convertible target then .ok w else .error ⟨[], v.ty, target, .unsupported⟩
    | none =>
      match v with
      | ⟨source, .items vs, marks⟩ =>
        if source.isSequence then
          match elementTargets target vs.length with
          | .error r => .error ⟨[], source, target, r⟩
          | .ok targets =>
            (convertItems limits (depth + 1) 0 targets vs).map fun ws =>
              (sequence target ws).withMarks marks
        else .error ⟨[], source, target, .unsupported⟩
      | ⟨source, .entries es, marks⟩ =>
        match target with
        | .map t =>
          (Ty.firstError ((convertEntries limits (depth + 1) (fun _ => some t) es).map
            fun (k, r) => (k, r.mapError (·.inside (.key k))))).map fun es =>
              (mapping target es).withMarks marks
        | .object attrs =>
          -- Only an object may lose what is not asked for.
          match if source.isMap then extraneous? attrs es else none with
          | some k => .error ⟨[.attr k], source, target, .extraneousAttribute k⟩
          | none =>
            (Ty.firstError (convertedAttributes source target attrs
              (convertEntries limits (depth + 1) (fun k => (Attr.find? attrs k).map (·.ty))
                es))).map fun es => (mapping target (sortEntries es)).withMarks marks
        | target => .error ⟨[], source, target, .unsupported⟩
      | ⟨source, c, marks⟩ =>
        match convertScalar limits target c with
        | .ok w => .ok (w.withMarks marks)
        | .error r => .error ⟨[], source, target, r⟩
termination_by structural v

/-- Elements as other types one by one, from position `i` on. -/
def convertItems (limits : Limits) (depth i : Nat) (targets : List Ty) :
    List Value → Except ConversionError (List Value)
  | [] => .ok []
  | v :: vs =>
    match convertAt limits depth (targets.headD .dynamic) v with
    | .error e => .error (e.inside (.index i))
    | .ok w => (convertItems limits depth (i + 1) targets.tail vs).map (w :: ·)
termination_by structural vs => vs

/-- Entries as the types asked for under their keys; the others are left out. -/
def convertEntries (limits : Limits) (depth : Nat) (targetOf : String → Option Ty) :
    List (String × Value) → List (String × Except ConversionError Value)
  | [] => []
  | (k, v) :: es =>
    match targetOf k with
    | some t => (k, convertAt limits depth t v) :: convertEntries limits depth targetOf es
    | none => convertEntries limits depth targetOf es
termination_by structural es => es

end

/-- A value as another type. -/
def convert (limits : Limits) (target : Ty) (v : Value) : Except ConversionError Value :=
  convertAt limits 0 target v

end Value

end TypedData
