import TypedData.Path.Apply
import TypedData.Proofs.Ty.Objects

/-!
# Spellings of the names in types and paths

A type is declared with names in any spelling. It is the same type as that declared with the
composed names, and a path leads where the path of composed names leads.

## Main definitions

* `Declaration` — types as they are declared, and `Declaration.build` the types that come of them
* `Declaration.composed`, `Path.composed` — the same with all names in composed form

## Main results

* `Declaration.build_composed` — the spelling of names does not matter to the type
* `Ty.follow_composed`, `Value.follow_composed` — nor does it matter where a path leads
-/

namespace TypedData

/-! ### Declarations -/

/-- A type as it is declared. Names may be spelled in any way, and repeated. -/
inductive Declaration where
  | bool
  | number
  | string
  | dynamic
  | capsule (kind : CapsuleType)
  | list (elem : Declaration)
  | set (elem : Declaration)
  | map (elem : Declaration)
  | tuple (elems : List Declaration)
  /-- Attributes, and the names of those that may be left out. -/
  | object (attrs : List (String × Declaration)) (optional : List String)

namespace Declaration

mutual

/-- The type that is declared, built from the inside. -/
def build : Declaration → Except Ty.UnknownOptional Ty
  | bool => .ok .bool
  | number => .ok .number
  | string => .ok .string
  | dynamic => .ok .dynamic
  | capsule kind => .ok (.capsule kind)
  | list d => d.build.map .list
  | set d => d.build.map .set
  | map d => d.build.map .map
  | tuple ds => (buildEach ds).map .tuple
  | object attrs optional =>
    match buildAttrs attrs with
    | .error e => .error e
    | .ok attrs => Ty.ofAttributesWithOptional attrs optional

/-- The types that several declarations declare. -/
def buildEach : List Declaration → Except Ty.UnknownOptional (List Ty)
  | [] => .ok []
  | d :: ds =>
    match d.build with
    | .error e => .error e
    | .ok t => (buildEach ds).map (t :: ·)

/-- The types of attributes, beside their names as spelled. -/
def buildAttrs : List (String × Declaration) → Except Ty.UnknownOptional (List (String × Ty))
  | [] => .ok []
  | (name, d) :: attrs =>
    match d.build with
    | .error e => .error e
    | .ok t => (buildAttrs attrs).map ((name, t) :: ·)

end

mutual

/-- A declaration with all names in composed form. -/
def composed : Declaration → Declaration
  | list d => list d.composed
  | set d => set d.composed
  | map d => map d.composed
  | tuple ds => tuple (composedEach ds)
  | object attrs optional => object (composedAttrs attrs) (optional.map Text.nfc)
  | d => d

/-- Several declarations with names in composed form. -/
def composedEach : List Declaration → List Declaration
  | [] => []
  | d :: ds => d.composed :: composedEach ds

/-- Attributes with their own names and those inside in composed form. -/
def composedAttrs : List (String × Declaration) → List (String × Declaration)
  | [] => []
  | (name, d) :: attrs => (Text.nfc name, d.composed) :: composedAttrs attrs

end

/-- An object type takes its names in composed form anyway. -/
theorem ofAttributesWithOptional_composed (attrs : List (String × Ty)) (optional : List String) :
    Ty.ofAttributesWithOptional (attrs.map fun a => (Text.nfc a.1, a.2)) (optional.map Text.nfc) =
      Ty.ofAttributesWithOptional attrs optional := by
  simp only [Ty.ofAttributesWithOptional, List.foldl_map, List.map_map, Function.comp_def,
    Text.nfc_nfc]

mutual

/-- A declaration with composed names declares the same type, or fails in the same way. -/
theorem build_composed : (d : Declaration) → d.composed.build = d.build
  | bool | number | string | dynamic | capsule _ => rfl
  | list d | set d | map d => by rw [composed, build, build, build_composed d]
  | tuple ds => by rw [composed, build, build, buildEach_composed ds]
  | object attrs optional => by
    rw [composed, build, build, buildAttrs_composed attrs]
    cases buildAttrs attrs with
    | error e => rfl
    | ok attrs => exact ofAttributesWithOptional_composed attrs optional

theorem buildEach_composed : (ds : List Declaration) → buildEach (composedEach ds) = buildEach ds
  | [] => rfl
  | d :: ds => by
    rw [composedEach, buildEach, buildEach, build_composed d, buildEach_composed ds]

theorem buildAttrs_composed : (attrs : List (String × Declaration)) →
    buildAttrs (composedAttrs attrs) =
      (buildAttrs attrs).map (List.map fun a => (Text.nfc a.1, a.2))
  | [] => rfl
  | (name, d) :: attrs => by
    rw [composedAttrs, buildAttrs, buildAttrs, build_composed d, buildAttrs_composed attrs]
    cases d.build with
    | error e => rfl
    | ok t => cases buildAttrs attrs <;> rfl

end

end Declaration

/-! ### Paths -/

/-- A step with its name or key in composed form. -/
def Step.composed : Step → Step
  | attr name => attr (Text.nfc name)
  | key k => key (Text.nfc k)
  | index i => index i

/-- A path with all names and keys in composed form. -/
def Path.composed (p : Path) : Path := p.map Step.composed

/-- A reason with the name or the key that was asked for in composed form. -/
def PathReason.composed : PathReason → PathReason
  | noAttribute name => noAttribute (Text.nfc name)
  | noKey key => noKey (Text.nfc key)
  | r => r

/-- A path error with all names and keys in composed form. -/
def PathError.composed (e : PathError) : PathError :=
  ⟨e.step.composed, Path.composed e.consumed, e.reason.composed⟩

namespace Value

/-- A step leads to one value in whatever spelling, or nowhere for one reason. -/
theorem child_composed (v : Value) (s : Step) :
    v.child s.composed = (v.child s).mapError PathReason.composed := by
  unfold child
  split
  · rfl
  · rfl
  cases s with
  | attr name =>
    cases v.ty with
    | object attrs =>
      simp only [Step.composed, Text.nfc_nfc]
      split <;> rfl
    | _ => rfl
  | key k =>
    cases v.ty with
    | object attrs | map t =>
      simp only [Step.composed, Text.nfc_nfc]
      split <;> rfl
    | _ => rfl
  | index i =>
    cases v.ty with
    | list t | tuple ts =>
      simp only [Step.composed]
      split
      · rfl
      · split <;> rfl
    | _ => rfl

theorem step_composed (v : Value) (s : Step) :
    v.step s.composed = (v.step s).mapError PathError.composed := by
  rw [step, step, child_composed]
  cases v.child s <;> rfl

/-- A path leads to one value in whatever spelling, or fails at one step. -/
theorem follow_composed (v : Value) (p : Path) :
    v.follow p.composed = (v.follow p).mapError PathError.composed := by
  induction p generalizing v with
  | nil => rfl
  | cons s p ih =>
    have hcons : Path.composed (s :: p) = s.composed :: Path.composed p := rfl
    rw [hcons, follow, follow, step_composed]
    cases v.step s with
    | error e => rfl
    | ok w =>
      simp only [Except.mapError, ih]
      cases w.follow p <;> rfl

end Value

namespace Ty

theorem child_composed (t : Ty) (s : Step) :
    t.child s.composed = (t.child s).mapError PathReason.composed := by
  cases s with
  | attr name | key k =>
    cases t with
    | object attrs =>
      simp only [child, Step.composed, Attr.lookup?, Text.nfc_nfc]
      split <;> rfl
    | _ => rfl
  | index i =>
    cases t with
    | tuple ts =>
      simp only [child, Step.composed]
      split <;> rfl
    | _ => rfl

theorem step_composed (t : Ty) (s : Step) :
    t.step s.composed = (t.step s).mapError PathError.composed := by
  rw [step, step, child_composed]
  cases t.child s <;> rfl

/-- A path leads to one type in whatever spelling, or fails at one step. -/
theorem follow_composed (t : Ty) (p : Path) :
    t.follow p.composed = (t.follow p).mapError PathError.composed := by
  induction p generalizing t with
  | nil => rfl
  | cons s p ih =>
    have hcons : Path.composed (s :: p) = s.composed :: Path.composed p := rfl
    rw [hcons, follow, follow, step_composed]
    cases t.step s with
    | error e => rfl
    | ok u =>
      simp only [Except.mapError, ih]
      cases u.follow p <;> rfl

end Ty

end TypedData
