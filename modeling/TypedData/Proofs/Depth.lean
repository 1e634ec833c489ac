import TypedData.Proofs.Validation
import TypedData.Proofs.Value.Nesting

/-!
# How deep validated values are

Validation looks at the depth of whatever it enters. It does not enter a value that has a type
already: such a value is accepted or converted as a whole, however deep it is itself. Nor does it
enter an attribute that is left out, whose null takes no looking at. Everything else in its result
stands within the limit.

## Main definitions

* `Value.Reaches` — how deep something stands in a value, apart from nulls that may be left out
* `Native.Embeds` — how deep a typed value stands in native data

## Main results

* `Value.le_depth_of_reaches_convertAt` — conversion takes nothing deeper
* `Native.reaches_validateAt` — what one step of validation gives stands within the limit, or in
  a typed value
* `Native.reaches_validate` — so does what the whole of it gives
-/

namespace TypedData

/-- Whether a type has an attribute of a name that may be left out. -/
def Ty.mayOmit (ty : Ty) (name : String) : Bool :=
  match ty with
  | .object attrs => attrs.any fun a => a.name == name && a.isOptional
  | _ => false

namespace Value

variable {limits : Limits} {depth n : Nat} {ty target : Ty} {v w : Value} {vs : List Value}
  {es : Entries Value}

/-- Something stands `n` containers deep in a value, where the null of an attribute that may be
left out does not count. -/
inductive Reaches : Value → Nat → Prop
  | here (v : Value) : Reaches v 0
  | item {ty : Ty} {vs : List Value} {m : Marks} {v : Value} {n : Nat} (hv : v ∈ vs)
      (h : Reaches v n) : Reaches ⟨ty, .items vs, m⟩ (n + 1)
  | entry {ty : Ty} {es : Entries Value} {m : Marks} {e : String × Value} {n : Nat} (he : e ∈ es)
      (hcounts : ¬ (e.2.isNull ∧ ty.mayOmit e.1)) (h : Reaches e.2 n) :
      Reaches ⟨ty, .entries es, m⟩ (n + 1)

theorem Reaches.le_depth (h : v.Reaches n) : n ≤ v.depth := by
  induction h with
  | here v => exact Nat.zero_le _
  | item hv _ ih => exact Nat.succ_le_of_lt (Nat.lt_of_le_of_lt ih (depth_lt_depthInside hv))
  | entry he _ _ ih =>
    exact Nat.succ_le_of_lt (Nat.lt_of_le_of_lt ih (depth_lt_depthInsideEntries he))

/-- Nothing stands inside a value without parts. -/
theorem Reaches.eq_zero (h : v.Reaches n) (hparts : parts v.content = []) : n = 0 := by
  cases h with
  | here => rfl
  | item hv =>
    obtain rfl : _ = [] := hparts
    cases hv
  | entry he =>
    obtain rfl := List.map_eq_nil_iff.mp hparts
    cases he

theorem Reaches.of_sameData (h : v.Reaches n) (hdata : SameData v w) : w.Reaches n := by
  obtain ⟨ty, content, m⟩ := w
  obtain ⟨rfl, rfl⟩ := hdata
  cases h with
  | here => exact .here _
  | item hv h => exact .item hv h
  | entry he hcounts h => exact .entry he hcounts h

theorem Reaches.of_withMarks {m : Marks} (h : (v.withMarks m).Reaches n) : v.Reaches n :=
  h.of_sameData ⟨rfl, rfl⟩

/-- What stands in a sequence stands in one of its elements, one less deep. -/
theorem Reaches.of_sequence (h : (sequence ty vs).Reaches n) :
    n = 0 ∨ ∃ v ∈ vs, ∃ k, n = k + 1 ∧ v.Reaches k := by
  have hitems {ws : List Value} (hws : ∀ w ∈ ws, ∃ v ∈ vs, SameData w v)
      (hreaches : (ofContent ty (.items ws)).Reaches n) :
      n = 0 ∨ ∃ v ∈ vs, ∃ k, n = k + 1 ∧ v.Reaches k := by
    cases hreaches with
    | here => exact .inl rfl
    | item hw hinside =>
      obtain ⟨v, hv, hdata⟩ := hws _ hw
      exact .inr ⟨v, hv, _, rfl, hinside.of_sameData hdata⟩
  unfold sequence at h
  split at h
  · split at h
    · exact .inl (h.eq_zero rfl)
    · exact hitems (fun w hw => ⟨w, hw, .refl w⟩) h
  · split at h
    · exact .inl (h.eq_zero rfl)
    · exact hitems (fun w hw => exists_of_mem_canonicalSet hw) h
  · exact hitems (fun w hw => ⟨w, hw, .refl w⟩) h

/-- What stands in a map or an object stands in one of its entries, one less deep. -/
theorem Reaches.of_mapping (h : (mapping ty es).Reaches n) :
    n = 0 ∨ ∃ e ∈ es, ¬ (e.2.isNull ∧ ty.mayOmit e.1) ∧ ∃ k, n = k + 1 ∧ e.2.Reaches k := by
  rw [mapping] at h
  split at h
  · exact .inl (h.eq_zero rfl)
  · cases h with
    | here => exact .inl rfl
    | entry he hcounts h => exact .inr ⟨_, he, hcounts, _, rfl, h⟩

/-! ### Conversion -/

theorem parts_of_convertScalar {c : Content Value} (h : convertScalar limits target c = .ok w) :
    parts w.content = [] := by
  cases primitive_of_convertScalar h <;> rfl

/-- An attribute of an object that was converted is the null of one that was left out, or comes
from an entry. -/
theorem exists_of_mem_convertedAttributes {source : Ty} {attrs : List (Attr Ty)}
    {targetOf : String → Option Ty} {fs : Entries Value} {f : String × Value}
    (h : Ty.firstError (convertedAttributes source target attrs
      (convertEntries limits depth targetOf es)) = .ok fs) (hf : f ∈ fs) :
    (f.2.isNull ∧ (Ty.object attrs).mayOmit f.1) ∨
      ∃ e ∈ es, ∃ t, e.2.convertAt limits depth t = .ok f.2 := by
  obtain ⟨check, hchecks, hcheck⟩ := exists_checks_of_convertedAttributes h
  rw [Ty.firstError_map_eq_ok_iff] at hchecks
  obtain ⟨a, ha, hname, hvalue⟩ := hchecks.exists_of_mem_right hf
  obtain ⟨hoptional, hnull, -⟩ | ⟨v, t, hv, -, hconvert⟩ := hcheck a ha f.2 hvalue
  · exact .inl ⟨hnull ▸ rfl, List.any_eq_true.mpr ⟨a, ha, by simp [hname, hoptional]⟩⟩
  · exact .inr ⟨_, hv, t, hconvert⟩

/-- A step of conversion takes nothing deeper, if conversion of what is directly inside does not. -/
theorem ConversionStep.le_depth_of_reaches (hstep : ConversionStep limits depth target v w)
    (hw : w.Reaches n)
    (inside : ∀ x ∈ parts v.content, ∀ t u, x.convertAt limits (depth + 1) t = .ok u → ∀ k,
      u.Reaches k → k ≤ x.depth) : n ≤ v.depth := by
  cases hstep with
  | keep => exact hw.le_depth
  | retyped hretype =>
    obtain ⟨own, content, m⟩ := v
    cases content <;> cases hretype <;> exact Nat.le_zero.mpr (hw.eq_zero rfl)
  | scalar hscalar =>
    exact (hw.of_withMarks.eq_zero (parts_of_convertScalar hscalar)).trans_le (Nat.zero_le _)
  | sequence _ _ hws =>
    obtain rfl | ⟨u, hu, k, rfl, hk⟩ := hw.of_withMarks.of_sequence
    · exact Nat.zero_le _
    obtain ⟨x, hx, t, ht⟩ := (forall₂_of_convertItems hws).exists_of_mem_right hu
    exact Nat.succ_le_of_lt (Nat.lt_of_le_of_lt (inside x hx t u ht k hk) (depth_lt_depthInside hx))
  | map _ hfs =>
    obtain rfl | ⟨f, hf, -, k, rfl, hk⟩ := hw.of_withMarks.of_mapping
    · exact Nat.zero_le _
    obtain ⟨e, he, -, hef⟩ := (forall₂_of_convertEntries hfs).exists_of_mem_right hf
    have hle := inside e.2 (List.mem_map_of_mem he) _ f.2 hef k hk
    exact Nat.succ_le_of_lt (Nat.lt_of_le_of_lt hle (depth_lt_depthInsideEntries he))
  | object htarget _ hfs =>
    subst htarget
    obtain rfl | ⟨f, hf, hcounts, k, rfl, hk⟩ := hw.of_withMarks.of_mapping
    · exact Nat.zero_le _
    obtain homitted | ⟨e, he, t, ht⟩ :=
      exists_of_mem_convertedAttributes hfs (mem_sortEntries.mp hf)
    · exact absurd homitted hcounts
    have hle := inside e.2 (List.mem_map_of_mem he) t f.2 ht k hk
    exact Nat.succ_le_of_lt (Nat.lt_of_le_of_lt hle (depth_lt_depthInsideEntries he))

/-- Conversion takes nothing deeper. -/
theorem le_depth_of_reaches_convertAt (h : v.convertAt limits depth target = .ok w)
    (hw : w.Reaches n) : n ≤ v.depth := by
  induction v using Value.induction_parts generalizing depth target w n with
  | _ v ih =>
    exact (conversionStep_of_convertAt h).le_depth_of_reaches hw fun x hx t u hu k hk =>
      ih x hx hu hk

end Value

namespace Native

variable {limits : Limits} {depth n : Nat} {ty : Ty} {raw : Native} {v : Value}

/-- A typed value stands in native data, inside some containers. -/
inductive Embeds : Native → Nat → Value → Prop
  | here (v : Value) : Embeds (.value v) 0 v
  | item {raw x : Native} {items : List Native} {d : Nat} {v : Value}
      (hraw : raw.items? = some items) (hx : x ∈ items) (h : Embeds x d v) : Embeds raw (d + 1) v
  | entry {entries : List (Native × Native)} {e : Native × Native} {d : Nat} {v : Value}
      (he : e ∈ entries) (h : Embeds e.2 d v) : Embeds (.map entries) (d + 1) v

/-- A depth in what native data becomes inside `depth` containers: it is within the limit, or it is
a depth in a typed value at a place within the limit. -/
def Within (limits : Limits) (depth : Nat) (raw : Native) (n : Nat) : Prop :=
  depth + n ≤ limits.maxDepth ∨
    ∃ d v, raw.Embeds d v ∧ depth + d ≤ limits.maxDepth ∧ n ≤ d + v.depth

theorem Within.of_here {v : Value} (h : n ≤ v.depth) (hdepth : depth ≤ limits.maxDepth) :
    Within limits depth (.value v) n :=
  .inr ⟨0, v, .here v, hdepth, h.trans (Nat.le_add_left _ _)⟩

/-- What is within the limit one container further in, is so from outside. -/
theorem Within.of_inside {x : Native}
    (hembeds : ∀ d v, x.Embeds d v → raw.Embeds (d + 1) v)
    (h : Within limits (depth + 1) x n) : Within limits depth raw (n + 1) := by
  obtain hlimit | ⟨d, v, hv, hplace, hle⟩ := h
  · exact .inl (by omega)
  · exact .inr ⟨d + 1, v, hembeds d v hv, by omega, by omega⟩

/-! ### Parts of validation -/

theorem exists_of_mem_validateItems {i : Nat} {types : List Ty} {items : List Native}
    {vs : List Value} (h : validateItems limits depth i types items = .ok vs) (hv : v ∈ vs) :
    ∃ x ∈ items, ∃ t, validateAt limits depth t x = .ok v := by
  induction items generalizing i types vs with
  | nil =>
    obtain rfl := Except.ok.inj h
    cases hv
  | cons x items ih =>
    rw [validateItems] at h
    split at h
    · cases h
    rename_i w hw
    obtain ⟨ws, hws, rfl⟩ := Except.map_eq_ok_iff.mp h
    rcases List.mem_cons.mp hv with rfl | hv
    · exact ⟨x, by simp, _, hw⟩
    · obtain ⟨x', hx', t, ht⟩ := ih hws hv
      exact ⟨x', by simp [hx'], t, ht⟩

/-- An object is made of entries, each of which is a given member or the null of an attribute that
was left out. -/
theorem exists_entries_of_objectOf {attrs : List (Attr Ty)} {members : List Member}
    (h : objectOf ty attrs members = .ok v) :
    ∃ es, v = Value.mapping ty es ∧ ∀ e ∈ es,
      (e.2.isNull ∧ (Ty.object attrs).mayOmit e.1) ∨ ∃ m ∈ members, m.2 = .ok e.2 := by
  obtain ⟨check, es, hes, rfl, hcheck⟩ := exists_checks_of_objectOf h
  rw [Ty.firstError_map_eq_ok_iff] at hes
  refine ⟨Value.sortEntries es, rfl, fun e he => ?_⟩
  obtain ⟨a, ha, hname, hvalue⟩ := hes.exists_of_mem_right (Value.mem_sortEntries.mp he)
  obtain ⟨hoptional, hnull⟩ | ⟨m, hm, hok, -⟩ := hcheck a ha e.2 hvalue
  · exact .inl ⟨hnull ▸ rfl, List.any_eq_true.mpr ⟨a, ha, by simp [hname, hoptional]⟩⟩
  · exact .inr ⟨m, hm, hok⟩

theorem parts_of_validateScalar (h : validateScalar limits ty raw = .ok v) :
    Value.parts v.content = [] := by
  cases scalar_of_validateScalar h <;> rfl

/-- A typed value is accepted without anything getting deeper. -/
theorem le_depth_of_reaches_accept {w : Value} (h : accept limits ty w = .ok v)
    (hv : v.Reaches n) : n ≤ w.depth := by
  rw [accept] at h
  split at h
  · obtain rfl := Except.ok.inj h
    exact hv.le_depth
  split at h
  · cases h
  split at h
  · rename_i u hretype
    obtain rfl := Except.ok.inj h
    obtain ⟨own, content, m⟩ := w
    cases content <;> cases hretype <;> exact Nat.le_zero.mpr (hv.eq_zero rfl)
  · exact Value.le_depth_of_reaches_convertAt (Except.mapError_eq_ok_iff.mp h) hv

/-! ### The whole -/

/-- What stands in the result of a step of validation stands within the limit, or in a typed value
at a place within the limit, if that is so of what is directly inside. -/
theorem ValidationStep.reaches (hstep : ValidationStep limits depth ty raw v) (hv : v.Reaches n)
    (hdepth : depth ≤ limits.maxDepth)
    (inside : ∀ c ∈ raw.children, ∀ t w, validateAt limits (depth + 1) t c = .ok w → ∀ k,
      w.Reaches k → Within limits (depth + 1) c k) : Within limits depth raw n := by
  have hzero {raw : Native} : Within limits depth raw 0 := .inl hdepth
  -- What is one container deeper in the value comes from one container deeper in the data.
  cases hstep with
  | absent => exact hv.eq_zero rfl ▸ hzero
  | value hw => exact .of_here (le_depth_of_reaches_accept hw hv) hdepth
  | scalar _ hw => exact hv.eq_zero (parts_of_validateScalar hw) ▸ hzero
  | items hitems _ _ hvs =>
    obtain rfl | ⟨w, hw, k, rfl, hk⟩ := hv.of_sequence
    · exact hzero
    obtain ⟨x, hx, t, ht⟩ := exists_of_mem_validateItems hvs hw
    have hc : x ∈ raw.children := children_of_items? hitems ▸ hx
    exact (inside x hc t w ht k hk).of_inside fun d u hu => .item hitems hx hu
  | map _ hes =>
    obtain rfl | ⟨e, he, -, k, rfl, hk⟩ := hv.of_mapping
    · exact hzero
    obtain ⟨-, -, m, hm, hok⟩ := (gatherMap_spec hes).2 e (Value.mem_sortEntries.mp he)
    obtain ⟨x, hx, rfl⟩ := exists_of_mem_validateEntries hm
    exact (inside x.2 (List.mem_map_of_mem hx) _ _ hok k hk).of_inside fun d u hu => .entry hx hu
  | object _ hw =>
    obtain ⟨es, rfl, hes⟩ := exists_entries_of_objectOf hw
    obtain rfl | ⟨e, he, hcounts, k, rfl, hk⟩ := hv.of_mapping
    · exact hzero
    obtain homitted | ⟨m, hm, hok⟩ := hes e he
    · exact absurd homitted hcounts
    obtain ⟨x, hx, rfl⟩ := exists_of_mem_validateEntries hm
    exact (inside x.2 (List.mem_map_of_mem hx) _ _ hok k hk).of_inside fun d u hu => .entry hx hu

/-- Whatever stands in the result of validation stands within the limit, or in a typed value at a
place within the limit. -/
theorem reaches_validateAt (h : validateAt limits depth ty raw = .ok v) (hv : v.Reaches n) :
    Within limits depth raw n := by
  induction raw using Native.induction_children generalizing depth ty v n with
  | _ raw ih =>
    exact (validationStep_of_validateAt h).reaches hv (depth_le_of_validateAt h)
      fun c hc t w hw k hk => ih c hc hw hk

/-- Whatever stands in a validated value stands within the limit, or in a typed value of the data at
a place within the limit. The null of an attribute that may be left out is not counted. -/
theorem reaches_validate (h : raw.validate limits ty = .ok v) (hv : v.Reaches n) :
    n ≤ limits.maxDepth ∨
      ∃ d w, raw.Embeds d w ∧ d ≤ limits.maxDepth ∧ n ≤ d + w.depth := by
  have hwithin := reaches_validateAt h hv
  simpa only [Within, Nat.zero_add] using hwithin

/-- A typed value in a list takes what is in it past a limit of one. -/
theorem reaches_validate_nested :
    let nested := Value.ofContent (.list (.list .bool))
      (.items [Value.ofContent (.list .bool) (.items [Value.bool true])])
    let v := Value.ofContent (.list nested.ty) (.items [nested])
    (Native.list [.value nested]).validate ⟨1, 0⟩ v.ty = .ok v ∧ v.Reaches 3 ∧
      (3 ≤ 1 ∨ ∃ d w, (Native.list [.value nested]).Embeds d w ∧ d ≤ 1 ∧ 3 ≤ d + w.depth) := by
  intro nested v
  have h : (Native.list [.value nested]).validate ⟨1, 0⟩ v.ty = .ok v := rfl
  have hbool := Value.Reaches.here (Value.bool true)
  have hv : v.Reaches 3 := .item (.head _) (.item (.head _) (.item (.head _) hbool))
  exact ⟨h, hv, reaches_validate h hv⟩

/-- The limit is none on typed values: one of the type asked for is accepted as it is. Nor is it one
on the null that stands for an attribute left out, which is one level below its object. -/
theorem lt_depth_of_validate_nested :
    let limits := { Limits.default with maxDepth := 0 }
    let nested := Value.ofContent (.list (.list .bool))
      (.items [Value.ofContent (.list .bool) (.items [])])
    let sparse := Value.ofContent (.object [⟨"a", .bool, true⟩]) (.entries [("a", .null .bool)])
    ((Native.value nested).validate limits nested.ty = .ok nested ∧
      limits.maxDepth < nested.depth) ∧
    (Native.map []).validate limits sparse.ty = .ok sparse ∧ limits.maxDepth < sparse.depth := by
  intro limits nested sparse
  refine ⟨⟨rfl, by decide⟩, ?_, by decide⟩
  -- Sorting does not compute by `rfl`, also where there is nothing to sort.
  have hdeclared : Wire.undeclared? [⟨"a", .bool, true⟩] [] = none := by simp [Wire.undeclared?]
  have hsorted : Value.sortEntries [("a", .null .bool)] = [("a", .null .bool)] :=
    List.mergeSort_singleton _
  change objectOf sparse.ty [⟨"a", .bool, true⟩] [] = .ok sparse
  simp only [objectOf, gatherNames, List.map_nil, hdeclared]
  change Except.ok (Value.mapping sparse.ty (Value.sortEntries [("a", .null .bool)])) = _
  rw [hsorted]
  rfl

end Native

end TypedData
