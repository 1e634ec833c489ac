import TypedData.Proofs.Ty.SameTypes

/-!
# Types by their parts

A type is of some kind and has parts: the element type of a collection, the types of the places of
a tuple, and those of the attributes of an object. Types of one kind are equal if their parts are,
and assignable if their parts are, up to attributes that may be left out. Steps from part to part
lead to the places inside a type.

## Main definitions

* `Ty.Kind`, `Ty.kind` — what a type is, without its parts
* `Ty.Part`, `Ty.part?` — the parts of types
* `Ty.mayLack` — whether a part may be left out
* `Ty.at?` — the type at a place

## Main results

* `Ty.same_of_parts` — types of one kind with equal parts are equal
* `Ty.usableAs_iff_parts` — assignability part by part
* `Ty.induction_parts` — what holds of a type whenever it holds of its parts holds of every type
-/

namespace TypedData.Ty

variable {s t u : Ty} {ts us : List Ty}

/-! ### Kinds and parts -/

/-- What a type is, without its parts. -/
inductive Kind where
  | bool
  | number
  | string
  | dynamic
  | collection (sort : Collection)
  | tuple (length : Nat)
  | object
  | capsule (id : Nat)
deriving DecidableEq

/-- The kind of a type. -/
def kind : Ty → Kind
  | bool => .bool
  | number => .number
  | string => .string
  | dynamic => .dynamic
  | list _ => .collection .list
  | set _ => .collection .set
  | map _ => .collection .map
  | tuple ts => .tuple ts.length
  | object _ => .object
  | capsule c => .capsule c.id

/-- A step from a type into it. -/
inductive Part where
  /-- The elements of collections of one sort. -/
  | element (sort : Collection)
  /-- A place of tuples of one length. -/
  | place (length index : Nat)
  | attr (name : String)

/-- The part of a type, if it has one of that sort. -/
def part? : Part → Ty → Option Ty
  | .element c, t => t.elementOf? c
  | .place n i, t => (t.places? n).bind (·[i]?)
  | .attr name, t => (t.attributes?.bind (Attr.find? · name)).map (·.ty)

/-- Whether a part is an attribute that may be left out. -/
def mayLack : Part → Ty → Bool
  | .attr name, t => ((t.attributes?.bind (Attr.find? · name)).map (·.isOptional)).getD false
  | _, _ => false

/-- The type at a place, which is reached step by step. -/
def at? : List Part → Ty → Option Ty
  | [], t => some t
  | p :: place, t => (t.part? p).bind (at? place)

theorem Part.forall {P : Part → Prop} : (∀ p, P p) ↔
    (∀ c, P (.element c)) ∧ (∀ n i, P (.place n i)) ∧ ∀ name, P (.attr name) := by
  refine ⟨fun h => ⟨fun _ => h _, fun _ _ => h _, fun _ => h _⟩, fun h p => ?_⟩
  obtain ⟨helement, hplace, hattr⟩ := h
  cases p with
  | element c => exact helement c
  | place n i => exact hplace n i
  | attr name => exact hattr name

theorem isSome_part?_of_mayLack {p : Part} (h : t.mayLack p) : (t.part? p).isSome := by
  cases p <;> simp only [mayLack, Bool.false_eq_true] at h
  simp only [part?, Option.isSome_map]
  cases hfind : t.attributes?.bind (Attr.find? · _) with
  | none => simp [hfind] at h
  | some => rfl

section Collections

variable {c : Collection}

theorem kind_of : (c.of t).kind = .collection c := by
  cases c <;> rfl

theorem kind_eq_collection_iff : t.kind = .collection c ↔ (t.elementOf? c).isSome := by
  cases c <;> cases t <;> simp [kind, elementOf?]

theorem exists_of_kind_eq (h : t.kind = .collection c) : ∃ u, t = c.of u := by
  obtain ⟨u, hu⟩ := Option.isSome_iff_exists.mp (kind_eq_collection_iff.mp h)
  exact ⟨u, elementOf?_eq_some_iff.mp hu⟩

theorem part?_of : (c.of t).part? (.element c) = some t := elementOf?_eq_some_iff.mpr rfl

/-- Collections have no part but their elements. -/
theorem part?_of_eq_none {p : Part} (h : p ≠ .element c) : (c.of t).part? p = none := by
  cases p with
  | element c' =>
    cases c <;> cases c' <;> first | rfl | exact absurd rfl h
  | place | attr => cases c <;> rfl

end Collections

theorem kind_eq_tuple_iff {n : Nat} : t.kind = .tuple n ↔ (t.places? n).isSome := by
  cases t <;> simp [kind, places?]

theorem kind_eq_object_iff : t.kind = .object ↔ (t.attributes?).isSome := by
  cases t <;> simp [kind, attributes?]

theorem height_lt_of_part? {p : Part} (h : t.part? p = some u) : u.height < t.height := by
  cases p with
  | element c => exact height_lt_of_elementOf? h
  | place n i =>
    obtain ⟨row, hrow, hi⟩ := Option.bind_eq_some_iff.mp h
    exact height_lt_of_places? hrow (List.mem_of_getElem? hi)
  | attr name =>
    obtain ⟨a, ha, rfl⟩ := Option.map_eq_some_iff.mp h
    obtain ⟨attrs, hattrs, ha⟩ := Option.bind_eq_some_iff.mp ha
    exact height_lt_of_attributes? hattrs (Attr.mem_of_find? ha)

/-- What holds of a type whenever it holds of its parts holds of every type. -/
@[elab_as_elim]
theorem induction_parts {P : Ty → Prop} (step : ∀ t, (∀ p u, t.part? p = some u → P u) → P t)
    (t : Ty) : P t :=
  step t fun _ u _ => induction_parts step u
termination_by t.height
decreasing_by exact height_lt_of_part? ‹_›

theorem WellFormed.part? {p : Part} (ht : t.WellFormed) (h : t.part? p = some u) :
    u.WellFormed := by
  cases p with
  | element c => exact wellFormed_elementOf? ht h
  | place n i =>
    obtain ⟨row, hrow, hi⟩ := Option.bind_eq_some_iff.mp h
    exact wellFormed_places? ht hrow u (List.mem_of_getElem? hi)
  | attr name =>
    obtain ⟨a, ha, rfl⟩ := Option.map_eq_some_iff.mp h
    obtain ⟨attrs, hattrs, ha⟩ := Option.bind_eq_some_iff.mp ha
    exact (wellFormed_attributes? ht hattrs).types a (Attr.mem_of_find? ha)

/-! ### Parts of several types -/

section AllParts

variable {α : Type} {f : Ty → Option α}

/-- Several types all have a part if each of them has it. -/
theorem isSome_allParts?_iff : (allParts? f ts).isSome ↔ ∀ t ∈ ts, (f t).isSome := by
  induction ts with
  | nil => simp [allParts?]
  | cons t ts ih =>
    rw [List.forall_mem_cons, ← ih]
    cases ht : f t <;> cases hts : allParts? f ts <;> simp [allParts?, ht, hts]

theorem allParts?_eq_none_iff : allParts? f ts = none ↔ ∃ t ∈ ts, f t = none := by
  rw [← Option.not_isSome_iff_eq_none, isSome_allParts?_iff]
  simp

theorem allParts?_append {as bs : List α} (h : allParts? f ts = some as)
    (h' : allParts? f us = some bs) : allParts? f (ts ++ us) = some (as ++ bs) := by
  induction ts generalizing as with
  | nil =>
    obtain rfl := Option.some.inj h
    exact h'
  | cons t ts ih =>
    simp only [allParts?, Option.bind_eq_bind, Option.bind_eq_some_iff, Option.some.injEq] at h
    obtain ⟨a, ha, as, has, rfl⟩ := h
    simp [allParts?, ha, ih has]

end AllParts

theorem wellFormed_allParts? {p : Part} {es : List Ty} (h : ∀ t ∈ ts, t.WellFormed)
    (hes : allParts? (part? p) ts = some es) : ∀ e ∈ es, e.WellFormed := by
  intro e he
  obtain ⟨t, ht, hte⟩ := exists_of_mem_allParts? hes e he
  exact (h t ht).part? hte

theorem allParts?_at?_nil : allParts? (at? []) ts = some ts := by
  induction ts with
  | nil => rfl
  | cons t ts ih =>
    rw [allParts?, ih]
    rfl

/-- The types at a place are reached from the parts that the first step leads to. -/
theorem allParts?_at?_cons {p : Part} {place : List Part} {col : List Ty} :
    allParts? (at? (p :: place)) ts = some col ↔
      ∃ es, allParts? (part? p) ts = some es ∧ allParts? (at? place) es = some col := by
  induction ts generalizing col with
  | nil => simp [allParts?]
  | cons t ts ih =>
    simp only [allParts?, at?, Option.bind_eq_bind, Option.bind_eq_some_iff, Option.some.injEq]
    constructor
    · rintro ⟨a, ⟨e, he, ha⟩, as, has, rfl⟩
      obtain ⟨es, hes, has⟩ := ih.mp has
      exact ⟨e :: es, ⟨e, he, es, hes, rfl⟩, by simp [allParts?, ha, has]⟩
    · rintro ⟨_, ⟨e, he, es, hes, rfl⟩, hcol⟩
      simp only [allParts?, Option.bind_eq_bind, Option.bind_eq_some_iff, Option.some.injEq] at hcol
      obtain ⟨a, ha, as, has, rfl⟩ := hcol
      exact ⟨a, ⟨e, he, ha⟩, as, ih.mpr ⟨es, hes, has⟩, rfl⟩

/-! ### Equality by parts -/

theorem kind_eq_of_same (h : t.same u) : t.kind = u.kind := by
  cases t <;> cases u <;> simp only [same, Bool.false_eq_true] at h
  case tuple.tuple => exact congrArg Kind.tuple (sameEach_iff.mp h).length_eq
  case capsule.capsule => exact congrArg Kind.capsule (by simpa [CapsuleType.same] using h)
  all_goals rfl

/-- Equal types have equal parts. -/
theorem partsAgree_part? (p : Part) : PartsAgree (fun t u => t.same u) (part? p) := by
  cases p with
  | element c => exact partsAgree_elementOf? c
  | place n i =>
    intro t u ht hu h a ha
    obtain ⟨row, hrow, hi⟩ := Option.bind_eq_some_iff.mp ha
    obtain ⟨row', hrow', hsame⟩ := partsAgree_places? n ht hu h row hrow
    obtain ⟨hlt, rfl⟩ := List.getElem?_eq_some_iff.mp hi
    have hlt' : i < row'.length := hsame.length_eq ▸ hlt
    refine ⟨row'[i], ?_, (List.forall₂_iff_get.mp hsame).2 i hlt hlt'⟩
    simp [part?, hrow', hlt']
  | attr name =>
    intro t u ht hu h x hx
    obtain ⟨a, ha, rfl⟩ := Option.map_eq_some_iff.mp hx
    obtain ⟨as, has, ha⟩ := Option.bind_eq_some_iff.mp ha
    obtain ⟨bs, hbs, hagree⟩ := partsAgree_attributes? ht hu h as has
    obtain ⟨b, hb, hsame, -⟩ := hagree.some name a ha
    exact ⟨b.ty, by simp [part?, hbs, hb], hsame⟩

/-- What a type may lack, an equal one may lack too. -/
theorem mayLack_of_same {p : Part} (ht : t.WellFormed) (hu : u.WellFormed) (h : t.same u)
    (hlack : t.mayLack p) : u.mayLack p := by
  cases p with
  | attr name =>
    cases has : t.attributes? with
    | none => simp [mayLack, has] at hlack
    | some as =>
      cases ha : Attr.find? as name with
      | none => simp [mayLack, has, ha] at hlack
      | some a =>
        obtain ⟨bs, hbs, hagree⟩ := partsAgree_attributes? ht hu h as has
        obtain ⟨b, hb, -, hoptional⟩ := hagree.some name a ha
        simpa [mayLack, has, hbs, ha, hb, hoptional] using hlack
  | _ => cases hlack

/-- Types of one kind are equal if they have the same parts, up to equality, and the same parts may
be left out. -/
theorem same_of_parts (ht : t.WellFormed) (hu : u.WellFormed) (hkind : t.kind = u.kind)
    (hparts : ∀ p, Option.Rel (fun x y => x.same y) (t.part? p) (u.part? p))
    (hlack : ∀ p, t.mayLack p = u.mayLack p) : t.same u := by
  cases t with
  | bool | number | string | dynamic | capsule =>
    cases u <;> simp only [kind, reduceCtorEq, Kind.capsule.injEq] at hkind
    simp [same, CapsuleType.same, hkind]
  | list =>
    cases u <;> simp only [kind, reduceCtorEq, Kind.collection.injEq] at hkind
    simpa [part?, elementOf?, same] using hparts (.element .list)
  | set =>
    cases u <;> simp only [kind, reduceCtorEq, Kind.collection.injEq] at hkind
    simpa [part?, elementOf?, same] using hparts (.element .set)
  | map =>
    cases u <;> simp only [kind, reduceCtorEq, Kind.collection.injEq] at hkind
    simpa [part?, elementOf?, same] using hparts (.element .map)
  | tuple ts =>
    cases u <;> simp only [kind, reduceCtorEq, Kind.tuple.injEq] at hkind
    rename_i us
    rw [same, sameEach_iff, List.forall₂_iff_get]
    refine ⟨hkind, fun i hi hi' => ?_⟩
    have hpart := hparts (.place ts.length i)
    simpa [part?, places?, hkind, hi, hi'] using hpart
  | object as =>
    cases u <;> simp only [kind, reduceCtorEq] at hkind
    rename_i bs
    -- Attributes are compared by name, since they may be declared in another order.
    refine AttrsAgree.same_object ⟨fun name a ha => ?_, fun name hnone => ?_⟩
      (Attr.WellFormed.of_object ht).names (Attr.WellFormed.of_object hu).names
    · have hpart := hparts (.attr name)
      have hlack := hlack (.attr name)
      cases hb : Attr.find? bs name with
      | none => simp [part?, attributes?, ha, hb] at hpart
      | some b =>
        simp only [part?, attributes?, Option.bind_some, ha, hb, Option.map_some,
          Option.rel_some_some] at hpart
        simp only [mayLack, attributes?, Option.bind_some, ha, hb, Option.map_some,
          Option.getD_some] at hlack
        exact ⟨b, rfl, hpart, hlack⟩
    · have hpart := hparts (.attr name)
      cases hb : Attr.find? bs name with
      | none => rfl
      | some b => simp [part?, attributes?, hnone, hb] at hpart

/-! ### Assignability by parts -/

/-- A part that is asked for is there and assignable, or may be left out. -/
def UsableAt (t u : Ty) (p : Part) : Prop :=
  ∀ y, u.part? p = some y →
    (∃ x, t.part? p = some x ∧ x.usableAs y) ∨ (t.part? p = none ∧ u.mayLack p)

theorem UsableAt.of_none {p : Part} (h : u.part? p = none) : UsableAt t u p := fun y hy => by
  cases h.symm.trans hy

theorem usableEach_iff_parts (hlength : ts.length = us.length) :
    usableEach ts us ↔ ∀ p, UsableAt (tuple ts) (tuple us) p := by
  rw [usableEach_iff, List.forall₂_iff_get, Part.forall]
  constructor
  · rintro ⟨-, h⟩
    refine ⟨fun _ => nofun, fun n i y hy => ?_, fun _ => nofun⟩
    obtain ⟨row, hrow, hi⟩ := Option.bind_eq_some_iff.mp hy
    simp only [places?, Option.ite_none_right_eq_some, Option.some.injEq] at hrow
    obtain ⟨rfl, rfl⟩ := hrow
    obtain ⟨hlt, rfl⟩ := List.getElem?_eq_some_iff.mp hi
    have hlt' : i < ts.length := hlength ▸ hlt
    exact .inl ⟨ts[i], by simp [part?, places?, hlength], h i hlt' hlt⟩
  · rintro ⟨-, h, -⟩
    refine ⟨hlength, fun i hi hi' => ?_⟩
    have hplace := h us.length i us[i] (by simp [part?, places?, hi'])
    simpa [part?, places?, hlength, List.getElem?_eq_getElem hi, mayLack] using hplace

theorem usableAttrs_iff_parts {as bs : List (Attr Ty)} (hbs : (bs.map (·.name)).Nodup) :
    usableAttrs as bs ↔ ∀ p, UsableAt (object as) (object bs) p := by
  rw [usableAttrs_iff, Part.forall]
  constructor
  · intro h
    refine ⟨fun _ => nofun, fun _ _ => nofun, fun name y hy => ?_⟩
    obtain ⟨b, hb, rfl⟩ := Option.map_eq_some_iff.mp hy
    have hb : Attr.find? bs name = some b := hb
    have hattr := h b (Attr.mem_of_find? hb)
    rw [Attr.name_of_find? hb] at hattr
    simpa [part?, mayLack, attributes?, hb] using hattr
  · rintro ⟨-, -, h⟩ b hb
    have hfind := Attr.find?_eq_some_of_mem hbs hb
    have hattr := h b.name b.ty (by simp [part?, attributes?, hfind])
    simpa [part?, mayLack, attributes?, hfind] using hattr

/-- The parts of types of one kind that have only one part decide whether they are assignable. -/
theorem usableAt_iff_of_single {p : Part} {x y : Ty} (hx : t.part? p = some x)
    (hy : u.part? p = some y) (hlack : u.mayLack p = false)
    (hsingle : ∀ q, q ≠ p → u.part? q = none) : x.usableAs y ↔ ∀ q, UsableAt t u q := by
  constructor
  · intro h q z hz
    by_cases hq : q = p
    · subst hq
      obtain rfl := Option.some.inj (hy.symm.trans hz)
      exact .inl ⟨x, hx, h⟩
    · cases (hsingle q hq).symm.trans hz
  · intro h
    simpa [hx, hlack] using h p y hy

/-- Collections are assignable to collections of the same sort, and if their elements are. -/
theorem usableAs_of_iff_parts {c : Collection} :
    t.usableAs (c.of u) ↔ t.kind = (c.of u).kind ∧ ∀ p, UsableAt t (c.of u) p := by
  rw [kind_of]
  by_cases hkind : t.kind = .collection c
  · obtain ⟨x, rfl⟩ := exists_of_kind_eq hkind
    have helements : (c.of x).usableAs (c.of u) = x.usableAs u := by
      cases c <;> rfl
    rw [and_iff_right hkind, helements]
    exact usableAt_iff_of_single part?_of part?_of rfl fun q hq => part?_of_eq_none hq
  · refine iff_of_false (fun h => hkind ?_) fun h => hkind h.1
    cases c <;> cases t <;> first | rfl | cases h

/-- A type is assignable to one that is not `dynamic` exactly if it is of the same kind, and
assignable part by part. -/
theorem usableAs_iff_parts (hu : u.WellFormed) (hdynamic : u.kind ≠ .dynamic) :
    t.usableAs u ↔ t.kind = u.kind ∧ ∀ p, UsableAt t u p := by
  cases u with
  | dynamic => exact absurd rfl hdynamic
  | bool | number | string | capsule =>
    -- Nothing is asked for part by part.
    refine Iff.trans ?_ (and_iff_left fun p => .of_none (by cases p <;> rfl)).symm
    cases t <;> simp only [usableAs, kind, CapsuleType.same, Bool.false_eq_true, reduceCtorEq,
      Kind.capsule.injEq, beq_iff_eq]
  | list => exact usableAs_of_iff_parts (c := .list)
  | set => exact usableAs_of_iff_parts (c := .set)
  | map => exact usableAs_of_iff_parts (c := .map)
  | tuple us =>
    cases t <;> simp only [usableAs, kind, Bool.false_eq_true, reduceCtorEq, false_and,
      Kind.tuple.injEq]
    constructor
    · intro h
      have hlength := (usableEach_iff.mp h).length_eq
      exact ⟨hlength, (usableEach_iff_parts hlength).mp h⟩
    · rintro ⟨hlength, h⟩
      exact (usableEach_iff_parts hlength).mpr h
  | object bs =>
    cases t <;> simp only [usableAs, kind, Bool.false_eq_true, reduceCtorEq, false_and, true_and]
    exact usableAttrs_iff_parts (Attr.WellFormed.of_object hu).names

end TypedData.Ty
