import TypedData.Ty.Basic

/-!
# Unification of types

Several types have one type that values of each can be used as. Collections of one kind unify
their elements, tuples of one length their places, and objects keep the attributes that all of
them have. Whatever disagrees otherwise unifies to `dynamic`.

## Main definitions

* `Ty.height` — how deep a type is nested
* `Ty.unify` — the type that several types share
-/

namespace TypedData.Ty

/-! ### Height -/

mutual

/-- How deep a type is nested. -/
def height : Ty → Nat
  | bool | number | string | dynamic | capsule _ => 0
  | list t | set t | map t => t.height + 1
  | tuple ts => heightEach ts + 1
  | object attrs => heightAttrs attrs + 1

/-- The greatest height of several types. -/
def heightEach : List Ty → Nat
  | [] => 0
  | t :: ts => max t.height (heightEach ts)

/-- The greatest height of several attributes. -/
def heightAttrs : List (Attr Ty) → Nat
  | [] => 0
  | ⟨_, t, _⟩ :: as => max t.height (heightAttrs as)

end

theorem height_le_heightEach {t : Ty} {ts : List Ty} (h : t ∈ ts) : t.height ≤ heightEach ts := by
  induction ts with
  | nil => simp at h
  | cons u us ih =>
    rcases List.mem_cons.mp h with rfl | h
    · simp only [heightEach]
      omega
    · have := ih h
      simp only [heightEach]
      omega

theorem height_le_heightAttrs {a : Attr Ty} {as : List (Attr Ty)} (h : a ∈ as) :
    a.ty.height ≤ heightAttrs as := by
  induction as with
  | nil => simp at h
  | cons b bs ih =>
    obtain ⟨name, t, o⟩ := b
    rcases List.mem_cons.mp h with rfl | h
    · simp only [heightAttrs]
      omega
    · have := ih h
      simp only [heightAttrs]
      omega

theorem heightEach_lt {n : Nat} {ts : List Ty} (hn : 0 < n) (h : ∀ t ∈ ts, t.height < n) :
    heightEach ts < n := by
  induction ts with
  | nil => simpa [heightEach] using hn
  | cons t ts ih =>
    have h1 := h t (by simp)
    have h2 := ih fun u hu => h u (by simp [hu])
    simp only [heightEach]
    omega

/-! ### Distinct types -/

/-- The types of a list that do not equal an earlier one. -/
def distinct : List Ty → List Ty
  | [] => []
  | t :: ts => t :: (distinct ts).filter fun u => !(t == u)

theorem mem_of_mem_distinct {t : Ty} {ts : List Ty} (h : t ∈ distinct ts) : t ∈ ts := by
  induction ts with
  | nil => simp [distinct] at h
  | cons u us ih =>
    simp only [distinct, List.mem_cons, List.mem_filter] at h
    rcases h with rfl | ⟨h, -⟩
    · simp
    · simp [ih h]

/-! ### Parts of several types -/

/-- What an accessor gives for each of several types, if it gives something for all. -/
def allParts? {α : Type} (part? : Ty → Option α) : List Ty → Option (List α)
  | [] => some []
  | t :: ts => do
    let a ← part? t
    let as ← allParts? part? ts
    some (a :: as)

theorem exists_of_mem_allParts? {α : Type} {part? : Ty → Option α} {ts : List Ty} {as : List α}
    (h : allParts? part? ts = some as) : ∀ a ∈ as, ∃ t ∈ ts, part? t = some a := by
  induction ts generalizing as with
  | nil =>
    simp only [allParts?, Option.some.injEq] at h
    subst h
    simp
  | cons t ts ih =>
    simp only [allParts?, Option.bind_eq_bind, Option.bind_eq_some_iff, Option.some.injEq] at h
    obtain ⟨a, ha, as', has, rfl⟩ := h
    intro b hb
    rcases List.mem_cons.mp hb with rfl | hb
    · exact ⟨t, by simp, ha⟩
    · obtain ⟨u, hu, hub⟩ := ih has b hb
      exact ⟨u, by simp [hu], hub⟩

/-- The sorts of collections. -/
inductive Collection where
  | list
  | set
  | map
deriving DecidableEq

/-- The type of collections of a sort with elements of a type. -/
def Collection.of : Collection → Ty → Ty
  | .list => .list
  | .set => .set
  | .map => .map

/-- The element type of a type of collections of a sort. -/
def elementOf? (c : Collection) (t : Ty) : Option Ty :=
  match t, c with
  | list t, .list | set t, .set | map t, .map => some t
  | _, _ => none

theorem elementOf?_eq_some_iff {c : Collection} {t u : Ty} :
    t.elementOf? c = some u ↔ t = c.of u := by
  cases c <;> cases t <;> simp [elementOf?, Collection.of]

/-- The element types of a tuple type of `n` places. -/
def places? (n : Nat) : Ty → Option (List Ty)
  | tuple ts => if ts.length = n then some ts else none
  | _ => none

/-- The type of an attribute in each of several objects, if all of them have it. -/
def column? (name : String) : List (List (Attr Ty)) → Option (List Ty)
  | [] => some []
  | as :: rest => do
    let a ← Attr.find? as name
    let ts ← column? name rest
    some (a.ty :: ts)

/-- The types at place `i` of several tuples. -/
def placeColumn (i : Nat) (rows : List (List Ty)) : List Ty := rows.filterMap (·[i]?)

theorem exists_of_mem_column? {name : String} {objects : List (List (Attr Ty))} {ts : List Ty}
    (h : column? name objects = some ts) : ∀ t ∈ ts, ∃ as ∈ objects, ∃ a ∈ as, a.ty = t := by
  induction objects generalizing ts with
  | nil =>
    simp only [column?, Option.some.injEq] at h
    subst h
    simp
  | cons as rest ih =>
    simp only [column?, Option.bind_eq_bind, Option.bind_eq_some_iff, Option.some.injEq] at h
    obtain ⟨a, ha, ts', hts, rfl⟩ := h
    intro t ht
    rcases List.mem_cons.mp ht with rfl | ht
    · exact ⟨as, by simp, a, List.mem_of_find?_eq_some ha, rfl⟩
    · obtain ⟨bs, hbs, hb⟩ := ih hts t ht
      exact ⟨bs, by simp [hbs], hb⟩

/-! ### Parts are less nested -/

theorem height_lt_of_elementOf? {c : Collection} {t u : Ty} (h : t.elementOf? c = some u) :
    u.height < t.height := by
  obtain rfl := elementOf?_eq_some_iff.mp h
  cases c <;> simp [Collection.of, height]

theorem height_lt_of_places? {n : Nat} {t u : Ty} {ts : List Ty} (h : t.places? n = some ts)
    (hu : u ∈ ts) : u.height < t.height := by
  cases t <;> simp only [places?, reduceCtorEq] at h
  split at h
  · simp only [Option.some.injEq] at h
    subst h
    have := height_le_heightEach hu
    simp only [height]
    omega
  · simp at h

theorem height_lt_of_attributes? {t : Ty} {as : List (Attr Ty)} {a : Attr Ty}
    (h : t.attributes? = some as) (ha : a ∈ as) : a.ty.height < t.height := by
  cases t <;> simp only [attributes?, reduceCtorEq, Option.some.injEq] at h
  subst h
  have := height_le_heightAttrs ha
  simp only [height]
  omega

theorem mem_of_first {first : Ty} {rest ts : List Ty} (h : distinct ts = first :: rest) :
    first ∈ ts :=
  mem_of_mem_distinct (h ▸ List.mem_cons_self)

theorem heightEach_parts_lt {part? : Ty → Option Ty} {ts es : List Ty} {first : Ty}
    (hfirst : first ∈ ts) (hpos : 0 < first.height)
    (hlt : ∀ {t u : Ty}, part? t = some u → u.height < t.height)
    (h : allParts? part? (distinct ts) = some es) : heightEach es < heightEach ts := by
  refine heightEach_lt ?_ fun e he => ?_
  -- The bound is positive, since the first type has a height.
  · have := height_le_heightEach hfirst
    omega
  · obtain ⟨t, ht, hte⟩ := exists_of_mem_allParts? h e he
    have := height_le_heightEach (mem_of_mem_distinct ht)
    have := hlt hte
    omega

theorem heightEach_placeColumn_lt {n i : Nat} {ts : List Ty} {rows : List (List Ty)} {first : Ty}
    (hfirst : first ∈ ts) (hpos : 0 < first.height)
    (h : allParts? (places? n) (distinct ts) = some rows) :
    heightEach (placeColumn i rows) < heightEach ts := by
  refine heightEach_lt ?_ fun e he => ?_
  · have := height_le_heightEach hfirst
    omega
  · obtain ⟨row, hrow, hi⟩ := List.mem_filterMap.mp he
    obtain ⟨t, ht, hrow⟩ := exists_of_mem_allParts? h row hrow
    have := height_le_heightEach (mem_of_mem_distinct ht)
    have := height_lt_of_places? hrow (List.mem_of_getElem? hi)
    omega

theorem heightEach_column_lt {name : String} {ts col : List Ty}
    {objects : List (List (Attr Ty))} {first : Ty} (hfirst : first ∈ ts)
    (hpos : 0 < first.height) (h : allParts? attributes? (distinct ts) = some objects)
    (hcol : column? name objects = some col) : heightEach col < heightEach ts := by
  refine heightEach_lt ?_ fun e he => ?_
  · have := height_le_heightEach hfirst
    omega
  · obtain ⟨as, has, a, ha, rfl⟩ := exists_of_mem_column? hcol e he
    obtain ⟨t, ht, hta⟩ := exists_of_mem_allParts? h as has
    have := height_le_heightEach (mem_of_mem_distinct ht)
    have := height_lt_of_attributes? hta ha
    omega

/-! ### Unification -/

/-- Whether an attribute may be left out in one of several objects. -/
def optionalSomewhere (name : String) (objects : List (List (Attr Ty))) : Bool :=
  objects.any fun as => ((Attr.find? as name).map (·.isOptional)).getD false

/-- The object of the attributes that several objects share. Objects that have attributes and
share none have nothing in common. -/
def sharedObject (objects : List (List (Attr Ty))) (shared : List (Attr Ty)) : Ty :=
  if shared.isEmpty && objects.all fun as => !as.isEmpty then dynamic else object shared

set_option linter.unusedVariables false in
/-- The type that several types share. Equal types count once, and nothing at all, or types of
different kinds, are `dynamic`. -/
def unify (types : List Ty) : Ty :=
  match hd : distinct types with
  | [] => dynamic
  | [t] => t
  | list _ :: _ =>
    match h : allParts? (elementOf? .list) (distinct types) with
    | some es => list (unify es)
    | none => dynamic
  | set _ :: _ =>
    match h : allParts? (elementOf? .set) (distinct types) with
    | some es => set (unify es)
    | none => dynamic
  | map _ :: _ =>
    match h : allParts? (elementOf? .map) (distinct types) with
    | some es => map (unify es)
    | none => dynamic
  | tuple ts :: _ =>
    match h : allParts? (places? ts.length) (distinct types) with
    | some rows => tuple ((List.range ts.length).map fun i => unify (placeColumn i rows))
    | none => dynamic
  | object attrs :: _ =>
    match h : allParts? attributes? (distinct types) with
    | some objects =>
      sharedObject objects <| attrs.filterMap fun a =>
        match hc : column? a.name objects with
        | some col => some ⟨a.name, unify col, optionalSomewhere a.name objects⟩
        | none => none
    | none => dynamic
  | _ => dynamic
termination_by heightEach types
decreasing_by
  · exact heightEach_parts_lt (mem_of_first hd) (by simp [height]) height_lt_of_elementOf? h
  · exact heightEach_parts_lt (mem_of_first hd) (by simp [height]) height_lt_of_elementOf? h
  · exact heightEach_parts_lt (mem_of_first hd) (by simp [height]) height_lt_of_elementOf? h
  · exact heightEach_placeColumn_lt (mem_of_first hd) (by simp [height]) h
  · exact heightEach_column_lt (mem_of_first hd) (by simp [height]) h hc

end TypedData.Ty
