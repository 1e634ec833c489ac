import TypedData.Inference
import TypedData.Proofs.Ty.Unify

/-!
# Inferred types are well-formed

Native data may hold values that have a type already. If those types are well-formed, then so is
the type of the whole.

## Main definitions

* `Native.values` — the typed values inside native data, also inside keys
* `Native.children` — the native data directly inside

## Main results

* `Native.induction` — induction on native data
* `Native.wellFormed_inferAt` — inferred types are well-formed
-/

namespace TypedData.Native

/-! ### Typed values inside native data -/

mutual

/-- The typed values inside native data, also those inside keys. -/
def values : Native → List Value
  | .value v => [v]
  | .list items | .tuple items | .set items => valuesOfItems items
  | .map entries => valuesOfEntries entries
  | .absent | .bool _ | .int _ | .float _ | .number _ | .string _ | .bytes _ | .capsule _ => []

/-- The typed values inside several items. -/
def valuesOfItems : List Native → List Value
  | [] => []
  | raw :: rest => raw.values ++ valuesOfItems rest

/-- The typed values inside several entries. -/
def valuesOfEntries : List (Native × Native) → List Value
  | [] => []
  | (k, raw) :: rest => k.values ++ (raw.values ++ valuesOfEntries rest)

end

theorem valuesOfItems_eq_flatMap (items : List Native) :
    valuesOfItems items = items.flatMap values := by
  induction items with
  | nil => rfl
  | cons raw rest ih => rw [valuesOfItems, ih, List.flatMap_cons]

theorem valuesOfEntries_eq_flatMap (entries : List (Native × Native)) :
    valuesOfEntries entries = entries.flatMap fun e => e.1.values ++ e.2.values := by
  induction entries with
  | nil => rfl
  | cons e rest ih => rw [valuesOfEntries, ih, List.flatMap_cons, List.append_assoc]

theorem mem_valuesOfItems {items : List Native} {raw : Native} {v : Value} (hraw : raw ∈ items)
    (hv : v ∈ raw.values) : v ∈ valuesOfItems items := by
  rw [valuesOfItems_eq_flatMap]
  exact List.mem_flatMap.mpr ⟨raw, hraw, hv⟩

theorem mem_valuesOfEntries {entries : List (Native × Native)} {e : Native × Native} {v : Value}
    (he : e ∈ entries) (hv : v ∈ e.2.values) : v ∈ valuesOfEntries entries := by
  rw [valuesOfEntries_eq_flatMap]
  exact List.mem_flatMap.mpr ⟨e, he, List.mem_append_right _ hv⟩

/-! ### Induction -/

/-- What holds of native data whenever it holds of the items and the values of entries directly
inside holds of all native data. -/
@[elab_as_elim]
theorem induction {P : Native → Prop} (absent : P absent) (bool : ∀ b, P (bool b))
    (int : ∀ n, P (int n)) (float : ∀ f, P (float f)) (number : ∀ n, P (number n))
    (string : ∀ s, P (string s)) (bytes : ∀ b, P (bytes b))
    (list : ∀ items, (∀ raw ∈ items, P raw) → P (list items))
    (tuple : ∀ items, (∀ raw ∈ items, P raw) → P (tuple items))
    (set : ∀ items, (∀ raw ∈ items, P raw) → P (set items))
    (map : ∀ entries : List (Native × Native), (∀ e ∈ entries, P e.2) → P (map entries))
    (value : ∀ v, P (value v)) (capsule : ∀ h, P (capsule h)) (raw : Native) : P raw :=
  @Native.rec P (fun items => ∀ raw ∈ items, P raw) (fun entries => ∀ e ∈ entries, P e.2)
    (fun e => P e.2)
    absent bool int float number string bytes list tuple set map value capsule
    (fun _ h => absurd h List.not_mem_nil) (fun _ _ h hs => List.forall_mem_cons.mpr ⟨h, hs⟩)
    (fun _ h => absurd h List.not_mem_nil) (fun _ _ h hs => List.forall_mem_cons.mpr ⟨h, hs⟩)
    (fun _ _ _ h => h) raw

/-- The items, or the values of the entries, directly inside. -/
def children : Native → List Native
  | list items | tuple items | set items => items
  | map entries => entries.map (·.2)
  | _ => []

theorem mem_values_of_mem_children {raw c : Native} {v : Value} (hc : c ∈ raw.children)
    (hv : v ∈ c.values) : v ∈ raw.values := by
  cases raw with
  | list items | tuple items | set items => exact mem_valuesOfItems hc hv
  | map entries =>
    obtain ⟨e, he, rfl⟩ := List.mem_map.mp hc
    exact mem_valuesOfEntries he hv
  | _ => cases hc

/-- The same principle without a look at the kind of the data. -/
@[elab_as_elim]
theorem induction_children {P : Native → Prop}
    (h : ∀ raw : Native, (∀ c ∈ raw.children, P c) → P raw) (raw : Native) : P raw := by
  induction raw using Native.induction with
  | list items ih | tuple items ih | set items ih => exact h _ ih
  | map entries ih =>
    refine h _ fun c hc => ?_
    obtain ⟨e, he, rfl⟩ := List.mem_map.mp hc
    exact ih e he
  | _ => exact h _ nofun

/-! ### Inference -/

variable {limit depth : Nat}

theorem mem_inferEach {items : List Native} {t : Ty} (h : t ∈ inferEach limit depth items) :
    ∃ raw ∈ items, inferAt limit depth raw = t := by
  induction items with
  | nil => cases h
  | cons raw rest ih =>
    rw [inferEach] at h
    rcases List.mem_cons.mp h with rfl | h
    · exact ⟨raw, by simp, rfl⟩
    · obtain ⟨raw', hraw, ht⟩ := ih h
      exact ⟨raw', by simp [hraw], ht⟩

theorem mem_inferEntries {entries : List (Native × Native)} {p : Native × Ty}
    (h : p ∈ inferEntries limit depth entries) :
    ∃ e ∈ entries, inferAt limit depth e.2 = p.2 := by
  induction entries with
  | nil => cases h
  | cons e rest ih =>
    rw [inferEntries] at h
    rcases List.mem_cons.mp h with rfl | h
    · exact ⟨e, by simp, rfl⟩
    · obtain ⟨e', he, ht⟩ := ih h
      exact ⟨e', by simp [he], ht⟩

theorem exists_of_mem_attributesOfKeys? {entries : List (Native × Ty)}
    {attrs : List (String × Ty)} (h : attributesOfKeys? entries = some attrs) :
    ∀ a ∈ attrs, ∃ e ∈ entries, e.2 = a.2 := by
  induction entries generalizing attrs with
  | nil =>
    obtain rfl := Option.some.inj h
    simp
  | cons e rest ih =>
    simp only [attributesOfKeys?, Option.bind_eq_bind, Option.bind_eq_some_iff,
      Option.some.injEq] at h
    obtain ⟨key, -, attrs', hattrs, rfl⟩ := h
    refine List.forall_mem_cons.mpr ⟨⟨e, by simp, rfl⟩, fun a ha => ?_⟩
    obtain ⟨e', he, heq⟩ := ih hattrs a ha
    exact ⟨e', by simp [he], heq⟩

theorem wellFormed_inferMap {entries : List (Native × Ty)} (h : ∀ e ∈ entries, e.2.WellFormed) :
    (inferMap entries).WellFormed := by
  rw [inferMap]
  split
  · rename_i attrs hattrs
    refine Ty.wellFormed_ofAttributes fun a ha => ?_
    obtain ⟨e, he, heq⟩ := exists_of_mem_attributesOfKeys? hattrs a ha
    exact heq ▸ h e he
  · refine .map (Ty.wellFormed_unify fun t ht => ?_)
    obtain ⟨e, he, rfl⟩ := List.mem_map.mp ht
    exact h e he

/-- The type of native data is well-formed if the types of the values inside are. -/
theorem wellFormed_inferAt {raw : Native} (h : ∀ v ∈ raw.values, v.ty.WellFormed) :
    (inferAt limit depth raw).WellFormed := by
  have hitems {items : List Native} {depth : Nat}
      (ih : ∀ raw ∈ items, ∀ {depth}, (∀ v ∈ raw.values, v.ty.WellFormed) →
        (inferAt limit depth raw).WellFormed)
      (h : ∀ v ∈ valuesOfItems items, v.ty.WellFormed) :
      ∀ t ∈ inferEach limit depth items, t.WellFormed := by
    intro t ht
    obtain ⟨raw, hraw, rfl⟩ := mem_inferEach ht
    exact ih raw hraw fun v hv => h v (mem_valuesOfItems hraw hv)
  induction raw using Native.induction generalizing depth with
  | absent | bool | int | float | number | string | bytes | capsule =>
    rw [inferAt]
    split <;> constructor
  | value v =>
    rw [inferAt]
    split
    · exact .dynamic
    · exact h v (by simp [values])
  | list items ih =>
    rw [inferAt]
    split
    · exact .dynamic
    · exact .list (Ty.wellFormed_unify (hitems ih h))
  | set items ih =>
    rw [inferAt]
    split
    · exact .dynamic
    · exact .set (Ty.wellFormed_unify (hitems ih h))
  | tuple items ih =>
    rw [inferAt]
    split
    · exact .dynamic
    · exact .tuple (hitems ih h)
  | map entries ih =>
    rw [inferAt]
    split
    · exact .dynamic
    · refine wellFormed_inferMap fun p hp => ?_
      obtain ⟨e, he, heq⟩ := mem_inferEntries hp
      exact heq ▸ ih e he fun v hv => h v (mem_valuesOfEntries he hv)

end TypedData.Native
