import Mathlib.Data.List.Nodup
import TypedData.Proofs.Text.Plain
import TypedData.Proofs.Value.Members
import TypedData.Wire.Members

/-!
# Maps and objects of decoded members

## Main results

* `Wire.distinctKeys_spec` — keys that were accepted are distinct and in composed form
* `Wire.wellFormed_mapOf`, `Wire.wellFormed_objectOf` — decoded members make a well-formed map or
  object
* `Wire.mapOf_eq`, `Wire.objectOf_eq`, `Wire.objectOf_eq_of_absent` — the map or object they make
-/

namespace TypedData.Wire

open Value

/-- Keys that were accepted are the given ones in composed form, and distinct. -/
theorem distinctKeys_spec {seen : List String} {given : List (Except DecodeReason String)}
    {keys : List String} (h : distinctKeys seen given = .ok keys) :
    List.Forall₂ (fun r k => ∃ s, r = .ok s ∧ Text.nfc s = k) given keys ∧ keys.Nodup ∧
      ∀ k ∈ keys, k ∉ seen := by
  induction given generalizing seen keys with
  | nil =>
    obtain rfl := Except.ok.inj h
    exact ⟨.nil, .nil, nofun⟩
  | cons r rest ih =>
    cases r with
    | error e => cases h
    | ok s =>
      simp only [distinctKeys] at h
      split at h
      · cases h
      rename_i hseen
      obtain ⟨keys', hkeys, rfl⟩ := Except.map_eq_ok_iff.mp h
      obtain ⟨hforall, hnodup, hnot⟩ := ih hkeys
      refine ⟨.cons ⟨s, rfl, rfl⟩ hforall, List.nodup_cons.mpr ⟨fun hmem => ?_, hnodup⟩, ?_⟩
      · exact hnot _ hmem (by simp)
      · refine List.forall_mem_cons.mpr ⟨by simpa using hseen, fun k hk hmem => ?_⟩
        exact hnot k hk (by simp [hmem])

theorem composed_of_distinctKeys {seen : List String} {given : List (Except DecodeReason String)}
    {keys : List String} (h : distinctKeys seen given = .ok keys) : ∀ k ∈ keys, Text.nfc k = k := by
  intro k hk
  obtain ⟨r, -, s, -, rfl⟩ := (distinctKeys_spec h).1.exists_of_mem_right hk
  exact Text.nfc_nfc s

/-- A map holds what its members decoded to, in key order. -/
theorem exists_of_mapOf {ty : Ty} {members : List Member} {w : Value}
    (h : mapOf ty members = .ok w) : ∃ es, w = mapping ty es ∧
      es.map (·.1) = (sortMembers members).map (·.1) ∧
      ∀ e ∈ es, ∃ m ∈ members, m.1 = e.1 ∧ m.2 = .ok e.2 := by
  rw [mapOf, Except.map_eq_ok_iff] at h
  obtain ⟨es, hes, rfl⟩ := h
  rw [Ty.firstError_map_eq_ok_iff] at hes
  refine ⟨es, rfl, (hes.map_eq_map fun _ _ h => h.1).symm, fun e he => ?_⟩
  obtain ⟨m, hm, hname, hok⟩ := hes.exists_of_mem_right he
  rw [Except.mapError_eq_ok_iff] at hok
  exact ⟨m, List.mem_mergeSort.mp hm, hname, hok⟩

/-- An object holds what its members decoded to, and nulls. -/
theorem exists_of_objectOf {ty : Ty} {attrs : List (Attr Ty)} {members : List Member} {w : Value}
    (h : objectOf ty attrs members = .ok w) : ∃ es, w = mapping ty es ∧
      ∀ e ∈ es, (∃ m ∈ members, m.1 = e.1 ∧ m.2 = .ok e.2) ∨ ∃ a ∈ attrs, e.2 = null a.ty := by
  rw [objectOf, Except.map_eq_ok_iff] at h
  obtain ⟨es, hes, rfl⟩ := h
  rw [attributesOf, Ty.firstError_map_eq_ok_iff] at hes
  refine ⟨sortMembers es, rfl, fun e he => ?_⟩
  obtain ⟨a, ha, hname, hok⟩ := hes.exists_of_mem_right (List.mem_mergeSort.mp he)
  split at hok
  · rename_i k r hfind
    rw [Except.mapError_eq_ok_iff] at hok
    have hkey : k = a.name := by simpa using List.find?_some hfind
    exact .inl ⟨_, List.mem_of_find?_eq_some hfind, hkey.trans hname, hok⟩
  · exact .inr ⟨a, ha, (Except.ok.inj hok).symm⟩

/-- Decoded members under distinct keys in composed form make a map. -/
theorem wellFormed_mapOf {t : Ty} {members : List Member} {w : Value} (ht : t.WellFormed)
    (h : mapOf (.map t) members = .ok w) (hkeys : (members.map (·.1)).Nodup)
    (hcomposed : ∀ m ∈ members, Text.nfc m.1 = m.1)
    (hmembers : ∀ m ∈ members, ∀ v, m.2 = .ok v → v.WellFormed ∧ v.InSlot t) :
    w.WellFormed ∧ w.ty = .map t := by
  obtain ⟨es, rfl, hsorted, hmem⟩ := exists_of_mapOf h
  refine ⟨.mapping_map ht (fun e he => ?_) (fun e he => ?_) ?_ (fun e he => ?_), mapping_ty _ _⟩
  · obtain ⟨m, hm, -, hok⟩ := hmem e he
    exact (hmembers m hm e.2 hok).1
  · obtain ⟨m, hm, -, hok⟩ := hmem e he
    exact (hmembers m hm e.2 hok).2
  · rw [hsorted, sortMembers,
      @List.map_mergeSort _ _ _ (fun a b : String => decide (a ≤ b)) _ _ fun _ _ _ _ => rfl]
    exact pairwise_lt_mergeSort hkeys
  · obtain ⟨m, hm, hname, -⟩ := hmem e he
    rw [← hname, hcomposed m hm]

/-- Decoded members in the slots of their names make an object. -/
theorem wellFormed_objectOf {attrs : List (Attr Ty)} {members : List Member} {w : Value}
    (hty : (Ty.object attrs).WellFormed) (h : objectOf (.object attrs) attrs members = .ok w)
    (hmembers : ∀ m ∈ members, ∀ v, m.2 = .ok v → (attrType attrs m.1).WellFormed →
      v.WellFormed ∧ v.InSlot (attrType attrs m.1)) :
    w.WellFormed ∧ w.ty = .object attrs := by
  have hattrs := Attr.WellFormed.of_object hty
  rw [objectOf, Except.map_eq_ok_iff] at h
  obtain ⟨es, hes, rfl⟩ := h
  refine ⟨wellFormed_object_of_checks hty hes fun a ha v hv => ?_, mapping_ty _ _⟩
  split at hv
  · rename_i k r hfind
    rw [Except.mapError_eq_ok_iff] at hv
    have hname : k = a.name := by simpa using List.find?_some hfind
    have htype : attrType attrs k = a.ty := by
      rw [attrType, hname, Attr.find?_eq_some_of_mem hattrs.names ha]
      rfl
    have := hmembers _ (List.mem_of_find?_eq_some hfind) v hv (htype ▸ hattrs.types a ha)
    rwa [htype] at this
  · obtain rfl := Except.ok.inj hv
    exact ⟨.null (hattrs.types a ha), .of_ty_eq (hattrs.types a ha) rfl⟩

/-! ### Members that decoded -/

/-- Keys that stay apart in composed form are accepted in that form. -/
theorem distinctKeys_map_ok {keys seen : List String} (h : (keys.map Text.nfc ++ seen).Nodup) :
    distinctKeys seen (keys.map .ok) = .ok (keys.map Text.nfc) := by
  induction keys generalizing seen with
  | nil => rfl
  | cons k keys ih =>
    have hmoved : (keys.map Text.nfc ++ Text.nfc k :: seen).Nodup :=
      List.perm_middle.nodup_iff.mpr h
    have hnew : Text.nfc k ∉ seen := fun hmem =>
      (List.nodup_cons.mp h).1 (List.mem_append_right _ hmem)
    simp [distinctKeys, hnew, ih hmoved, Except.map]

/-- Distinct keys in composed form are accepted as they are. -/
theorem distinctKeys_eq {keys seen : List String} (hkeys : (keys ++ seen).Nodup)
    (hcomposed : ∀ k ∈ keys, Text.nfc k = k) : distinctKeys seen (keys.map .ok) = .ok keys := by
  have hself : keys.map Text.nfc = keys := by
    conv_rhs => rw [← List.map_id keys]
    exact List.map_congr_left hcomposed
  rw [distinctKeys_map_ok (by rwa [hself]), hself]

theorem sortMembers_eq_self {α : Type} {members : List (String × α)}
    (h : (members.map (·.1)).Pairwise (· < ·)) : sortMembers members = members := by
  refine List.mergeSort_of_pairwise ((List.pairwise_map.mp h).imp fun hlt => ?_)
  exact decide_eq_true (Std.le_of_lt hlt)

/-- Members that decoded make a map of their values, in key order. -/
theorem mapOf_map_ok {ty : Ty} (es : Entries Value) :
    mapOf ty (es.map fun e => (e.1, .ok e.2)) = .ok (mapping ty (sortMembers es)) := by
  have hsorted : sortMembers (es.map fun e => ((e.1, .ok e.2) : Member)) =
      (sortMembers es).map fun e => (e.1, .ok e.2) := by
    rw [sortMembers, sortMembers, @List.map_mergeSort _ _ _
      (fun a b : Member => decide (a.1 ≤ b.1)) _ _ fun _ _ _ _ => rfl]
  rw [mapOf, hsorted, List.map_map, Except.map_eq_ok_iff]
  refine ⟨sortMembers es, ?_, rfl⟩
  rw [Ty.firstError_eq_ok_iff, List.forall₂_map_left_iff, List.forall₂_same]
  exact fun _ _ => ⟨rfl, rfl⟩

/-- Members in key order make a map of their values. -/
theorem mapOf_eq {ty : Ty} {es : Entries Value} (h : (es.map (·.1)).Pairwise (· < ·)) :
    mapOf ty (es.map fun e => (e.1, .ok e.2)) = .ok (mapping ty es) := by
  rw [mapOf_map_ok, sortMembers_eq_self h]

/-- An entry is found under its key, if no two keys agree. -/
theorem find?_key_eq {α : Type} {es : Entries α} (h : (es.map (·.1)).Nodup) {e : String × α}
    (he : e ∈ es) : es.find? (·.1 == e.1) = some e := by
  obtain ⟨f, hf⟩ : ∃ f, es.find? (·.1 == e.1) = some f :=
    Option.isSome_iff_exists.mp (List.find?_isSome.mpr ⟨e, he, beq_self_eq_true _⟩)
  have hname : f.1 = e.1 := by simpa using List.find?_some hf
  rw [hf, List.inj_on_of_nodup_map h (List.mem_of_find?_eq_some hf) he hname]

/-- A map is made only if all of its members decoded. -/
theorem ok_of_mapOf {ty : Ty} {members : List Member} {w : Value} (h : mapOf ty members = .ok w) :
    ∀ m ∈ members, ∃ v, m.2 = .ok v := by
  rw [mapOf, Except.map_eq_ok_iff] at h
  obtain ⟨es, hes, -⟩ := h
  rw [Ty.firstError_map_eq_ok_iff] at hes
  intro m hm
  obtain ⟨e, -, -, hok⟩ := hes.exists_of_mem_left (List.mem_mergeSort.mpr hm)
  exact ⟨e.2, Except.mapError_eq_ok_iff.mp hok⟩

/-- An object is made only if all of its members decoded, as long as they are declared. -/
theorem ok_of_objectOf {ty : Ty} {attrs : List (Attr Ty)} {members : List Member} {w : Value}
    (hkeys : (members.map (·.1)).Nodup)
    (hdeclared : ∀ m ∈ members, m.1 ∈ attrs.map (·.name))
    (h : objectOf ty attrs members = .ok w) : ∀ m ∈ members, ∃ v, m.2 = .ok v := by
  rw [objectOf, Except.map_eq_ok_iff] at h
  obtain ⟨es, hes, -⟩ := h
  rw [attributesOf, Ty.firstError_map_eq_ok_iff] at hes
  intro m hm
  obtain ⟨a, ha, hname⟩ := List.mem_map.mp (hdeclared m hm)
  obtain ⟨e, -, -, hok⟩ := hes.exists_of_mem_left ha
  rw [hname, find?_key_eq hkeys hm] at hok
  exact ⟨e.2, Except.mapError_eq_ok_iff.mp hok⟩

/-- Keys are accepted exactly if each of them is declared. -/
theorem undeclared?_eq_none_iff {attrs : List (Attr Ty)} {keys : List String} :
    undeclared? attrs keys = none ↔ ∀ k ∈ keys, k ∈ attrs.map (·.name) := by
  simp only [undeclared?, List.head?_eq_none_iff, List.filter_eq_nil_iff, List.mem_mergeSort,
    ← Attr.find?_isSome_iff, Bool.not_eq_true, Option.isNone_eq_false_iff]

theorem not_mem_of_undeclared? {attrs : List (Attr Ty)} {keys : List String} {k : String}
    (h : undeclared? attrs keys = some k) : k ∈ keys ∧ Attr.find? attrs k = none := by
  have hmem := List.mem_of_head? h
  rw [List.mem_filter, List.mem_mergeSort, Option.isNone_iff_eq_none] at hmem
  exact hmem

/-- Members under the declared names make an object of their values. -/
theorem objectOf_eq {ty : Ty} {attrs : List (Attr Ty)} {es : Entries Value}
    (hnames : (attrs.map (·.name)).Nodup) (hkeys : es.map (·.1) = Attr.sortedNames attrs) :
    objectOf ty attrs (es.map fun e => (e.1, .ok e.2)) = .ok (mapping ty es) := by
  have hperm : (es.map (·.1)).Perm (attrs.map (·.name)) := hkeys ▸ List.mergeSort_perm _ _
  have hnodup : (es.map (·.1)).Nodup := hperm.nodup_iff.mpr hnames
  have hmembers : ((es.map fun e => ((e.1, .ok e.2) : Member)).map (·.1)).Nodup := by
    rwa [List.map_map]
  let value (k : String) : Value := (Entries.get? es k).getD default
  have hvalue {e : String × Value} (he : e ∈ es) : value e.1 = e.2 := by
    simp only [value, Entries.get?, find?_key_eq hnodup he, Option.map_some, Option.getD_some]
  have hattributes : Ty.firstError (attributesOf attrs (es.map fun e => (e.1, .ok e.2))) =
      .ok (attrs.map fun a => (a.name, value a.name)) := by
    rw [attributesOf, Ty.firstError_map_eq_ok_iff, List.forall₂_map_right_iff, List.forall₂_same]
    refine fun a ha => ⟨rfl, ?_⟩
    obtain ⟨e, he, hname⟩ := List.mem_map.mp (hperm.mem_iff.mpr (List.mem_map_of_mem ha))
    have hfound := find?_key_eq hmembers (e := (e.1, .ok e.2)) (List.mem_map_of_mem he)
    rw [← hname, hvalue he]
    simp only [hfound]
    rfl
  -- Sorted by name, the attributes are the given entries again.
  have hsorted : sortMembers (attrs.map fun a => (a.name, value a.name)) = es := by
    calc sortMembers (attrs.map fun a => (a.name, value a.name))
        = (Attr.sortedNames attrs).map fun k => (k, value k) := by
          rw [Attr.sortedNames, @List.map_mergeSort _ _ _
            (fun a b : String × Value => decide (a.1 ≤ b.1)) _ _ fun _ _ _ _ => rfl, List.map_map]
          rfl
      _ = es.map fun e => (e.1, value e.1) := by rw [← hkeys, List.map_map]; rfl
      _ = es := by
          conv_rhs => rw [← List.map_id es]
          exact List.map_congr_left fun e he => by rw [hvalue he]; rfl
  rw [objectOf, hattributes, Except.map, hsorted]

/-- Members under some of the declared names make the object that has nulls under the others. -/
theorem objectOf_eq_of_absent {ty : Ty} {attrs : List (Attr Ty)} {es fs : Entries Value}
    (hnames : (attrs.map (·.name)).Nodup) (hkeys : fs.map (·.1) = Attr.sortedNames attrs)
    (hnodup : (es.map (·.1)).Nodup) (hmem : ∀ e ∈ es, e ∈ fs)
    (habsent : ∀ f ∈ fs, f.1 ∉ es.map (·.1) → ∀ a ∈ attrs, a.name = f.1 → f.2 = null a.ty) :
    objectOf ty attrs (es.map fun e => (e.1, .ok e.2)) = .ok (mapping ty fs) := by
  have hperm : (fs.map (·.1)).Perm (attrs.map (·.name)) := hkeys ▸ List.mergeSort_perm _ _
  have hfs : (fs.map (·.1)).Nodup := hperm.nodup_iff.mpr hnames
  have hfind {gs : Entries Value} (hgs : (gs.map (·.1)).Nodup) {g : String × Value} (hg : g ∈ gs) :
      (gs.map fun e => ((e.1, .ok e.2) : Member)).find? (·.1 == g.1) = some (g.1, .ok g.2) := by
    have hmembers : ((gs.map fun e => ((e.1, .ok e.2) : Member)).map (·.1)).Nodup := by
      rwa [List.map_map]
    exact find?_key_eq hmembers (e := (g.1, .ok g.2)) (List.mem_map_of_mem hg)
  rw [← objectOf_eq hnames hkeys, objectOf, objectOf]
  congr 2
  refine List.map_congr_left fun a ha => congrArg (Prod.mk a.name) ?_
  obtain ⟨f, hf, hname⟩ := List.mem_map.mp (hperm.mem_iff.mpr (List.mem_map_of_mem ha))
  rw [← hname, hfind hfs hf]
  by_cases hes : f.1 ∈ es.map (·.1)
  · obtain ⟨e, he, hkey⟩ := List.mem_map.mp hes
    obtain rfl := List.inj_on_of_nodup_map hfs (hmem e he) hf hkey
    rw [hfind hnodup he]
  · have hnone : (es.map fun e => ((e.1, .ok e.2) : Member)).find? (·.1 == f.1) = none := by
      rw [List.find?_eq_none]
      intro m hm hkey
      obtain ⟨e, he, rfl⟩ := List.mem_map.mp hm
      exact hes (List.mem_map.mpr ⟨e, he, by simpa using hkey⟩)
    rw [hnone, habsent f hf hes a ha hname.symm]
    rfl

end TypedData.Wire
