import TypedData.Proofs.Checks
import TypedData.Proofs.Json.FirstValue
import TypedData.Proofs.Json.Induction
import TypedData.Proofs.Text.Utf8
import TypedData.Proofs.Ty.Objects

/-!
# Types from text

A type that is read from a text is well-formed. One reader takes a whole text and one the first
value of it, and they part where anything but blanks stands behind that value.

## Main definitions

* `Ty.Describable` — types that have a text

## Main results

* `Ty.describable_ofJson` — a JSON value describes a well-formed type without capsules, if any
* `Ty.ofFirstOfBytes_iff_beginning` — which types are read from the front of a text, and which of
  them from the whole of it
-/

namespace TypedData.Ty

/-- A well-formed type without capsules inside; only such types have a text. -/
structure Describable (t : Ty) : Prop where
  wellFormed : t.WellFormed
  noCapsule : t.hasCapsule = false

namespace Describable

variable {t : Ty}

theorem list (h : t.Describable) : (Ty.list t).Describable := ⟨.list h.wellFormed, h.noCapsule⟩

theorem set (h : t.Describable) : (Ty.set t).Describable := ⟨.set h.wellFormed, h.noCapsule⟩

theorem map (h : t.Describable) : (Ty.map t).Describable := ⟨.map h.wellFormed, h.noCapsule⟩

theorem tuple {ts : List Ty} (h : ∀ t ∈ ts, t.Describable) : (Ty.tuple ts).Describable := by
  refine ⟨.tuple fun t ht => (h t ht).wellFormed, ?_⟩
  rw [hasCapsule, anyCapsule_eq_any, List.any_eq_false]
  exact fun t ht => by simp [(h t ht).noCapsule]

end Describable

private theorem describable_ofPrimitiveName {name : String} {t : Ty}
    (h : ofPrimitiveName name = .ok t) : t.Describable := by
  rw [ofPrimitiveName] at h
  split_ifs at h <;> cases h
  · exact ⟨.bool, rfl⟩
  · exact ⟨.number, rfl⟩
  · exact ⟨.string, rfl⟩
  · exact ⟨.dynamic, rfl⟩

private theorem describable_ofObjectParts {attrs : List (String × Ty)} {optional : List Json}
    {t : Ty} (hattrs : ∀ a ∈ attrs, a.2.Describable) (h : ofObjectParts attrs optional = .ok t) :
    t.Describable := by
  rw [ofObjectParts] at h
  split at h
  · cases h
  · split at h
    · cases h
    · rename_i hty
      obtain rfl := Except.ok.inj h
      refine ⟨wellFormed_ofAttributesWithOptional (fun a ha => (hattrs a ha).wellFormed) hty, ?_⟩
      obtain ⟨as, rfl, has⟩ := exists_object_of_ofAttributesWithOptional hattrs hty
      rw [hasCapsule, anyCapsuleAttr_eq_any, List.any_eq_false]
      exact fun a ha => by simp [(has a ha).noCapsule]

private theorem describable_ofJsonElems {js : List Json} {ts : List Ty}
    (hjs : ∀ j ∈ js, ∀ t, ofJson j = .ok t → t.Describable) (h : ofJsonElems js = .ok ts) :
    ∀ t ∈ ts, t.Describable := by
  induction js generalizing ts with
  | nil =>
    obtain rfl := Except.ok.inj h
    simp
  | cons j js ih =>
    rw [List.forall_mem_cons] at hjs
    rw [ofJsonElems] at h
    split at h
    · cases h
    · rename_i t ht
      obtain ⟨ts', hts, rfl⟩ := Except.map_eq_ok_iff.mp h
      exact List.forall_mem_cons.mpr ⟨hjs.1 t ht, ih hjs.2 hts⟩

private theorem describable_ofJsonFields {fs : List (String × Json)} {attrs : List (String × Ty)}
    (hfs : ∀ f ∈ fs, ∀ t, ofJson f.2 = .ok t → t.Describable) (h : ofJsonFields fs = .ok attrs) :
    ∀ a ∈ attrs, a.2.Describable := by
  induction fs generalizing attrs with
  | nil =>
    obtain rfl := Except.ok.inj h
    simp
  | cons f fs ih =>
    rw [List.forall_mem_cons] at hfs
    rw [ofJsonFields] at h
    split at h
    · cases h
    · rename_i t ht
      obtain ⟨attrs', hattrs, rfl⟩ := Except.map_eq_ok_iff.mp h
      exact List.forall_mem_cons.mpr ⟨hfs.1 t ht, ih hfs.2 hattrs⟩

/-- What JSON values and the values directly inside them describe is well-formed. -/
private theorem describable_of_describes (j : Json) :
    (∀ t, ofJson j = .ok t → t.Describable) ∧
      ∀ c ∈ j.children, ∀ t, ofJson c = .ok t → t.Describable := by
  induction j using Json.induction with
  | null | bool | number => exact ⟨nofun, nofun⟩
  | string name => exact ⟨fun t => describable_ofPrimitiveName, nofun⟩
  | object fs ih =>
    refine ⟨nofun, fun c hc => ?_⟩
    obtain ⟨f, hf, rfl⟩ := List.mem_map.mp hc
    exact (ih f hf).1
  | array js ih =>
    refine ⟨fun t h => ?_, fun c hc => (ih c hc).1⟩
    unfold ofJson at h
    split at h
    · rename_i heq
      cases heq
    · -- A kind and an array, which is a list of types or itself a type.
      rename_i kind parts heq
      obtain rfl := Json.array.inj heq
      have hparts := ih (.array parts) (by simp)
      split_ifs at h
      · obtain ⟨ts, hts, rfl⟩ := Except.map_eq_ok_iff.mp h
        exact .tuple (describable_ofJsonElems hparts.2 hts)
      · obtain ⟨u, hu, rfl⟩ := Except.map_eq_ok_iff.mp h
        exact .list (hparts.1 u hu)
      · obtain ⟨u, hu, rfl⟩ := Except.map_eq_ok_iff.mp h
        exact .set (hparts.1 u hu)
      · obtain ⟨u, hu, rfl⟩ := Except.map_eq_ok_iff.mp h
        exact .map (hparts.1 u hu)
    · -- A kind and the types of attributes.
      rename_i kind fields heq
      obtain rfl := Json.array.inj heq
      have hfields := (ih (.object fields) (by simp)).2
      split_ifs at h
      split at h
      · cases h
      · rename_i attrs hattrs
        refine describable_ofObjectParts (describable_ofJsonFields (fun f hf => ?_) hattrs) h
        exact hfields f.2 (List.mem_map_of_mem hf)
    · -- The same with the names of attributes that may be left out.
      rename_i kind fields optional heq
      obtain rfl := Json.array.inj heq
      have hfields := (ih (.object fields) (by simp)).2
      split_ifs at h
      split at h
      · cases h
      · rename_i attrs hattrs
        refine describable_ofObjectParts (describable_ofJsonFields (fun f hf => ?_) hattrs) h
        exact hfields f.2 (List.mem_map_of_mem hf)
    · -- A kind and what describes a type.
      rename_i kind part _ _ heq
      obtain rfl := Json.array.inj heq
      have hpart := (ih part (by simp)).1
      split_ifs at h
      · obtain ⟨u, hu, rfl⟩ := Except.map_eq_ok_iff.mp h
        exact .list (hpart u hu)
      · obtain ⟨u, hu, rfl⟩ := Except.map_eq_ok_iff.mp h
        exact .set (hpart u hu)
      · obtain ⟨u, hu, rfl⟩ := Except.map_eq_ok_iff.mp h
        exact .map (hpart u hu)
    all_goals cases h

/-- A JSON value describes a well-formed type without capsules, if any. -/
theorem describable_ofJson {j : Json} {t : Ty} (h : ofJson j = .ok t) : t.Describable :=
  (describable_of_describes j).1 t h

theorem ofRead_eq_ok_iff {r : Except Json.ReadError Json} {t : Ty} :
    ofRead r = .ok t ↔ ∃ j, r = .ok j ∧ ofJson j = .ok t := by
  cases r with
  | error e => exact iff_of_false nofun nofun
  | ok j => exact ⟨fun h => ⟨j, rfl, h⟩, fun ⟨_, hj, h⟩ => Except.ok.inj hj ▸ h⟩

/-- A text describes a well-formed type without capsules, if any. -/
theorem describable_ofText {s : String} {t : Ty} (h : ofText s = .ok t) : t.Describable := by
  obtain ⟨j, -, hj⟩ := ofRead_eq_ok_iff.mp h
  exact describable_ofJson hj

/-! ### Text in front of other text -/

theorem ofJson_ne_number {j : Json} {t : Ty} (h : ofJson j = .ok t) (s : String) :
    j ≠ .number s := by
  rintro rfl
  have hother : ofJson (.number s) = .error (.notDescription (Json.number s).compact) := rfl
  rw [hother] at h
  cases h

theorem ofFirstOfBytes_of_toString? {bytes : List UInt8} {s : String}
    (h : Text.Utf8.toString? bytes = some s) :
    ofFirstOfBytes bytes = ofRead (Json.readFirst s.toList) := by
  obtain ⟨cs, hcs, rfl⟩ := Option.map_eq_some_iff.mp h
  have htext : Json.textOfBytes bytes = cs := by
    rw [Text.Utf8.decode?] at hcs
    rw [Json.textOfBytes]
    split at hcs
    · rename_i hsplit
      rw [hsplit]
      exact Option.some.inj hcs
    · cases hcs
  rw [ofFirstOfBytes, Json.readFirstBytes, htext, String.toList_ofList]

/-- The types at the front of a text are those of its beginnings. Such a type is that of the whole
text if only blanks follow, and else the text is malformed. -/
theorem ofFirstOfBytes_iff_beginning {bytes : List UInt8} {s : String}
    (h : Text.Utf8.toString? bytes = some s) (t : Ty) :
    (ofFirstOfBytes bytes = .ok t ↔ ∃ p rest, s = p ++ rest ∧ ofText p = .ok t) ∧
      ∀ p rest, s = p ++ rest → ofText p = .ok t →
        ofText s = if rest.toList.all Json.Token.isSpace then .ok t
          else .error (.unreadable .malformed) := by
  rw [ofFirstOfBytes_of_toString? h]
  have hread (p rest : String) (hp : ofText p = .ok t) :
      ofRead (Json.readFirst (p ++ rest).toList) = .ok t ∧
        ofText (p ++ rest) = if rest.toList.all Json.Token.isSpace then .ok t
          else .error (.unreadable .malformed) := by
    obtain ⟨j, hj, ht⟩ := ofRead_eq_ok_iff.mp hp
    obtain ⟨hfirst, hwhole⟩ := Json.read_append hj (ofJson_ne_number ht) rest.toList
    rw [String.toList_append, ofText, String.toList_append, hfirst, hwhole]
    refine ⟨ht, ?_⟩
    split
    · exact ht
    · rfl
  refine ⟨⟨fun ht => ?_, ?_⟩, ?_⟩
  · obtain ⟨j, hj, ht⟩ := ofRead_eq_ok_iff.mp ht
    obtain ⟨p, rest, hs, hp⟩ := Json.exists_read_of_readFirst hj
    refine ⟨String.ofList p, String.ofList rest, ?_, ?_⟩
    · rw [← String.ofList_append, ← hs, String.ofList_toList]
    · rw [ofText, String.toList_ofList, hp]
      exact ht
  · rintro ⟨p, rest, rfl, hp⟩
    exact (hread p rest hp).1
  · rintro p rest rfl hp
    exact (hread p rest hp).2

/-- A bracket too many behind the type of lists. -/
theorem ofFirstOfBytes_iff_beginning_bracket :
    ofFirstOfBytes (Text.Utf8.ofString "[\"list\",\"bool\"] ]") = .ok (.list .bool) ∧
      ofText "[\"list\",\"bool\"] ]" = .error (.unreadable .malformed) := by
  have hbytes : Text.Utf8.toString? (Text.Utf8.ofString "[\"list\",\"bool\"] ]") =
      some "[\"list\",\"bool\"] ]" := Text.Utf8.toString?_ofString _
  have hsplit : "[\"list\",\"bool\"] ]" = "[\"list\",\"bool\"]" ++ " ]" := by decide
  obtain ⟨hfirst, hwhole⟩ := ofFirstOfBytes_iff_beginning hbytes (.list .bool)
  exact ⟨hfirst.mpr ⟨_, _, hsplit, rfl⟩, hwhole _ _ hsplit rfl⟩

/-- What is read as a type from the front of a text is not always a type on the whole. -/
theorem ofFirstOfBytes_of_trailing_text :
    ∃ bytes s, Text.Utf8.toString? bytes = some s ∧ ofFirstOfBytes bytes = .ok .bool ∧
      ofText s = .error (.unreadable .malformed) :=
  ⟨Text.Utf8.ofString "\"bool\" x", "\"bool\" x", Text.Utf8.toString?_ofString _, rfl, rfl⟩

end TypedData.Ty
