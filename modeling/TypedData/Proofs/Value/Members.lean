import TypedData.Conversion
import TypedData.Proofs.Checks
import TypedData.Proofs.Ty.Objects
import TypedData.Proofs.Value.WellFormed

/-!
# Containers of members that were checked one by one

Whoever makes a container checks its members first and then puts it together. What is common to
all of them is here: which slots the elements of a list, set or tuple fill, and how checked
members become a map or an object.

## Main definitions

* `Value.slots?` — the types of the places of elements

## Main results

* `Value.wellFormed_sequence_of_checks` — checked elements make a list, set or tuple
* `Value.wellFormed_sorted_map` — checked members under distinct keys make a map
* `Value.wellFormed_object_of_checks` — checked attributes make an object
-/

namespace TypedData.Value

/-! ### Elements -/

/-- The types of the places of `n` elements. -/
def slots? (ty : Ty) (n : Nat) : Option (List Ty) :=
  match ty with
  | .list t | .set t => some (List.replicate n t)
  | .tuple ts => if n = ts.length then some ts else none
  | _ => none

/-- There are as many places as elements, their types are well-formed, and elements in these
places fill the whole. -/
theorem fills_of_slots? {ty : Ty} {n : Nat} {slots : List Ty} (hty : ty.WellFormed)
    (h : slots? ty n = some slots) :
    n = slots.length ∧ (∀ t ∈ slots, t.WellFormed) ∧
      ∀ vs, List.Forall₂ InSlot vs slots → Fills ty vs := by
  have hreplicate {t : Ty} {vs : List Value} (h : List.Forall₂ InSlot vs (List.replicate n t)) :
      ∀ v ∈ vs, v.InSlot t := by
    intro v hv
    obtain ⟨u, hu, hvu⟩ := h.exists_of_mem_left hv
    rwa [List.eq_of_mem_replicate hu] at hvu
  unfold slots? at h
  cases hty with
  | list ht | set ht =>
    obtain rfl := Option.some.inj h
    exact ⟨by simp, fun t hmem => List.eq_of_mem_replicate hmem ▸ ht, fun vs => hreplicate⟩
  | tuple hts =>
    simp only at h
    split at h
    · obtain rfl := Option.some.inj h
      exact ⟨‹_›, hts, fun vs hvs => hvs⟩
    · cases h
  | _ => cases h

/-- Elements that were checked one by one, each for its place, make a list, set or tuple. -/
theorem wellFormed_sequence_of_checks {α : Type} {xs : List α} {check : α → Ty → Value → Prop}
    {ty : Ty} {n : Nat} {slots : List Ty} {vs : List Value} (hty : ty.WellFormed)
    (hslots : slots? ty n = some slots)
    (hvs : List.Forall₂ (fun v t => ∃ x ∈ xs, check x t v) vs slots)
    (hcheck : ∀ x ∈ xs, ∀ t v, t.WellFormed → check x t v → v.WellFormed ∧ v.InSlot t) :
    (sequence ty vs).WellFormed := by
  obtain ⟨-, htypes, hfills⟩ := fills_of_slots? hty hslots
  refine .sequence hty (hfills vs (hvs.imp_of_mem ?_)) fun v hv => ?_
  · rintro v - t ht ⟨x, hx, hv⟩
    exact (hcheck x hx t v (htypes t ht) hv).2
  · obtain ⟨t, ht, x, hx, hv⟩ := hvs.exists_of_mem_left hv
    exact (hcheck x hx t v (htypes t ht) hv).1

/-! ### Entries in key order -/

/-- The keys of sorted entries are the sorted keys. -/
theorem keys_sortEntries (es : List (String × Value)) :
    (sortEntries es).map (·.1) = (es.map (·.1)).mergeSort fun a b => decide (a ≤ b) := by
  rw [sortEntries]
  exact List.map_mergeSort fun _ _ _ _ => rfl

theorem mem_sortEntries {es : List (String × Value)} {e : String × Value} :
    e ∈ sortEntries es ↔ e ∈ es := by
  rw [sortEntries, List.mem_mergeSort]

/-- Distinct keys in order are in strict order. -/
theorem pairwise_lt_mergeSort {keys : List String} (h : keys.Nodup) :
    (keys.mergeSort fun a b => decide (a ≤ b)).Pairwise (· < ·) := by
  have hsorted := @List.pairwise_mergeSort _ (fun a b : String => decide (a ≤ b))
    (fun a b c hab hbc => by
      simp only [decide_eq_true_eq] at hab hbc ⊢
      exact String.le_trans hab hbc)
    (fun a b => by simpa using String.le_total a b) keys
  have hnodup : (keys.mergeSort fun a b => decide (a ≤ b)).Nodup :=
    (List.mergeSort_perm _ _).nodup_iff.mpr h
  refine (hsorted.and hnodup).imp fun ⟨hle, hne⟩ => ?_
  exact Std.lt_of_le_of_ne (by simpa using hle) hne

/-! ### Maps and objects -/

/-- Checked members under distinct keys in composed form make a map. -/
theorem wellFormed_sorted_map {t : Ty} {es : List (String × Value)} (ht : t.WellFormed)
    (h : ∀ e ∈ es, e.2.WellFormed ∧ e.2.InSlot t) (hkeys : (es.map (·.1)).Nodup)
    (hcomposed : ∀ e ∈ es, Text.nfc e.1 = e.1) :
    (mapping (.map t) (sortEntries es)).WellFormed := by
  refine .mapping_map ht (fun e he => ?_) (fun e he => ?_) ?_ (fun e he => ?_)
  · exact (h e (mem_sortEntries.mp he)).1
  · exact (h e (mem_sortEntries.mp he)).2
  · rw [keys_sortEntries]
    exact pairwise_lt_mergeSort hkeys
  · exact hcomposed e (mem_sortEntries.mp he)

/-- Attributes that were checked one by one, in the order of declaration, make an object. -/
theorem wellFormed_object_of_checks {ε : Type} {attrs : List (Attr Ty)}
    {es : List (String × Value)} {check : Attr Ty → Except ε Value}
    (hty : (Ty.object attrs).WellFormed)
    (hes : Ty.firstError (attrs.map fun a => (a.name, check a)) = .ok es)
    (hcheck : ∀ a ∈ attrs, ∀ v, check a = .ok v → v.WellFormed ∧ v.InSlot a.ty) :
    (mapping (.object attrs) (sortEntries es)).WellFormed := by
  rw [Ty.firstError_map_eq_ok_iff] at hes
  have hnames : attrs.map (·.name) = es.map (·.1) := hes.map_eq_map fun _ _ h => h.1
  refine .mapping_object hty (fun e he => ?_) ?_ (fun e he a ha => ?_)
  · obtain ⟨a, ha, -, hok⟩ := hes.exists_of_mem_right (mem_sortEntries.mp he)
    exact (hcheck a ha e.2 hok).1
  · rw [keys_sortEntries, ← hnames, Attr.sortedNames]
  · -- The entry is the checked value of the attribute of its name.
    obtain ⟨a', ha', hname, hok⟩ := hes.exists_of_mem_right (mem_sortEntries.mp he)
    rw [← hname, Attr.find?_eq_some_of_mem (Attr.WellFormed.of_object hty).names ha'] at ha
    obtain rfl := Option.some.inj ha
    exact (hcheck a' ha' e.2 hok).2

/-! ### Keys -/

/-- The keys of a well-formed map or object are distinct, in order and in composed form. -/
theorem WellFormed.entries_keys {ty : Ty} {es : Entries Value} {m : Marks}
    (h : WellFormed ⟨ty, .entries es, m⟩) :
    (es.map (·.1)).Pairwise (· < ·) ∧ ∀ e ∈ es, Text.nfc e.1 = e.1 := by
  cases h with
  | map _ _ _ _ keys composed => exact ⟨keys, composed⟩
  | @object attrs _ _ type _ keys _ =>
    obtain ⟨hnames, hcomposed, -⟩ := Attr.WellFormed.of_object type
    rw [keys, Attr.sortedNames]
    refine ⟨pairwise_lt_mergeSort hnames, fun e he => ?_⟩
    have hmem : e.1 ∈ es.map (·.1) := List.mem_map_of_mem he
    rw [keys, Attr.sortedNames, List.mem_mergeSort] at hmem
    obtain ⟨a, ha, hname⟩ := List.mem_map.mp hmem
    rw [← hname, hcomposed a ha]

theorem WellFormed.nodup_keys {ty : Ty} {es : Entries Value} {m : Marks}
    (h : WellFormed ⟨ty, .entries es, m⟩) : (es.map (·.1)).Nodup :=
  h.entries_keys.1.imp fun hlt => Std.ne_of_lt hlt

end TypedData.Value
