import Mathlib.Data.List.Chain
import TypedData.Proofs.Value.SetOrder

/-!
# Marks have no say in data

Encodings, the order of set elements and equality as data are the same with and without marks,
at whatever depth the marks are.

## Main results

* `Value.toMsgpack_withoutMarks` — the encoding of a value without marks
* `Value.compare_withoutMarks`, `Value.same_withoutMarks` — order and equality without marks
* `Value.InSetOrder.withoutMarks` — elements in set order stay so without marks
-/

namespace TypedData.Value

@[simp] theorem withoutMarks_ty (v : Value) : v.withoutMarks.ty = v.ty := by
  obtain ⟨t, c, m⟩ := v
  cases c <;> rfl

@[simp] theorem isUnknown_withoutMarks (v : Value) : v.withoutMarks.isUnknown = v.isUnknown := by
  obtain ⟨t, c, m⟩ := v
  cases c <;> rfl

@[simp] theorem rank_withoutMarks (v : Value) :
    rank v.withoutMarks.content = rank v.content := by
  obtain ⟨t, c, m⟩ := v
  cases c <;> rfl

/-! ### Encodings -/

private theorem itemsToMsgpack_withoutMarks {vs : List Value}
    (h : ∀ v ∈ vs, ∀ slot, v.withoutMarks.toMsgpack slot = v.toMsgpack slot) (i : Nat)
    (slots : List Ty) :
    itemsToMsgpack i slots (withoutMarksEach vs) = itemsToMsgpack i slots vs := by
  induction vs generalizing i slots with
  | nil => rfl
  | cons v vs ih =>
    rw [withoutMarksEach, itemsToMsgpack, itemsToMsgpack, h v (by simp),
      ih (fun w hw => h w (by simp [hw]))]

private theorem entriesToMsgpack_withoutMarks {es : Entries Value}
    (h : ∀ e ∈ es, ∀ slot, e.2.withoutMarks.toMsgpack slot = e.2.toMsgpack slot)
    (slotOf : String → Option Ty) :
    entriesToMsgpack slotOf (withoutMarksEntries es) = entriesToMsgpack slotOf es := by
  induction es with
  | nil => rfl
  | cons e es ih =>
    rw [withoutMarksEntries, entriesToMsgpack, entriesToMsgpack,
      ih (fun f hf => h f (by simp [hf]))]
    cases slotOf e.1 with
    | none => rfl
    | some slot => simp only [h e (by simp) slot]

theorem length_withoutMarksEach (vs : List Value) : (withoutMarksEach vs).length = vs.length := by
  rw [withoutMarksEach_eq_map, List.length_map]

/-- Marks are not written. -/
theorem toMsgpack_withoutMarks (v : Value) (slot : Ty) :
    v.withoutMarks.toMsgpack slot = v.toMsgpack slot := by
  induction v using Value.induction generalizing slot with
  | null | unknown | bool | number | string | capsule => rfl
  | items ty vs m ih =>
    simp only [withoutMarks, toMsgpack, itemsToMsgpack_withoutMarks ih, length_withoutMarksEach]
  | entries ty es m ih =>
    simp only [withoutMarks, toMsgpack, entriesToMsgpack_withoutMarks ih]

theorem ownBytes?_withoutMarks (v : Value) : ownBytes? v.withoutMarks = ownBytes? v := by
  rw [ownBytes?, ownBytes?, encodeMsgpack, encodeMsgpack, toMsgpack_withoutMarks, withoutMarks_ty]

/-! ### Order -/

private theorem compareEach_withoutMarks {vs : List Value}
    (h : ∀ v ∈ vs, ∀ w, v.withoutMarks.compare w.withoutMarks = v.compare w) (ws : List Value) :
    compareEach (withoutMarksEach vs) (withoutMarksEach ws) = compareEach vs ws := by
  induction vs generalizing ws with
  | nil => cases ws <;> rfl
  | cons v vs ih =>
    cases ws with
    | nil => rfl
    | cons w ws =>
      rw [withoutMarksEach, withoutMarksEach, compareEach, compareEach, h v (by simp),
        ih (fun v' hv' => h v' (by simp [hv']))]

private theorem compareEntries_withoutMarks {es : Entries Value}
    (h : ∀ e ∈ es, ∀ w, e.2.withoutMarks.compare w.withoutMarks = e.2.compare w)
    (fs : Entries Value) :
    compareEntries (withoutMarksEntries es) (withoutMarksEntries fs) = compareEntries es fs := by
  induction es generalizing fs with
  | nil => cases fs <;> rfl
  | cons e es ih =>
    cases fs with
    | nil => rfl
    | cons f fs =>
      rw [withoutMarksEntries, withoutMarksEntries, compareEntries, compareEntries,
        h e (by simp), ih (fun e' he' => h e' (by simp [he']))]

/-- Values are ordered as without their marks. -/
theorem compare_withoutMarks (v w : Value) :
    v.withoutMarks.compare w.withoutMarks = v.compare w := by
  induction v using Value.induction generalizing w with
  | null ty m | unknown ty r m | bool ty b m | number ty n m | string ty s m | capsule ty h m =>
    obtain ⟨u, d, n⟩ := w
    cases d <;> rfl
  | items ty vs m ih | entries ty es m ih =>
    by_cases hw : rank w.content = 4
    · have hw' : rank w.withoutMarks.content = 4 := by rw [rank_withoutMarks, hw]
      rw [compare_of_containers rfl hw, compare_of_containers rfl hw', ownBytes?_withoutMarks,
        ownBytes?_withoutMarks, withoutMarks_ty, withoutMarks_ty]
      congr 2
      obtain ⟨u, d, n⟩ := w
      cases d <;> first
        | exact compareEach_withoutMarks ih _
        | exact compareEntries_withoutMarks ih _
        | rfl
    · rw [compare_of_rank_ne (by rw [rank_withoutMarks, rank_withoutMarks]; exact Ne.symm hw),
        compare_of_rank_ne (Ne.symm hw), rank_withoutMarks, rank_withoutMarks]

/-! ### Equality as data -/

private theorem sameEach_withoutMarks {vs : List Value}
    (h : ∀ v ∈ vs, ∀ w, v.withoutMarks.same w.withoutMarks = v.same w) (ws : List Value) :
    sameEach (withoutMarksEach vs) (withoutMarksEach ws) = sameEach vs ws := by
  induction vs generalizing ws with
  | nil => cases ws <;> rfl
  | cons v vs ih =>
    cases ws with
    | nil => rfl
    | cons w ws =>
      rw [withoutMarksEach, withoutMarksEach, sameEach, sameEach, h v (by simp),
        ih (fun v' hv' => h v' (by simp [hv']))]

private theorem sameEntries_withoutMarks {es : Entries Value}
    (h : ∀ e ∈ es, ∀ w, e.2.withoutMarks.same w.withoutMarks = e.2.same w)
    (fs : Entries Value) :
    sameEntries (withoutMarksEntries es) (withoutMarksEntries fs) = sameEntries es fs := by
  induction es generalizing fs with
  | nil => cases fs <;> rfl
  | cons e es ih =>
    cases fs with
    | nil => rfl
    | cons f fs =>
      rw [withoutMarksEntries, withoutMarksEntries, sameEntries, sameEntries,
        h e (by simp), ih (fun e' he' => h e' (by simp [he']))]

/-- Values are equal as data as without their marks. -/
theorem same_withoutMarks (v w : Value) : v.withoutMarks.same w.withoutMarks = v.same w := by
  induction v using Value.induction generalizing w with
  | null ty m | unknown ty r m | bool ty b m | number ty n m | string ty s m | capsule ty h m =>
    obtain ⟨u, d, n⟩ := w
    cases d <;> rfl
  | items ty vs m ih =>
    obtain ⟨u, d, n⟩ := w
    cases d <;> simp only [withoutMarks, same]
    rw [sameEach_withoutMarks ih]
  | entries ty es m ih =>
    obtain ⟨u, d, n⟩ := w
    cases d <;> simp only [withoutMarks, same]
    rw [sameEntries_withoutMarks ih]

/-! ### Set order -/

/-- What keeps order and difference of elements keeps them in set order. -/
theorem InSetOrder.map {f : Value → Value} {vs : List Value} (h : InSetOrder vs)
    (hle : ∀ v ∈ vs, ∀ w ∈ vs, (v.compare w).isLE → ((f v).compare (f w)).isLE)
    (hne : ∀ v ∈ vs, ∀ w ∈ vs, (w == v) = false → (f w == f v) = false) :
    InSetOrder (vs.map f) := by
  constructor
  · rw [List.pairwise_map]
    exact h.ordered.imp_of_mem fun hv hw => hle _ hv _ hw
  · rw [List.isChain_map]
    exact h.apart.imp_of_mem_imp fun v w hv hw => hne v hv w hw

/-- Elements in set order stay so without their marks. -/
theorem InSetOrder.withoutMarks {vs : List Value} (h : InSetOrder vs) :
    InSetOrder (vs.map Value.withoutMarks) := by
  refine h.map (fun v _ w _ hle => ?_) fun v _ w _ hne => ?_
  · rwa [compare_withoutMarks]
  · exact (same_withoutMarks w v).trans hne

end TypedData.Value
