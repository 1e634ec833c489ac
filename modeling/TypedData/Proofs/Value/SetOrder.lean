import Mathlib.Data.List.Chain
import TypedData.Proofs.Value.Order
import TypedData.Value.Collection

/-!
# The elements of sets

Putting elements in order and merging equal neighbours gives a list that is in set order, and a
list in set order is left as it is. Own marks have no say in the order or in what is merged.

## Main definitions

* `Value.SameData` — agreement in everything but own marks
* `Value.InSetOrder` — elements in order, no two neighbours equal as data

## Main results

* `Value.inSetOrder_canonicalSet` — canonical elements are in set order
* `Value.canonicalSet_eq_self` — elements in set order are canonical
* `Value.perm_canonicalSet` — elements that differ from each other are only put in order
* `Value.exists_of_mem_canonicalSet` — canonical elements are given ones, up to own marks
* `Value.canonicalSet_map` — the set of the images of elements
-/

namespace TypedData.Value

/-! ### Own marks -/

/-- Agreement in everything but own marks. -/
def SameData (v w : Value) : Prop := v.ty = w.ty ∧ v.content = w.content

namespace SameData

variable {v w x : Value}

theorem refl (v : Value) : SameData v v := ⟨rfl, rfl⟩

theorem symm (h : SameData v w) : SameData w v := ⟨h.1.symm, h.2.symm⟩

theorem trans (h : SameData v w) (h' : SameData w x) : SameData v x :=
  ⟨h.1.trans h'.1, h.2.trans h'.2⟩

theorem withMarks (v : Value) (m : Marks) : SameData (v.withMarks m) v := ⟨rfl, rfl⟩

theorem toMsgpack_eq (h : SameData v w) (slot : Ty) : v.toMsgpack slot = w.toMsgpack slot := by
  obtain ⟨t, c, m⟩ := v
  obtain ⟨_, _, n⟩ := w
  obtain ⟨rfl, rfl⟩ := h
  cases c <;> rfl

theorem ownBytes?_eq (h : SameData v w) : ownBytes? v = ownBytes? w := by
  rw [ownBytes?, ownBytes?, encodeMsgpack, encodeMsgpack, h.toMsgpack_eq, h.1]

theorem compare_eq (h : SameData v w) (x : Value) : v.compare x = w.compare x := by
  by_cases hv : rank v.content = 4
  · have hw : rank w.content = 4 := h.2 ▸ hv
    by_cases hx : rank x.content = 4
    · rw [compare_of_containers hv hx, compare_of_containers hw hx, h.ownBytes?_eq, h.1, h.2]
    · rw [compare_of_rank_ne (by omega), compare_of_rank_ne (by omega), h.2]
  · obtain ⟨t, c, m⟩ := v
    obtain ⟨_, _, n⟩ := w
    obtain ⟨rfl, rfl⟩ := h
    obtain ⟨u, d, l⟩ := x
    cases c <;> first | exact absurd rfl hv | cases d <;> rfl

theorem beq_eq {y : Value} (h : SameData v w) (h' : SameData x y) : (v == x) = (w == y) := by
  obtain ⟨t, c, m⟩ := v
  obtain ⟨_, _, n⟩ := w
  obtain ⟨rfl, rfl⟩ := h
  obtain ⟨u, d, k⟩ := x
  obtain ⟨_, _, l⟩ := y
  obtain ⟨rfl, rfl⟩ := h'
  cases c <;> rfl

end SameData

/-! ### Set order -/

/-- Elements in order, no two neighbours equal as data. -/
structure InSetOrder (vs : List Value) : Prop where
  ordered : vs.Pairwise fun v w => (v.compare w).isLE
  apart : vs.IsChain fun v w => (w == v) = false

/-- What merging keeps of the first of several elements comes first. -/
theorem exists_mergeEqual_eq_cons (kept : Value) (vs : List Value) :
    ∃ v rest, mergeEqual kept vs = v :: rest ∧ SameData v kept := by
  induction vs generalizing kept with
  | nil => exact ⟨kept, [], rfl, .refl kept⟩
  | cons v vs ih =>
    rw [mergeEqual]
    split
    · obtain ⟨w, rest, heq, hdata⟩ := ih (kept.withMarks v.marks)
      exact ⟨w, rest, heq, hdata.trans (.withMarks _ _)⟩
    · exact ⟨kept, _, rfl, .refl kept⟩

private theorem exists_of_mem_mergeEqual {kept v : Value} {vs : List Value}
    (h : v ∈ mergeEqual kept vs) : ∃ w ∈ kept :: vs, SameData v w := by
  induction vs generalizing kept with
  | nil =>
    obtain rfl := List.mem_singleton.mp h
    exact ⟨v, by simp, .refl v⟩
  | cons u vs ih =>
    rw [mergeEqual] at h
    split at h
    · obtain ⟨w, hw, hdata⟩ := ih h
      rcases List.mem_cons.mp hw with rfl | hw
      · exact ⟨kept, by simp, hdata.trans (.withMarks _ _)⟩
      · exact ⟨w, by simp [hw], hdata⟩
    · rcases List.mem_cons.mp h with rfl | h
      · exact ⟨v, by simp, .refl v⟩
      · obtain ⟨w, hw, hdata⟩ := ih h
        exact ⟨w, List.mem_cons_of_mem _ hw, hdata⟩

private theorem inSetOrder_mergeEqual {kept : Value} {vs : List Value}
    (h : (kept :: vs).Pairwise fun v w => (v.compare w).isLE) :
    InSetOrder (mergeEqual kept vs) := by
  induction vs generalizing kept with
  | nil => exact ⟨h, .singleton kept⟩
  | cons v vs ih =>
    obtain ⟨hkept, htail⟩ := List.pairwise_cons.mp h
    rw [mergeEqual]
    split
    · refine ih (List.pairwise_cons.mpr ⟨fun w hw => ?_, htail.of_cons⟩)
      rw [(SameData.withMarks kept v.marks).compare_eq]
      exact hkept w (List.mem_cons_of_mem _ hw)
    · rename_i hne
      obtain ⟨hordered, hapart⟩ := ih htail
      refine ⟨List.pairwise_cons.mpr ⟨fun w hw => ?_, hordered⟩, ?_⟩
      · obtain ⟨x, hx, hdata⟩ := exists_of_mem_mergeEqual hw
        rw [compare_swap, hdata.compare_eq, ← compare_swap]
        exact hkept x hx
      · obtain ⟨w, rest, heq, hdata⟩ := exists_mergeEqual_eq_cons v vs
        rw [heq] at hapart ⊢
        refine List.isChain_cons_cons.mpr ⟨?_, hapart⟩
        rw [hdata.beq_eq (.refl kept)]
        simpa using hne

/-- Canonical elements are in set order. -/
theorem inSetOrder_canonicalSet (vs : List Value) : InSetOrder (canonicalSet vs) := by
  have hsorted := @List.pairwise_mergeSort _ (fun a b : Value => (a.compare b).isLE)
    (fun _ _ _ => Std.TransCmp.isLE_trans) (fun a b => ?_) vs
  · rw [canonicalSet]
    split
    · exact ⟨.nil, .nil⟩
    · rename_i v rest heq
      exact inSetOrder_mergeEqual (heq ▸ hsorted)
  · rw [compare_swap b a]
    cases a.compare b <;> rfl

/-- Canonical elements are given ones, up to own marks. -/
theorem exists_of_mem_canonicalSet {v : Value} {vs : List Value} (h : v ∈ canonicalSet vs) :
    ∃ w ∈ vs, SameData v w := by
  rw [canonicalSet] at h
  split at h
  · simp at h
  · rename_i w rest heq
    obtain ⟨x, hx, hdata⟩ := exists_of_mem_mergeEqual h
    rw [← heq, List.mem_mergeSort] at hx
    exact ⟨x, hx, hdata⟩

private theorem mergeEqual_eq_self {kept : Value} {vs : List Value}
    (h : (kept :: vs).IsChain fun v w => (w == v) = false) : mergeEqual kept vs = kept :: vs := by
  induction vs generalizing kept with
  | nil => rfl
  | cons v vs ih =>
    rw [List.isChain_cons_cons] at h
    rw [mergeEqual, h.1, ih h.2]
    simp

/-- Elements in set order are canonical. -/
theorem canonicalSet_eq_self {vs : List Value} (h : InSetOrder vs) : canonicalSet vs = vs := by
  rw [canonicalSet, List.mergeSort_of_pairwise h.ordered]
  cases vs with
  | nil => rfl
  | cons v vs => exact mergeEqual_eq_self h.apart

/-- Elements that differ from each other are only put in order. -/
theorem perm_canonicalSet {vs : List Value}
    (h : vs.Pairwise fun v w => ¬ v == w ∧ ¬ w == v) : (canonicalSet vs).Perm vs := by
  have hsorted := List.mergeSort_perm vs fun a b : Value => (a.compare b).isLE
  have hapart := h.perm hsorted.symm fun h => h.symm
  rw [canonicalSet]
  split
  · rename_i heq
    exact heq ▸ hsorted
  · rename_i v rest heq
    rw [heq] at hapart hsorted
    rw [mergeEqual_eq_self (hapart.imp fun h => Bool.eq_false_iff.mpr h.2).isChain]
    exact hsorted

/-! ### Sets of images -/

private theorem mergeEqual_map {f : Value → Value}
    (hmarks : ∀ v w : Value, f (v.withMarks w.marks) = (f v).withMarks (f w).marks) {kept : Value}
    {vs : List Value} (hsame : ∀ v ∈ kept :: vs, ∀ w ∈ kept :: vs, (f v == f w) = (v == w)) :
    mergeEqual (f kept) (vs.map f) = (mergeEqual kept vs).map f := by
  induction vs generalizing kept with
  | nil => rfl
  | cons v vs ih =>
    rw [List.map_cons, mergeEqual, mergeEqual, hsame v (by simp) kept (by simp)]
    split
    · rw [← hmarks]
      refine ih fun x hx y hy => ?_
      -- What is kept differs from what was there in its own marks only.
      have hthere {x : Value} (hx : x ∈ kept.withMarks v.marks :: vs) :
          ∃ x' ∈ kept :: v :: vs, SameData x x' ∧ SameData (f x) (f x') := by
        rcases List.mem_cons.mp hx with rfl | hx
        · exact ⟨kept, by simp, .withMarks _ _, hmarks kept v ▸ .withMarks _ _⟩
        · exact ⟨x, by simp [hx], .refl x, .refl (f x)⟩
      obtain ⟨x', hx', hdata, himage⟩ := hthere hx
      obtain ⟨y', hy', hdata', himage'⟩ := hthere hy
      rw [himage.beq_eq himage', hdata.beq_eq hdata', hsame x' hx' y' hy']
    · rw [ih fun x hx y hy =>
        hsame x (List.mem_cons_of_mem _ hx) y (List.mem_cons_of_mem _ hy), List.map_cons]

/-- A function that keeps elements in their places, and apart where they were, makes of a set the
set of the images. -/
theorem canonicalSet_map {f : Value → Value} {vs : List Value}
    (hmarks : ∀ v w : Value, f (v.withMarks w.marks) = (f v).withMarks (f w).marks)
    (hcompare : ∀ v ∈ vs, ∀ w ∈ vs, (f v).compare (f w) = v.compare w)
    (hsame : ∀ v ∈ vs, ∀ w ∈ vs, (f v == f w) = (v == w)) :
    canonicalSet (vs.map f) = (canonicalSet vs).map f := by
  have hsorted : (vs.map f).mergeSort (fun a b => (a.compare b).isLE) =
      (vs.mergeSort fun a b => (a.compare b).isLE).map f :=
    (List.map_mergeSort fun a ha b hb => by rw [hcompare a ha b hb]).symm
  rw [canonicalSet, canonicalSet, hsorted]
  cases hperm : vs.mergeSort fun a b => (a.compare b).isLE with
  | nil => rfl
  | cons v rest =>
    have hmem {x : Value} (hx : x ∈ v :: rest) : x ∈ vs := by
      rwa [← hperm, List.mem_mergeSort] at hx
    exact mergeEqual_map hmarks fun x hx y hy => hsame x (hmem hx) y (hmem hy)

/-- Two elements that stand the wrong way round change places. -/
theorem canonicalSet_pair {v w : Value} (h : v.compare w = .gt) (hne : (v == w) = false) :
    canonicalSet [v, w] = [w, v] := by
  simp [canonicalSet, List.mergeSort, List.MergeSort.Internal.splitInTwo, h,
    mergeEqual, hne]

/-- Of two equal elements in order the first is kept, with the own marks of both. -/
theorem canonicalSet_pair_of_same {v w : Value} (h : (v.compare w).isLE) (hsame : w == v) :
    canonicalSet [v, w] = [v.withMarks w.marks] := by
  simp [canonicalSet, List.mergeSort, List.MergeSort.Internal.splitInTwo, h, mergeEqual, hsame]

end TypedData.Value
