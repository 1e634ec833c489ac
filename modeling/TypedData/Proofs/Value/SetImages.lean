import TypedData.Proofs.Value.SetMarks
import TypedData.Proofs.Value.Unmarked

/-!
# The images of the elements of a set

Where elements at one place are the same, a set does not depend on the order in which its elements
are given, nor on how often each of them is. So if a function takes equal elements to the same, and
tells all others apart by their places, its images make the same set whether the elements are merged
before or not.

## Main definitions

* `Value.ToldApart` — elements of which no two are at one place

## Main results

* `Value.canonicalSet_eq_of_perm` — the order of elements does not matter
* `Value.canonicalSet_map_canonicalSet` — nor does merging elements whose images are the same
-/

namespace TypedData.Value

variable {v w kept : Value} {vs ws : List Value} {f : Value → Value}

/-- Elements of which no two are at one place, unless they are the same. -/
def ToldApart (vs : List Value) : Prop := ∀ v ∈ vs, ∀ w ∈ vs, v.compare w = .eq → v = w

theorem ToldApart.subset (h : ToldApart vs) (hsubset : ws ⊆ vs) : ToldApart ws :=
  fun v hv w hw => h v (hsubset hv) w (hsubset hw)

/-! ### The order of elements -/

theorem pairwise_mergeSort_compare (vs : List Value) :
    (vs.mergeSort fun v w => (v.compare w).isLE).Pairwise fun v w => (v.compare w).isLE := by
  refine List.pairwise_mergeSort (fun _ _ _ => Std.TransCmp.isLE_trans) (fun v w => ?_) vs
  rw [compare_swap w v]
  cases v.compare w <;> rfl

/-- Elements that are told apart can be sorted in one way. -/
theorem eq_mergeSort_of_perm (h : ToldApart vs) (hperm : ws.Perm vs)
    (hsorted : ws.Pairwise fun v w => (v.compare w).isLE) :
    ws = vs.mergeSort fun v w => (v.compare w).isLE := by
  have hsort := List.mergeSort_perm vs fun v w => (v.compare w).isLE
  refine List.Perm.eq_of_pairwise (fun v w hv hw hvw hwv => ?_) hsorted
    (pairwise_mergeSort_compare vs) (hperm.trans hsort.symm)
  exact h v (hperm.mem_iff.mp hv) w (hsort.mem_iff.mp hw) (Std.OrientedCmp.isLE_antisymm hvw hwv)

/-- The order in which elements are given does not matter. -/
theorem canonicalSet_eq_of_perm (h : ToldApart ws) (hperm : vs.Perm ws) :
    canonicalSet vs = canonicalSet ws := by
  have hsort := List.mergeSort_perm vs fun v w => (v.compare w).isLE
  rw [canonicalSet, canonicalSet,
    eq_mergeSort_of_perm h (hsort.trans hperm) (pairwise_mergeSort_compare vs)]

/-! ### Elements that are given twice -/

/-- An element that is given twice is merged with itself, whatever comes before. -/
theorem mergeEqual_twice (hmarks : v.marks = .empty) (hself : v == v) (l r : List Value) :
    mergeEqual kept (l ++ v :: v :: r) = mergeEqual kept (l ++ v :: r) := by
  induction l generalizing kept with
  | nil =>
    simp only [List.nil_append, mergeEqual, hmarks, withMarks_empty, hself, if_true]
    split <;> rfl
  | cons w l ih => simp only [List.cons_append, mergeEqual, ih]

/-- An element that is there twice in a row counts once. -/
theorem canonicalSet_twice (l r : List Value) (h : ToldApart (l ++ v :: r))
    (hmarks : v.marks = .empty) (hself : v == v) :
    canonicalSet (l ++ v :: v :: r) = canonicalSet (l ++ v :: r) := by
  have hsort := List.mergeSort_perm (l ++ v :: r) fun v w => (v.compare w).isLE
  have hsorted := pairwise_mergeSort_compare (l ++ v :: r)
  obtain ⟨l', r', hlr⟩ := List.append_of_mem (hsort.mem_iff.mpr (by simp : v ∈ l ++ v :: r))
  rw [hlr] at hsort hsorted
  -- Putting the element in a second time leaves the others where they are.
  have htwice : l' ++ v :: v :: r' =
      (l ++ v :: v :: r).mergeSort fun v w => (v.compare w).isLE := by
    refine eq_mergeSort_of_perm (h.subset (by simp)) ?_ ?_
    · exact List.perm_middle.trans ((hsort.cons v).trans List.perm_middle.symm)
    · obtain ⟨hl, hr, hboth⟩ := List.pairwise_append.mp hsorted
      refine List.pairwise_append.mpr
        ⟨hl, List.pairwise_cons.mpr ⟨List.forall_mem_cons.mpr ⟨?_, ?_⟩, hr⟩, fun x hx => ?_⟩
      · exact Std.ReflCmp.isLE_rfl
      · exact (List.pairwise_cons.mp hr).1
      · exact List.forall_mem_cons.mpr ⟨hboth x hx v (by simp), hboth x hx⟩
  rw [canonicalSet, canonicalSet, ← htwice, hlr]
  cases l' with
  | nil => simp only [List.nil_append, mergeEqual, hmarks, withMarks_empty, hself, if_true]
  | cons w l' => exact mergeEqual_twice hmarks hself l' r'

/-! ### Sets of images -/

/-- Merging takes away elements whose images are there in any case. -/
theorem canonicalSet_map_mergeEqual (hmarks : ∀ v m, f (v.withMarks m) = f v)
    (hempty : ∀ v, (f v).marks = .empty)
    (hsame : ∀ v ∈ kept :: vs, ∀ w ∈ kept :: vs, v == w → f v = f w ∧ f v == f v) (l : List Value)
    (h : ToldApart (l ++ (kept :: vs).map f)) :
    canonicalSet (l ++ (mergeEqual kept vs).map f) = canonicalSet (l ++ (kept :: vs).map f) := by
  induction vs generalizing kept l with
  | nil => rfl
  | cons v vs ih =>
    rw [mergeEqual]
    split
    · rename_i hequal
      obtain ⟨himage, hself⟩ := hsame v (by simp) kept (by simp) hequal
      rw [List.map_cons, List.map_cons, himage] at h ⊢
      have hkept : (kept.withMarks v.marks :: vs).map f = f kept :: vs.map f := by
        rw [List.map_cons, hmarks]
      rw [ih (fun x hx y hy hxy => ?_) l (hkept ▸ h.subset (by simp)), hkept,
        canonicalSet_twice _ _ (h.subset (by simp)) (hempty kept) (himage ▸ hself)]
      -- What is kept differs from what was there in its own marks only.
      have hthere {x : Value} (hx : x ∈ kept.withMarks v.marks :: vs) :
          ∃ x' ∈ kept :: v :: vs, SameData x x' ∧ f x = f x' := by
        rcases List.mem_cons.mp hx with rfl | hx
        · exact ⟨kept, by simp, .withMarks _ _, hmarks _ _⟩
        · exact ⟨x, by simp [hx], .refl x, rfl⟩
      obtain ⟨x', hx', hdata, hfx⟩ := hthere hx
      obtain ⟨y', hy', hdata', hfy⟩ := hthere hy
      rw [hfx, hfy]
      exact hsame x' hx' y' hy' ((hdata.beq_eq hdata').symm.trans hxy)
    · have hrest := ih (fun x hx y hy => hsame x (List.mem_cons_of_mem _ hx) y
        (List.mem_cons_of_mem _ hy)) (l ++ [f kept]) (h.subset (by simp))
      simpa using hrest

/-- A function that takes equal elements to the same and tells all others apart makes the same set
of elements as of the set of them. -/
theorem canonicalSet_map_canonicalSet (hmarks : ∀ v m, f (v.withMarks m) = f v)
    (hempty : ∀ v, (f v).marks = .empty)
    (hsame : ∀ v ∈ vs, ∀ w ∈ vs, v == w → f v = f w ∧ f v == f v)
    (h : ToldApart (vs.map f)) :
    canonicalSet ((canonicalSet vs).map f) = canonicalSet (vs.map f) := by
  have hsort := List.mergeSort_perm vs fun v w => (v.compare w).isLE
  rw [← canonicalSet_eq_of_perm h (hsort.map f), canonicalSet.eq_def vs]
  have hsubset : ((vs.mergeSort fun v w => (v.compare w).isLE).map f) ⊆ vs.map f :=
    (hsort.map f).subset
  have hmem {v : Value} (hv : v ∈ vs.mergeSort fun v w => (v.compare w).isLE) : v ∈ vs :=
    hsort.mem_iff.mp hv
  cases hsorted : vs.mergeSort fun v w => (v.compare w).isLE with
  | nil => rfl
  | cons kept rest =>
    rw [hsorted] at hsubset hmem
    exact canonicalSet_map_mergeEqual hmarks hempty
      (fun v hv w hw => hsame v (hmem hv) w (hmem hw)) [] (h.subset hsubset)

end TypedData.Value
