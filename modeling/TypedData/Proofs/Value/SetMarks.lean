import Mathlib.Data.List.Sort
import TypedData.Proofs.Value.Marks
import TypedData.Proofs.Value.WellFormed

/-!
# The marks of sets

When elements of a set are merged, what is kept takes on the own marks of what goes, but not the
marks inside of what goes. So a set has the own marks of all the elements it was given, and the
marks inside those of its elements that were kept.

## Main definitions

* `Value.innerMarks` — the marks inside a value, without its own

## Main results

* `Value.mem_deepMarks_sequence` — the marks of a set made of given elements
* `Value.deepMarks_sequence_eq_iff` — when no mark of the given elements is lost
-/

namespace TypedData

/-! ### Sets of tags -/

namespace Marks

instance (tag : String) (m : Marks) : Decidable (tag ∈ m) :=
  inferInstanceAs (Decidable (tag ∈ m.toList))

/-- Sets with the same tags are equal. -/
@[ext]
theorem ext {a b : Marks} (h : ∀ tag, tag ∈ a ↔ tag ∈ b) : a = b := by
  obtain ⟨xs, hxs⟩ := a
  obtain ⟨ys, hys⟩ := b
  obtain rfl : xs = ys := List.Pairwise.eq_of_mem_iff hxs hys (fun tag => h tag)
  rfl

end Marks

namespace Value

variable {v w kept : Value} {vs : List Value} {tag : String}

/-! ### Own marks and marks inside -/

/-- The marks of everything inside a value, without its own. -/
def innerMarks (v : Value) : Marks := v.unmark.1.deepMarks

theorem SameData.innerMarks_eq (h : SameData v w) : v.innerMarks = w.innerMarks := by
  obtain ⟨t, c, m⟩ := v
  obtain ⟨_, _, n⟩ := w
  obtain ⟨rfl, rfl⟩ := h
  rfl

theorem mem_deepMarks : tag ∈ v.deepMarks ↔ tag ∈ v.marks ∨ tag ∈ v.innerMarks := by
  obtain ⟨t, c, m⟩ := v
  cases c <;> simp [innerMarks, unmark, deepMarks]

theorem mem_deepMarksOf : tag ∈ deepMarksOf vs ↔ ∃ v ∈ vs, tag ∈ v.deepMarks := by
  induction vs with
  | nil => simp [deepMarksOf]
  | cons v vs ih => simp [deepMarksOf, ih]

theorem innerMarks_items {ty : Ty} {m : Marks} : innerMarks ⟨ty, .items vs, m⟩ = deepMarksOf vs :=
  rfl

/-! ### Merging -/

/-- No own mark is lost when neighbours are merged, and none is added. -/
private theorem exists_mem_marks_mergeEqual :
    (∃ w ∈ mergeEqual kept vs, tag ∈ w.marks) ↔ ∃ v ∈ kept :: vs, tag ∈ v.marks := by
  induction vs generalizing kept with
  | nil => rfl
  | cons v vs ih =>
    rw [mergeEqual]
    split
    · rw [ih]
      simp [withMarks, or_assoc, or_left_comm]
    · simp [ih]

/-- Each of several elements is kept or equal to one that is. -/
private theorem exists_mem_mergeEqual_same (hv : v ∈ kept :: vs) :
    ∃ w ∈ mergeEqual kept vs, SameData v w ∨ v == w := by
  induction vs generalizing kept v with
  | nil => exact ⟨v, hv, .inl (.refl v)⟩
  | cons u vs ih =>
    rw [mergeEqual]
    split
    · rename_i hsame
      by_cases hu : v = u
      · -- What goes is equal to what comes first in its place.
        subst hu
        obtain ⟨w, rest, heq, hdata⟩ := exists_mergeEqual_eq_cons (kept.withMarks v.marks) vs
        have hkept : SameData kept w := (hdata.trans (.withMarks _ _)).symm
        refine ⟨w, by simp [heq], .inr ?_⟩
        rwa [← SameData.beq_eq (.refl v) hkept]
      · rcases List.mem_cons.mp hv with rfl | hv
        · have hfirst : v.withMarks u.marks ∈ v.withMarks u.marks :: vs := List.mem_cons_self
          obtain ⟨w, hw, h⟩ := ih hfirst
          have hdata : SameData (v.withMarks u.marks) v := .withMarks _ _
          refine ⟨w, hw, h.imp hdata.symm.trans fun h => ?_⟩
          rwa [← hdata.beq_eq (.refl w)]
        · exact ih (List.mem_cons_of_mem _ ((List.mem_cons.mp hv).resolve_left hu))
    · rcases List.mem_cons.mp hv with rfl | hv
      · exact ⟨v, by simp, .inl (.refl v)⟩
      · obtain ⟨w, hw, h⟩ := ih hv
        exact ⟨w, List.mem_cons_of_mem _ hw, h⟩

/-- The canonical elements together have the own marks of the given ones. -/
theorem exists_mem_marks_canonicalSet :
    (∃ w ∈ canonicalSet vs, tag ∈ w.marks) ↔ ∃ v ∈ vs, tag ∈ v.marks := by
  rw [canonicalSet]
  split
  · rename_i heq
    have hnil : vs = [] := by simpa using congrArg List.length heq
    simp [hnil]
  · rename_i w rest heq
    rw [exists_mem_marks_mergeEqual, ← heq]
    simp only [List.mem_mergeSort]

/-- Each given element is canonical, up to own marks, or equal to one that is. -/
theorem exists_mem_canonicalSet_same (hv : v ∈ vs) :
    ∃ w ∈ canonicalSet vs, SameData v w ∨ v == w := by
  have hsorted : v ∈ vs.mergeSort fun a b => (a.compare b).isLE := List.mem_mergeSort.mpr hv
  rw [canonicalSet]
  split
  · rename_i heq
    simp [heq] at hsorted
  · rename_i w rest heq
    exact exists_mem_mergeEqual_same (heq ▸ hsorted)

/-! ### Sets -/

theorem sequence_set_of_known {t : Ty} (hknown : vs.any isUnknown = false) :
    sequence (.set t) vs = ofContent (.set t) (.items (canonicalSet vs)) := by
  simp [sequence, hknown]

/-- A set has the own marks of all the elements it was given, and the marks inside those that
were kept. -/
theorem mem_deepMarks_sequence {t : Ty} (hknown : vs.any isUnknown = false) :
    tag ∈ (sequence (.set t) vs).deepMarks ↔
      (∃ v ∈ vs, tag ∈ v.marks) ∨ ∃ w ∈ canonicalSet vs, tag ∈ w.innerMarks := by
  have hown : tag ∉ (sequence (.set t) vs).marks := by
    rw [sequence_set_of_known hknown]
    exact Marks.not_mem_empty
  rw [mem_deepMarks, or_iff_right hown, sequence_set_of_known hknown, ofContent,
    innerMarks_items, mem_deepMarksOf]
  simp only [mem_deepMarks, and_or_left, exists_or, exists_mem_marks_canonicalSet]

/-- No mark appears that was not on or inside a given element. -/
theorem mem_deepMarksOf_of_mem_sequence {t : Ty} (hknown : vs.any isUnknown = false)
    (h : tag ∈ (sequence (.set t) vs).deepMarks) : tag ∈ deepMarksOf vs := by
  rw [mem_deepMarksOf]
  rcases (mem_deepMarks_sequence hknown).mp h with ⟨v, hv, htag⟩ | ⟨w, hw, htag⟩
  · exact ⟨v, hv, mem_deepMarks.mpr (.inl htag)⟩
  · obtain ⟨v, hv, hdata⟩ := exists_of_mem_canonicalSet hw
    exact ⟨v, hv, mem_deepMarks.mpr (.inr (hdata.innerMarks_eq ▸ htag))⟩

/-- If the marks inside the given elements are also elsewhere in the set, none is lost. -/
theorem deepMarks_sequence_of_forall {t : Ty} (hknown : vs.any isUnknown = false)
    (h : ∀ v ∈ vs, ∀ tag ∈ v.innerMarks,
      (∃ w ∈ vs, tag ∈ w.marks) ∨ ∃ w ∈ canonicalSet vs, tag ∈ w.innerMarks) :
    (sequence (.set t) vs).deepMarks = deepMarksOf vs := by
  ext tag
  constructor
  · exact mem_deepMarksOf_of_mem_sequence hknown
  · intro htag
    obtain ⟨v, hv, htag⟩ := mem_deepMarksOf.mp htag
    rw [mem_deepMarks_sequence hknown]
    rcases mem_deepMarks.mp htag with htag | htag
    · exact .inl ⟨v, hv, htag⟩
    · exact h v hv tag htag

/-- No mark is lost if equal elements have the same marks inside. -/
theorem deepMarks_sequence_of_agree {t : Ty} (hknown : vs.any isUnknown = false)
    (h : ∀ v ∈ vs, ∀ w ∈ vs, v == w → v.innerMarks = w.innerMarks) :
    (sequence (.set t) vs).deepMarks = deepMarksOf vs := by
  apply deepMarks_sequence_of_forall hknown
  intro v hv tag htag
  right
  obtain ⟨w, hw, hdata | hsame⟩ := exists_mem_canonicalSet_same hv
  · exact ⟨w, hw, hdata.innerMarks_eq ▸ htag⟩
  · obtain ⟨x, hx, hdata⟩ := exists_of_mem_canonicalSet hw
    have hvx : v == x := by rwa [← SameData.beq_eq (.refl v) hdata]
    exact ⟨w, hw, by rwa [hdata.innerMarks_eq, ← h v hv x hx hvx]⟩

/-- The marks of a set are those of all the elements it was given exactly if each mark inside a
given element is also an own mark of one, or inside one that is kept. -/
theorem deepMarks_sequence_eq_iff {t : Ty} (hknown : vs.any isUnknown = false) :
    (sequence (.set t) vs).deepMarks = deepMarksOf vs ↔
      ∀ v ∈ vs, ∀ tag ∈ v.innerMarks,
        (∃ w ∈ vs, tag ∈ w.marks) ∨ ∃ w ∈ canonicalSet vs, tag ∈ w.innerMarks := by
  refine ⟨fun h v hv tag htag => ?_, deepMarks_sequence_of_forall hknown⟩
  rw [← mem_deepMarks_sequence hknown, h, mem_deepMarksOf]
  exact ⟨v, hv, mem_deepMarks.mpr (.inr htag)⟩

/-- The own marks of two equal elements are both kept. -/
theorem deepMarks_sequence_marked :
    (sequence (.set .string) [(string "a").mark "x", (string "a").mark "y"]).deepMarks =
      deepMarksOf [(string "a").mark "x", (string "a").mark "y"] :=
  (deepMarks_sequence_eq_iff rfl).mpr (by decide)

/-- A tuple of one text, which is marked. -/
def marked (tag : String) : Value :=
  ⟨.tuple [.string], .items [(string "a").mark tag], .empty⟩

theorem wellFormed_marked (tag : String) : (marked tag).WellFormed := by
  refine .tuple (by simpa using .string) (fun v hv => ?_) (.cons (.inr rfl) .nil)
  obtain rfl := List.mem_singleton.mp hv
  exact .string

/-- Of two equal tuples whose texts are marked differently, the second loses its mark. -/
theorem deepMarks_sequence_marked_inside :
    (∀ v ∈ [marked "x", marked "y"], v.WellFormed ∧ v.isUnknown = false) ∧
      "y" ∈ deepMarksOf [marked "x", marked "y"] ∧
      "y" ∉ (sequence (.set (.tuple [.string])) [marked "x", marked "y"]).deepMarks := by
  refine ⟨fun v hv => ?_, by decide, ?_⟩
  · obtain ⟨tag, -, rfl⟩ : ∃ tag ∈ ["x", "y"], marked tag = v := List.mem_map.mp hv
    exact ⟨wellFormed_marked tag, rfl⟩
  · have hmerged : canonicalSet [marked "x", marked "y"] =
        [(marked "x").withMarks (marked "y").marks] :=
      canonicalSet_pair_of_same (by decide +kernel) (by decide +kernel)
    rw [sequence_set_of_known rfl, hmerged]
    decide

end Value

end TypedData
