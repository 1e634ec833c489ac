import TypedData.Proofs.Value.Equivalence
import TypedData.Proofs.Value.SetMarks
import TypedData.Proofs.Value.Unmarked

/-!
# Identity and equality of values

Identity is an equivalence among well-formed values, and identical values have the same marks.
Equality as data is what remains of it when marks are taken away and nothing unknown is left.

## Main results

* `Refinement.same_iff` — refinements are the same if they say the same, whatever its form
* `Value.identical_symm`, `Value.identical_trans` — identity is an equivalence
* `Value.deepMarks_eq_of_identical` — identical values have the same marks
* `Value.same_iff_identical_withoutMarks` — equality as data is identity of what is known at every
  depth, without marks
* `Value.equalities_coherent` — all of this together
-/

namespace TypedData

/-! ### Refinements -/

/-- What a bound says: the number it denotes, and whether the bound is attained. -/
def NumberBound.meaning (b : NumberBound) : ℚ × Bool := (b.value.toRat, b.inclusive)

namespace Refinement

theorem sameBound_iff {a b : Option NumberBound} :
    sameBound a b ↔ a.map NumberBound.meaning = b.map NumberBound.meaning := by
  cases a <;> cases b <;>
    simp [sameBound, NumberBound.same, NumberBound.meaning, Decimal.same_iff]

/-- Refinements are the same if they say the same; bounds may be written in different forms. -/
theorem same_iff {a b : Refinement} : a.same b ↔ a.notNull = b.notNull ∧
    a.startsWith = b.startsWith ∧
    a.lower.map NumberBound.meaning = b.lower.map NumberBound.meaning ∧
    a.upper.map NumberBound.meaning = b.upper.map NumberBound.meaning ∧
    a.lengthLower = b.lengthLower ∧ a.lengthUpper = b.lengthUpper := by
  simp only [same, Bool.and_eq_true, beq_iff_eq, sameBound_iff, and_assoc]

theorem same_symm {a b : Refinement} (h : a.same b) : b.same a := by
  obtain ⟨hnull, hstart, hlower, hupper, hleast, hgreatest⟩ := same_iff.mp h
  exact same_iff.mpr ⟨hnull.symm, hstart.symm, hlower.symm, hupper.symm, hleast.symm,
    hgreatest.symm⟩

theorem same_trans {a b c : Refinement} (h : a.same b) (h' : b.same c) : a.same c := by
  obtain ⟨hnull, hstart, hlower, hupper, hleast, hgreatest⟩ := same_iff.mp h
  obtain ⟨hnull', hstart', hlower', hupper', hleast', hgreatest'⟩ := same_iff.mp h'
  exact same_iff.mpr ⟨hnull.trans hnull', hstart.trans hstart', hlower.trans hlower',
    hupper.trans hupper', hleast.trans hleast', hgreatest.trans hgreatest'⟩

end Refinement

namespace Value

variable {v w x : Value} {c d e : Content Value}

/-! ### Identity of contents -/

theorem identicalContent_symm (hparts : ∀ v ∈ parts c, ∀ w ∈ parts d, v.identical w → w.identical v)
    (h : identicalContent c d) : identicalContent d c := by
  cases c <;> cases d <;> first | (cases h; done) | skip
  case unknown r q => exact Refinement.same_symm h
  case items vs ws =>
    exact identicalEach_iff.mpr ((identicalEach_iff.mp h).imp_of_mem hparts).flip
  case entries es fs =>
    refine identicalEntries_iff.mpr (List.Forall₂.flip ?_)
    refine (identicalEntries_iff.mp h).imp_of_mem fun e he f hf hef => ⟨hef.1.symm, ?_⟩
    exact hparts _ (List.mem_map_of_mem he) _ (List.mem_map_of_mem hf) hef.2
  all_goals simp_all [identicalContent, Decimal.same_iff, CapsuleHandle.same, CapsuleType.same]

theorem identicalContent_trans
    (hparts : ∀ v ∈ parts c, ∀ w x, v.identical w → w.identical x → v.identical x)
    (h : identicalContent c d) (h' : identicalContent d e) : identicalContent c e := by
  cases c <;> cases d <;> first | (cases h; done) | skip
  all_goals cases e <;> first | (cases h'; done) | skip
  case unknown r q s => exact Refinement.same_trans h h'
  case items vs ws xs =>
    refine identicalEach_iff.mpr
      ((identicalEach_iff.mp h).trans_of_mem (identicalEach_iff.mp h') ?_)
    exact fun v hv w _ x => hparts v hv w x
  case entries es fs gs =>
    refine identicalEntries_iff.mpr
      ((identicalEntries_iff.mp h).trans_of_mem (identicalEntries_iff.mp h') ?_)
    rintro e he f _ g ⟨hkey, hef⟩ ⟨hkey', hfg⟩
    exact ⟨hkey.trans hkey', hparts _ (List.mem_map_of_mem he) _ _ hef hfg⟩
  all_goals simp_all [identicalContent, Decimal.same_iff, CapsuleHandle.same, CapsuleType.same]

/-! ### Identity is an equivalence -/

theorem identical_symm (hv : v.WellFormed) (hw : w.WellFormed) (h : v.identical w) :
    w.identical v := by
  induction v using induction_parts generalizing w with
  | step v ih =>
    obtain ⟨hty, hmarks, hcontent⟩ := identical_iff.mp h
    refine identical_iff.mpr
      ⟨hv.type_wellFormed.same_symm hw.type_wellFormed hty, hmarks.symm, ?_⟩
    refine identicalContent_symm (fun x hx y hy hxy => ?_) hcontent
    exact ih x hx (hv.of_mem_parts hx) (hw.of_mem_parts hy) hxy

theorem identical_trans (hv : v.WellFormed) (h : v.identical w) (h' : w.identical x) :
    v.identical x := by
  induction v using induction_parts generalizing w x with
  | step v ih =>
    obtain ⟨hty, hmarks, hcontent⟩ := identical_iff.mp h
    obtain ⟨hty', hmarks', hcontent'⟩ := identical_iff.mp h'
    refine identical_iff.mpr
      ⟨hv.type_wellFormed.same_trans hty hty', hmarks.trans hmarks', ?_⟩
    refine identicalContent_trans (fun y hy _ _ hyz hzu => ?_) hcontent hcontent'
    exact ih y hy (hv.of_mem_parts hy) hyz hzu

/-! ### Marks of identical values -/

theorem mem_deepMarks_iff_parts {tag : String} :
    tag ∈ v.deepMarks ↔ tag ∈ v.marks ∨ ∃ w ∈ parts v.content, tag ∈ w.deepMarks := by
  obtain ⟨t, c, m⟩ := v
  cases c <;> simp [deepMarks, deepMarksOfEntries_eq, mem_deepMarksOf, parts]

/-- The values inside identical contents are identical place by place. -/
theorem forall₂_parts_of_identicalContent (h : identicalContent c d) :
    List.Forall₂ (fun v w => v.identical w) (parts c) (parts d) := by
  cases c <;> cases d <;> first | (cases h; done) | skip
  case items vs ws => exact identicalEach_iff.mp h
  case entries es fs =>
    rw [parts, parts, List.forall₂_map_left_iff, List.forall₂_map_right_iff]
    exact (identicalEntries_iff.mp h).imp fun _ _ hef => hef.2
  all_goals exact .nil

theorem deepMarks_eq_of_identical (h : v.identical w) : v.deepMarks = w.deepMarks := by
  induction v using induction_parts generalizing w with
  | step v ih =>
    obtain ⟨-, hmarks, hcontent⟩ := identical_iff.mp h
    have hparts := forall₂_parts_of_identicalContent hcontent
    ext tag
    rw [mem_deepMarks_iff_parts, mem_deepMarks_iff_parts, hmarks]
    refine or_congr_right ⟨?_, ?_⟩
    · rintro ⟨x, hx, htag⟩
      obtain ⟨y, hy, hxy⟩ := hparts.exists_of_mem_left hx
      exact ⟨y, hy, ih x hx hxy ▸ htag⟩
    · rintro ⟨y, hy, htag⟩
      obtain ⟨x, hx, hxy⟩ := hparts.exists_of_mem_right hy
      exact ⟨x, hx, (ih x hx hxy).symm ▸ htag⟩

/-! ### Equality as data -/

/-- What is equal as data is identical without marks. -/
theorem identical_withoutMarks_of_same (h : v.same w) :
    v.withoutMarks.identical w.withoutMarks := by
  induction v, w, h using same_induction with
  | null h | bool h | number h | string h | capsule h =>
    exact identical_iff.mpr ⟨(same_iff.mp h).1, rfl, (same_iff.mp h).2⟩
  | items h ih =>
    rw [withoutMarks_items, withoutMarks_items]
    refine identical_iff.mpr ⟨(same_iff.mp h).1, rfl, identicalEach_iff.mpr ?_⟩
    rw [List.forall₂_map_left_iff, List.forall₂_map_right_iff]
    exact ih.imp fun _ _ ⟨_, h⟩ => h
  | entries h ih =>
    rw [withoutMarks_entries, withoutMarks_entries]
    refine identical_iff.mpr ⟨(same_iff.mp h).1, rfl, identicalEntries_iff.mpr ?_⟩
    rw [List.forall₂_map_left_iff, List.forall₂_map_right_iff]
    exact ih.imp fun _ _ ⟨hkey, _, h⟩ => ⟨hkey, h⟩

theorem isWhollyKnown_withoutMarks (v : Value) :
    v.withoutMarks.isWhollyKnown = v.isWhollyKnown := by
  rw [Bool.eq_iff_iff]
  induction v using Value.induction with
  | null | unknown | bool | number | string | capsule => rfl
  | items ty vs m ih =>
    rw [withoutMarks_items, isWhollyKnown_items, isWhollyKnown_items, List.forall_mem_map]
    exact forall₂_congr ih
  | entries ty es m ih =>
    rw [withoutMarks_entries, isWhollyKnown_entries, isWhollyKnown_entries, List.forall_mem_map]
    exact forall₂_congr ih

/-- Equality as data is identity of what is known at every depth, without marks. -/
theorem same_iff_identical_withoutMarks :
    v.same w ↔ v.isWhollyKnown ∧ v.withoutMarks.identical w.withoutMarks := by
  refine ⟨fun h => ⟨isWhollyKnown_of_same h, identical_withoutMarks_of_same h⟩, ?_⟩
  rintro ⟨hknown, h⟩
  rw [← isWhollyKnown_withoutMarks] at hknown
  rw [← same_withoutMarks]
  exact same_of_isWhollyKnown hknown h

/-- Among well-formed values equality as data is symmetric and transitive, and reflexive just for
those known at every depth. Identity is an equivalence. Of values known at every depth the same
are equal as data as are identical without marks, and identical values have the same marks. -/
theorem equalities_coherent (hv : v.WellFormed) (hw : w.WellFormed) :
    (v == w → w == v) ∧ (v == w → w == x → v == x) ∧ (v == v ↔ v.isWhollyKnown) ∧
      v.identical v ∧ (v.identical w → w.identical v) ∧
      (v.identical w → w.identical x → v.identical x) ∧
      (v.isWhollyKnown → w.isWhollyKnown →
        (v == w ↔ v.unmarkDeep.1.identical w.unmarkDeep.1)) ∧
      (v.identical w → v.deepMarks = w.deepMarks) := by
  refine ⟨same_symm hv hw, same_trans hv, ⟨isWhollyKnown_of_same, same_refl hv⟩,
    hv.identical_refl, identical_symm hv hw, identical_trans hv, fun hknown _ => ?_,
    deepMarks_eq_of_identical⟩
  exact same_iff_identical_withoutMarks.trans (and_iff_right hknown)

/-- Lists of one number that is written with different places and carries the same mark are equal
in both ways, from either side, and have that mark inside. -/
theorem equalities_coherent_places :
    let list (places : Nat) : Value := ⟨.list .number,
      .items [(number ⟨10 ^ places, places⟩).mark "secret"], .empty⟩
    (list 1).WellFormed ∧ (list 2).WellFormed ∧ (list 1).identical (list 2) ∧
      (list 2).identical (list 1) ∧ (list 1).identical (list 0) ∧ list 2 == list 1 ∧
      list 1 == list 0 ∧ list 1 == list 1 ∧
      (list 1).unmarkDeep.1.identical (list 2).unmarkDeep.1 ∧
      (list 1).deepMarks = (list 2).deepMarks := by
  intro list
  have hwell (places : Nat) : (list places).WellFormed := by
    refine .list .number ?_ ?_ ?_ <;> simp only [List.forall_mem_singleton]
    · exact .number
    · exact .of_same rfl
    · rfl
  obtain ⟨hsymm, htrans, hrefl, -, hback, hchain, hboth, hmarks⟩ :=
    equalities_coherent (x := list 0) (hwell 1) (hwell 2)
  have hidentical : (list 1).identical (list 2) := by decide +kernel
  have hequal : list 1 == list 2 := by decide +kernel
  exact ⟨hwell 1, hwell 2, hidentical, hback hidentical,
    hchain hidentical (by decide +kernel), hsymm hequal, htrans hequal (by decide +kernel),
    hrefl.mpr rfl, (hboth rfl rfl).mp hequal, hmarks hidentical⟩

end Value

end TypedData
