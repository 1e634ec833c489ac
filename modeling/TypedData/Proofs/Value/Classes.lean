import Mathlib.Data.List.Chain
import TypedData.Proofs.Checks

/-!
# Lists in order, up to an equivalence

An equivalence may be coarser than a preorder in some places and finer in others, and still go
with it: nothing unequal comes between two equal elements. The classes then stand in a row, so
that a list in order without equal neighbours has no equal elements at all, and is determined by
its classes.

## Main definitions

* `ConvexClasses` — equivalences whose classes have no gaps in a preorder

## Main results

* `ConvexClasses.pairwise_of_isChain` — equal elements of a list in order are neighbours
* `ConvexClasses.pairwise_of_forall₂` — a list with the same classes place by place is in order too
* `ConvexClasses.forall₂` — lists in order with the same classes agree place by place
-/

namespace TypedData

variable {α : Type} {cmp : α → α → Ordering} {R : α → α → Prop} {P : α → Prop}

/-- A relation that is an equivalence on some elements, such that nothing between two equal ones
is unequal to them. -/
structure ConvexClasses (cmp : α → α → Ordering) (R : α → α → Prop) (P : α → Prop) : Prop where
  refl : ∀ a, P a → R a a
  symm : ∀ a b, P a → P b → R a b → R b a
  trans : ∀ a b c, P a → P b → P c → R a b → R b c → R a c
  between : ∀ a x b, P a → P x → P b → (cmp a x).isLE → (cmp x b).isLE → R a b → R a x

namespace ConvexClasses

variable {a a' b b' : α} {as bs : List α}

/-- In a list in order, equal elements are neighbours. -/
theorem pairwise_of_isChain (h : ConvexClasses cmp R P) (has : ∀ a ∈ as, P a)
    (hordered : as.Pairwise fun a b => (cmp a b).isLE) (hapart : as.IsChain fun a b => ¬ R a b) :
    as.Pairwise fun a b => ¬ R a b := by
  induction as with
  | nil => exact .nil
  | cons a as ih =>
    obtain ⟨hfirst, hrest⟩ := List.pairwise_cons.mp hordered
    obtain ⟨ha, has⟩ := List.forall_mem_cons.mp has
    refine List.pairwise_cons.mpr ⟨fun b hb hab => ?_, ih has hrest hapart.of_cons⟩
    cases as with
    | nil => cases hb
    | cons x as =>
      -- The neighbour of `a` comes before `b`, so it would be equal to `a` as well.
      refine (List.isChain_cons_cons.mp hapart).1 ?_
      rcases List.mem_cons.mp hb with rfl | hmem
      · exact hab
      · exact h.between a x b ha (has x (by simp)) (has b hb) (hfirst x (by simp))
          ((List.pairwise_cons.mp hrest).1 b hmem) hab

/-- A list that agrees place by place with a list without equal elements has none either. -/
theorem pairwise_not_of_forall₂ (h : ConvexClasses cmp R P) (has : ∀ a ∈ as, P a)
    (hbs : ∀ b ∈ bs, P b) (hab : List.Forall₂ R as bs) (hapart : as.Pairwise fun a b => ¬ R a b) :
    bs.Pairwise fun a b => ¬ R a b := by
  refine hab.pairwise_of_mem hapart fun a ha a' ha' b hb b' hb' hab hab' hne hbb' => hne ?_
  exact h.trans a b a' (has a ha) (hbs b hb) (has a' ha') hab
    (h.trans b b' a' (hbs b hb) (hbs b' hb') (has a' ha') hbb'
      (h.symm a' b' (has a' ha') (hbs b' hb') hab'))

variable [Std.TransCmp cmp]

theorem isLE_total (a b : α) : (cmp a b).isLE ∨ (cmp b a).isLE := by
  have hswap : cmp b a = (cmp a b).swap := Std.OrientedCmp.eq_swap
  rw [hswap]
  cases cmp a b <;> simp

/-- The order between two classes does not depend on what stands for them. -/
theorem isLE_of_isLE (h : ConvexClasses cmp R P) (ha : P a) (ha' : P a') (hb : P b) (hb' : P b')
    (hne : ¬ R a b) (hle : (cmp a b).isLE) (haa' : R a a') (hbb' : R b b') : (cmp a' b').isLE := by
  by_contra hgt
  have hle' : (cmp b' a').isLE := (isLE_total b' a').resolve_right hgt
  have htotal : (cmp a b').isLE ∨ (cmp b' a).isLE := isLE_total a b'
  rcases htotal with hab' | hba
  · -- Now `b'` is between `a` and `a'`.
    have := h.between a b' a' ha hb' ha' hab' hle' haa'
    exact hne (h.trans a b' b ha hb' hb this (h.symm b b' hb hb' hbb'))
  · -- Now `a` is between `b'` and `b`.
    have := h.between b' a b hb' ha hb hba hle (h.symm b b' hb hb' hbb')
    exact hne (h.symm b a hb ha (h.trans b b' a hb hb' ha hbb' this))

/-- A list that agrees place by place with a list in order without equal elements is in order. -/
theorem pairwise_of_forall₂ (h : ConvexClasses cmp R P) (has : ∀ a ∈ as, P a) (hbs : ∀ b ∈ bs, P b)
    (hab : List.Forall₂ R as bs) (hordered : as.Pairwise fun a b => (cmp a b).isLE)
    (hapart : as.Pairwise fun a b => ¬ R a b) : bs.Pairwise fun a b => (cmp a b).isLE := by
  refine hab.pairwise_of_mem (hordered.and hapart) ?_
  rintro a ha a' ha' b hb b' hb' hab hab' ⟨hle, hne⟩
  exact h.isLE_of_isLE (has a ha) (hbs b hb) (has a' ha') (hbs b' hb') hne hle hab hab'

/-- Lists in order without equal elements that have the same classes agree place by place. -/
theorem forall₂ (h : ConvexClasses cmp R P) (has : ∀ a ∈ as, P a) (hbs : ∀ b ∈ bs, P b)
    (hordered : as.Pairwise fun a b => (cmp a b).isLE)
    (hordered' : bs.Pairwise fun a b => (cmp a b).isLE)
    (hapart : as.Pairwise fun a b => ¬ R a b) (hapart' : bs.Pairwise fun a b => ¬ R a b)
    (hab : ∀ a ∈ as, ∃ b ∈ bs, R a b) (hba : ∀ b ∈ bs, ∃ a ∈ as, R b a) :
    List.Forall₂ R as bs := by
  induction as generalizing bs with
  | nil =>
    cases bs with
    | nil => exact .nil
    | cons b bs =>
      obtain ⟨a, ha, -⟩ := hba b (by simp)
      cases ha
  | cons a as ih =>
    cases bs with
    | nil =>
      obtain ⟨b, hb, -⟩ := hab a (by simp)
      cases hb
    | cons b bs =>
      obtain ⟨hfirst, hrest⟩ := List.pairwise_cons.mp hordered
      obtain ⟨hfirst', hrest'⟩ := List.pairwise_cons.mp hordered'
      obtain ⟨hne, hapart⟩ := List.pairwise_cons.mp hapart
      obtain ⟨hne', hapart'⟩ := List.pairwise_cons.mp hapart'
      have hPa := has a (by simp)
      have hPb := hbs b (by simp)
      have hheads : R a b := by
        obtain ⟨b', hb', hab'⟩ := hab a (by simp)
        obtain ⟨a', ha', hba'⟩ := hba b (by simp)
        rcases List.mem_cons.mp hb' with rfl | hb'
        · exact hab'
        rcases List.mem_cons.mp ha' with rfl | ha'
        · exact h.symm _ _ hPb hPa hba'
        -- Each head comes before the other's partner, so the classes would be both ways round.
        have hPa' := has a' (by simp [ha'])
        have hPb' := hbs b' (by simp [hb'])
        have hle := h.isLE_of_isLE hPb hPa' hPb' hPa (hne' b' hb') (hfirst' b' hb') hba'
          (h.symm _ _ hPa hPb' hab')
        exact absurd (h.between a a' a hPa hPa' hPa (hfirst a' ha') hle (h.refl a hPa)) (hne a' ha')
      refine .cons hheads (ih (fun a ha => has a (by simp [ha])) (fun b hb => hbs b (by simp [hb]))
        hrest hrest' hapart hapart' (fun x hx => ?_) fun y hy => ?_)
      · obtain ⟨y, hy, hxy⟩ := hab x (by simp [hx])
        rcases List.mem_cons.mp hy with rfl | hy
        · have hPx := has x (by simp [hx])
          exact absurd (h.trans _ _ _ hPa hPb hPx hheads (h.symm _ _ hPx hPb hxy)) (hne x hx)
        · exact ⟨y, hy, hxy⟩
      · obtain ⟨x, hx, hyx⟩ := hba y (by simp [hy])
        rcases List.mem_cons.mp hx with rfl | hx
        · have hPy := hbs y (by simp [hy])
          have := h.trans _ _ _ hPy hPa hPb hyx hheads
          exact absurd (h.symm _ _ hPy hPb this) (hne' y hy)
        · exact ⟨x, hx, hyx⟩

end ConvexClasses

end TypedData
