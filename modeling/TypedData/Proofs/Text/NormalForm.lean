import TypedData.Proofs.Text.Decomposition

/-!
# Composing twice

A text in composed form is composed already. Taking the composed form apart and putting its marks
in order gives back what it was composed of: each composite comes apart into the two halves it was
made of, and the second half goes back to its place, past marks of smaller class only.

## Main definitions

* `Ordered` — canonical order, as a condition on neighbours
* `decomposed` — a text taken apart, with its marks in canonical order

## Main results

* `reorder_of_ordered`, `ordered_reorder` — canonical ordering is a stable sort of each run of marks
* `decomposed_compose` — composition loses nothing of a decomposed text
* `recompose_recompose` — composing twice is composing once
-/

namespace TypedData.Text

variable {c d starter : Nat} {cs ds between rest : List Nat}

/-! ### Canonical order -/

/-- A mark does not follow one of greater class. -/
def Follows (c d : Nat) : Prop := combiningClass d = 0 ∨ combiningClass c ≤ combiningClass d

/-- Each run of marks is in order of class. -/
abbrev Ordered (cs : List Nat) : Prop := List.IsChain Follows cs

theorem Follows.trans {e : Nat} (hcd : Follows c d) (hde : Follows d e)
    (hmark : combiningClass d ≠ 0) : Follows c e :=
  hde.imp_right fun hle => (hcd.resolve_left hmark).trans hle

theorem place_of_ordered (h : Ordered (c :: cs)) : place c cs = c :: cs := by
  cases cs with
  | nil => rfl
  | cons d cs =>
    have hfollows : Follows c d := (List.isChain_cons_cons.mp h).1
    rw [place, if_neg]
    rw [Follows] at hfollows
    omega

theorem head?_place (c : Nat) (cs : List Nat) :
    (place c cs).head? = some c ∨ (place c cs).head? = cs.head? := by
  cases cs with
  | nil => exact .inl rfl
  | cons d cs =>
    rw [place]
    split
    · exact .inr rfl
    · exact .inl rfl

theorem ordered_place (h : Ordered cs) : Ordered (place c cs) := by
  induction cs with
  | nil => exact .singleton c
  | cons d cs ih =>
    rw [place]
    split
    · rename_i hpast
      refine (List.isChain_cons.mpr ⟨fun e he => ?_, ih h.tail⟩)
      rcases head?_place c cs with hhead | hhead
      · obtain rfl := Option.some.inj (hhead.symm.trans he)
        exact .inr hpast.2.le
      · exact (List.isChain_cons.mp h).1 e (hhead ▸ he)
    · refine List.isChain_cons_cons.mpr ⟨?_, h⟩
      rw [Follows]
      omega

theorem place_perm (c : Nat) (cs : List Nat) : (place c cs).Perm (c :: cs) := by
  induction cs with
  | nil => exact .refl _
  | cons d cs ih =>
    rw [place]
    split
    · exact (ih.cons d).trans (.swap c d cs)
    · exact .refl _

theorem reorder_cons (c : Nat) (cs : List Nat) : reorder (c :: cs) = place c (reorder cs) := rfl

/-- Canonical ordering puts every run of marks in order. -/
theorem ordered_reorder (cs : List Nat) : Ordered (reorder cs) := by
  induction cs with
  | nil => exact .nil
  | cons c cs ih => exact ordered_place ih

theorem reorder_perm (cs : List Nat) : (reorder cs).Perm cs := by
  induction cs with
  | nil => exact .refl _
  | cons c cs ih => exact (place_perm c _).trans (ih.cons c)

/-- What is in order is left as it is. -/
theorem reorder_of_ordered (h : Ordered cs) : reorder cs = cs := by
  induction cs with
  | nil => rfl
  | cons c cs ih => rw [reorder_cons, ih h.tail, place_of_ordered h]

/-- What stands in front is placed after the rest is in order. -/
theorem reorder_append_congr (pre : List Nat) (h : reorder cs = reorder ds) :
    reorder (pre ++ cs) = reorder (pre ++ ds) := by
  rw [reorder, reorder, List.foldr_append, List.foldr_append]
  exact congrArg (fun tail => pre.foldr place tail) h

/-- Two marks of different class can be placed in either order. -/
theorem place_comm (hd : combiningClass d ≠ 0) (hlt : combiningClass d < combiningClass c)
    (cs : List Nat) : place d (place c cs) = place c (place d cs) := by
  induction cs with
  | nil =>
    simp only [place]
    rw [if_neg (by omega), if_pos (by omega)]
  | cons e cs ih =>
    by_cases hde : 0 < combiningClass e ∧ combiningClass e < combiningClass d
    · -- Both go past `e`.
      have hce : 0 < combiningClass e ∧ combiningClass e < combiningClass c := by omega
      simp only [place, if_pos hde, if_pos hce, ih]
    · have hfirst : place d (e :: cs) = d :: e :: cs := by rw [place, if_neg hde]
      have hpast : place c (d :: e :: cs) = d :: place c (e :: cs) := by
        rw [place, if_pos (by omega)]
      rw [hfirst, hpast]
      by_cases hce : 0 < combiningClass e ∧ combiningClass e < combiningClass c
      · rw [place, if_pos hce, place, if_neg hde]
      · rw [place, if_neg hce, place, if_neg (by omega)]

/-- A mark that stands after marks of smaller class may as well stand before them. -/
theorem reorder_past (h : ∀ d ∈ ds, combiningClass d ≠ 0 ∧ combiningClass d < combiningClass c)
    (cs : List Nat) : reorder (ds ++ c :: cs) = reorder (c :: (ds ++ cs)) := by
  induction ds with
  | nil => rfl
  | cons d ds ih =>
    obtain ⟨⟨hd, hlt⟩, h⟩ := List.forall_mem_cons.mp h
    rw [List.cons_append, reorder_cons, ih h, reorder_cons, place_comm hd hlt]
    rfl

/-! ### Texts taken apart -/

/-- A text taken apart, with its marks in canonical order. -/
def decomposed (cs : List Nat) : List Nat := reorder (cs.flatMap decompose)

/-- Nothing in a text is taken further apart. -/
def Atomic (cs : List Nat) : Prop := ∀ c ∈ cs, decompose c = [c]

theorem Atomic.flatMap_decompose (h : Atomic cs) : cs.flatMap decompose = cs := by
  rw [List.flatMap_congr h, List.flatMap_singleton']

theorem mem_decomposed : d ∈ decomposed cs ↔ ∃ c ∈ cs, d ∈ decompose c := by
  rw [decomposed, (reorder_perm _).mem_iff, List.mem_flatMap]

theorem atomic_decomposed (cs : List Nat) : Atomic (decomposed cs) := by
  intro d hd
  obtain ⟨c, -, hdc⟩ := mem_decomposed.mp hd
  exact decompose_of_mem_decompose hdc

theorem recompose_eq (s : String) : recompose s =
    String.ofList ((compose (decomposed (s.toList.map Char.toNat))).map Char.ofNat) := by
  rw [recompose, decomposed, List.flatMap_map]

/-! ### Composition -/

/-- What holds of the marks between a starter and the rest of a text, last first. -/
structure Between (between rest : List Nat) : Prop where
  marks : ∀ d ∈ between, combiningClass d ≠ 0
  atomic : Atomic between
  sorted : between.Pairwise fun d e => combiningClass e ≤ combiningClass d
  follows : ∀ d ∈ between, ∀ c ∈ rest.head?, Follows d c

namespace Between

theorem nil (rest : List Nat) : Between [] rest := ⟨nofun, nofun, .nil, nofun⟩

/-- The mark after them joins those that do not join the starter. -/
theorem cons (h : Between between (c :: rest)) (hordered : Ordered (c :: rest))
    (hmark : combiningClass c ≠ 0) (hatomic : decompose c = [c]) :
    Between (c :: between) rest := by
  have hle (d) (hd : d ∈ between) : combiningClass d ≤ combiningClass c :=
    (h.follows d hd c rfl).resolve_left hmark
  have hnext (e) (he : e ∈ rest.head?) : Follows c e := (List.isChain_cons.mp hordered).1 e he
  refine ⟨List.forall_mem_cons.mpr ⟨hmark, h.marks⟩, List.forall_mem_cons.mpr ⟨hatomic, h.atomic⟩,
    List.pairwise_cons.mpr ⟨hle, h.sorted⟩, List.forall_mem_cons.mpr ⟨hnext, fun d hd e he => ?_⟩⟩
  exact (h.follows d hd c rfl).trans (hnext e he) hmark

/-- The mark after them joins the starter. -/
theorem skip (h : Between between (c :: rest)) (hordered : Ordered (c :: rest))
    (hpast : ∀ d ∈ between, combiningClass d < combiningClass c) : Between between rest := by
  refine ⟨h.marks, h.atomic, h.sorted, fun d hd e he => ?_⟩
  have hmark : combiningClass c ≠ 0 := Nat.ne_zero_of_lt (hpast d hd)
  exact (h.follows d hd c rfl).trans ((List.isChain_cons.mp hordered).1 e he) hmark

/-- The last mark before a code point decides whether all have smaller class. -/
theorem lt_of_last (h : Between between rest) (hlast : ∀ d ∈ between.head?,
    combiningClass d < combiningClass c) : ∀ d ∈ between, combiningClass d < combiningClass c := by
  cases between with
  | nil => exact nofun
  | cons e between =>
    have he : combiningClass e < combiningClass c := hlast e rfl
    refine List.forall_mem_cons.mpr ⟨he, fun d hd => ?_⟩
    exact ((List.pairwise_cons.mp h.sorted).1 d hd).trans_lt he

end Between

/-- One step of composition: the code point after the marks joins the starter, or is a starter
itself, or a mark that stays. -/
theorem composeFrom_cons (starter c : Nat) (between rest : List Nat) :
    (∃ p, primaryComposite? starter c = some p ∧
      (∀ d ∈ between.head?, combiningClass d < combiningClass c) ∧
      composeFrom starter between (c :: rest) = composeFrom p between rest) ∨
    composeFrom starter between (c :: rest) =
      if combiningClass c = 0 then starter :: between.reverse ++ composeFrom c [] rest
      else composeFrom starter (c :: between) rest := by
  rw [composeFrom.eq_def]
  cases between with
  | nil =>
    cases hp : primaryComposite? starter c with
    | some p => exact .inl ⟨p, rfl, nofun, by simp [hp]⟩
    | none => exact .inr (by simp [hp])
  | cons d between =>
    by_cases hreach : combiningClass d < combiningClass c
    · cases hp : primaryComposite? starter c with
      | some p => exact .inl ⟨p, rfl, by simpa using hreach, by simp [hreach, hp]⟩
      | none => exact .inr (by simp [hreach, hp])
    · exact .inr (by simp [hreach])

/-- Taking apart what was composed from a starter on, and putting the marks in order, gives what
there was before. -/
theorem reorder_composeFrom (hbetween : Between between rest) (hordered : Ordered rest)
    (hatomic : Atomic rest) : reorder ((composeFrom starter between rest).flatMap decompose) =
      reorder (decompose starter ++ (between.reverse ++ rest)) := by
  induction rest generalizing starter between with
  | nil =>
    rw [composeFrom, List.flatMap_cons, List.append_nil, Atomic.flatMap_decompose]
    exact fun d hd => hbetween.atomic d (List.mem_reverse.mp hd)
  | cons c rest ih =>
    obtain ⟨hc, hrest⟩ := List.forall_mem_cons.mp hatomic
    rcases composeFrom_cons starter c between rest with ⟨p, hp, hlast, heq⟩ | heq
    · -- The composite comes apart again, and the mark goes back past those between.
      have hpast := hbetween.lt_of_last hlast
      rw [heq, ih (hbetween.skip hordered hpast) hordered.tail hrest,
        decompose_of_primaryComposite? hp, List.append_assoc]
      refine reorder_append_congr _ (reorder_past (fun d hd => ?_) rest).symm
      have hd := List.mem_reverse.mp hd
      exact ⟨hbetween.marks d hd, hpast d hd⟩
    · rw [heq]
      split
      · have hmarks : between.reverse.flatMap decompose = between.reverse :=
          Atomic.flatMap_decompose fun d hd => hbetween.atomic d (List.mem_reverse.mp hd)
        rw [List.cons_append, List.flatMap_cons, List.flatMap_append, hmarks]
        refine reorder_append_congr _ (reorder_append_congr _ ?_)
        rw [ih (.nil rest) hordered.tail hrest, hc]
        rfl
      · rw [ih (hbetween.cons hordered ‹_› hc) hordered.tail hrest, List.reverse_cons,
          List.append_assoc, List.singleton_append]

/-- The same for a whole text. -/
theorem reorder_compose (hordered : Ordered cs) (hatomic : Atomic cs) :
    reorder ((compose cs).flatMap decompose) = reorder cs := by
  induction cs with
  | nil => rfl
  | cons c cs ih =>
    obtain ⟨hc, hrest⟩ := List.forall_mem_cons.mp hatomic
    rw [compose]
    split
    · rw [reorder_composeFrom (.nil cs) hordered.tail hrest, hc]
      rfl
    · rw [List.flatMap_cons, hc]
      exact reorder_append_congr [c] (ih hordered.tail hrest)

/-- Composition loses nothing of a decomposed text. -/
theorem decomposed_compose (cs : List Nat) :
    decomposed (compose (decomposed cs)) = decomposed cs := by
  have hordered : Ordered (decomposed cs) := ordered_reorder _
  rw [decomposed, reorder_compose hordered (atomic_decomposed cs), reorder_of_ordered hordered]

/-! ### Characters -/

/-- What composition closes under composites keeps holds of all that it yields. -/
theorem forall_mem_composeFrom {P : Nat → Prop}
    (hclosed : ∀ a b p, primaryComposite? a b = some p → P p) (hstarter : P starter)
    (hbetween : ∀ d ∈ between, P d) (hrest : ∀ c ∈ rest, P c) :
    ∀ d ∈ composeFrom starter between rest, P d := by
  have hmarks : ∀ d ∈ between.reverse, P d := fun d hd => hbetween d (List.mem_reverse.mp hd)
  induction rest generalizing starter between with
  | nil => exact List.forall_mem_cons.mpr ⟨hstarter, hmarks⟩
  | cons c rest ih =>
    obtain ⟨hc, hrest⟩ := List.forall_mem_cons.mp hrest
    rcases composeFrom_cons starter c between rest with ⟨p, hp, -, heq⟩ | heq <;> rw [heq]
    · exact ih (hclosed _ _ _ hp) hbetween hrest hmarks
    · split
      · rw [List.cons_append]
        refine List.forall_mem_cons.mpr ⟨hstarter, List.forall_mem_append.mpr ⟨hmarks, ?_⟩⟩
        exact ih hc nofun hrest nofun
      · have hbetween := List.forall_mem_cons.mpr ⟨hc, hbetween⟩
        exact ih hstarter hbetween hrest fun d hd => hbetween d (List.mem_reverse.mp hd)

theorem isValidChar_of_mem_compose (h : ∀ c ∈ cs, c.isValidChar) :
    ∀ d ∈ compose cs, d.isValidChar := by
  induction cs with
  | nil => exact nofun
  | cons c cs ih =>
    obtain ⟨hc, h⟩ := List.forall_mem_cons.mp h
    rw [compose]
    split
    · exact forall_mem_composeFrom (fun _ _ _ => isValidChar_of_primaryComposite?) hc nofun h
    · exact List.forall_mem_cons.mpr ⟨hc, ih h⟩

theorem toNat_ofNat (h : c.isValidChar) : (Char.ofNat c).toNat = c := by
  rw [Char.ofNat, dif_pos h]
  rfl

/-- The code points of a composed text. -/
theorem toNat_recompose (s : String) : (recompose s).toList.map Char.toNat =
    compose (decomposed (s.toList.map Char.toNat)) := by
  have hvalid : ∀ d ∈ compose (decomposed (s.toList.map Char.toNat)), d.isValidChar := by
    refine isValidChar_of_mem_compose fun d hd => ?_
    obtain ⟨c, hc, hdc⟩ := mem_decomposed.mp hd
    obtain ⟨char, -, rfl⟩ := List.mem_map.mp hc
    exact isValidChar_of_mem_decompose char.valid hdc
  rw [recompose_eq, String.toList_ofList, List.map_map]
  exact (List.map_congr_left fun d hd => toNat_ofNat (hvalid d hd)).trans (List.map_id' _)

/-- Composing again what was composed changes nothing. -/
theorem recompose_recompose (s : String) : recompose (recompose s) = recompose s := by
  rw [recompose_eq (recompose s), toNat_recompose, decomposed_compose, ← recompose_eq]

end TypedData.Text
