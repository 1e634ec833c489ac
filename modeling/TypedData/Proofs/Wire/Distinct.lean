import TypedData.Proofs.Value.Equivalence
import TypedData.Proofs.Value.Reachable
import TypedData.Proofs.Wire.Injective
import TypedData.Proofs.Wire.Settled

/-!
# Equal elements of sets

Elements of a set are put in order, and neighbours that are equal as data are merged. So equal
elements both stay only if something comes between them: either the order tells them apart, since
they are encoded in different ways, or an element that is not equal to them is encoded as they are.
The latter takes `dynamic` inside the type of the elements, and the former takes equal numbers that
are written in different ways. Where there is a capsule inside, the order goes by the parts of the
elements in place of their encodings.

## Main definitions

* `Value.compareData` — the order of elements of one kind, without the names of their types
* `Value.Encoded` — what is encoded as its own type, within what lengths can be written

## Main results

* `Value.told_apart_or_parted_of_equal_elements` — which equal elements of a set both stay
* `Value.pairwise_of_numbersAlike` — elements inside which equal numbers are written alike differ
-/

namespace TypedData.Value

variable {v w a b s x : Value} {t : Ty} {vs l₁ l₂ l₃ : List Value}

/-! ### Ranks of equal values -/

theorem rank_of_same (h : v.same w) : rank v.content = rank w.content := by
  obtain ⟨s, c, m⟩ := v
  obtain ⟨t, d, n⟩ := w
  have hcontent := (same_iff.mp h).2
  cases c <;> cases d <;> first | rfl | cases hcontent

/-- What equals something is a null or a capsule, a boolean, number or text, or a container. -/
theorem rank_cases_of_same (h : v.same w) :
    (rank v.content = 0 ∨ rank v.content = 5) ∨ rank v.content ∈ [1, 2, 3] ∨
      rank v.content = 4 := by
  obtain ⟨t, c, m⟩ := v
  cases c with
  | unknown => cases (same_iff.mp h).2
  | null | bool | number | string | items | entries | capsule => simp [rank]

/-! ### What stands between two elements -/

theorem rank_between (hax : (a.compare x).isLE) (hxb : (x.compare b).isLE)
    (hab : rank a.content = rank b.content) : rank x.content = rank a.content := by
  by_contra hne
  -- Ranks that differ decide, and no rank is both above and below another.
  rw [compare_of_rank_ne (Ne.symm hne), Nat.isLE_compare] at hax
  rw [compare_of_rank_ne (hab ▸ hne), Nat.isLE_compare] at hxb
  omega

/-- The order of contents that have no encoding. -/
def compareBare : Content Value → Content Value → Ordering
  | .capsule a, .capsule b => Ord.compare a.id b.id
  | c, d => compareParts c d

/-- The order of elements of one kind, without the names of their types: that of their encodings,
or of what they hold if they have none. -/
def compareData (v w : Value) : Ordering :=
  compareBytes (ownBytes? v) (ownBytes? w) (compareBare v.content w.content)

/-- What has an encoding goes with what has the same one. -/
theorem compareData_eq_eq_iff_of_bytes {p : List UInt8} (h : ownBytes? v = some p) :
    v.compareData w = .eq ↔ ownBytes? w = ownBytes? v := by
  rw [compareData, h]
  cases ownBytes? w with
  | none => simp [compareBytes]
  | some q =>
    rw [compareBytes, Std.LawfulEqCmp.compare_eq_iff_eq, Option.some_inj]
    exact eq_comm

theorem compare_eq_compareData_then (hv : rank v.content = 4) (hw : rank w.content = 4) :
    v.compare w = (v.compareData w).then (Ord.compare v.ty.name w.ty.name) := by
  rw [compare_of_containers hv hw, compareData]
  obtain ⟨t, c, m⟩ := v
  cases c <;> first | rfl | cases hv

theorem compareData_chains (hv : rank v.content = 4) (hw : rank w.content = 4)
    (hx : rank x.content = 4) :
    (v.compareData w).Chains (w.compareData x) (v.compareData x) := by
  have hbare {c d : Content Value} (hc : rank c = 4) : compareBare c d = compareParts c d := by
    cases c <;> first | rfl | cases hc
  refine compareBytes_chains _ _ _ ?_
  rw [hbare hv, hbare hw, hbare hv]
  exact compareParts_chains (fun v _ => compare_chains v) hv hw hx

/-- Between containers that the order has together, before it looks at the names of their types,
there are only such as it has together with them. -/
theorem compareData_between (ha : rank a.content = 4) (hb : rank b.content = 4)
    (hax : (a.compare x).isLE) (hxb : (x.compare b).isLE) (hab : a.compareData b = .eq) :
    a.compareData x = .eq := by
  have hx : rank x.content = 4 := (rank_between hax hxb (ha.trans hb.symm)).trans ha
  rw [compare_eq_compareData_then ha hx] at hax
  rw [compare_eq_compareData_then hx hb] at hxb
  have hchain := compareData_chains ha hx hb (Ordering.isLE_left_of_isLE_then hax)
    (Ordering.isLE_left_of_isLE_then hxb)
  rw [hab, eq_comm, Ordering.then_eq_eq] at hchain
  exact hchain.1

theorem ownBytes?_capsule {own : Ty} {handle : CapsuleHandle} {m : Marks} :
    ownBytes? ⟨own, .capsule handle, m⟩ = none := by
  simp only [ownBytes?, encodeMsgpack, toMsgpack, wrapMsgpack]
  split
  · split <;> rfl
  · rfl

/-- All nulls have the same encoding, and between two handles for the same contents there are only
such handles. -/
theorem compareData_eq_eq_of_rank (hab : a.same b) (hax : (a.compare x).isLE)
    (hxb : (x.compare b).isLE) (hrank : rank a.content = 0 ∨ rank a.content = 5) :
    a.compareData x = .eq := by
  have hx := rank_between hax hxb (rank_of_same hab)
  have hcontent := (same_iff.mp hab).2
  obtain ⟨t, c, m⟩ := a
  obtain ⟨u, d, n⟩ := b
  obtain ⟨s, e, l⟩ := x
  cases c <;> simp only [rank, Nat.reduceEqDiff, or_self] at hrank
  all_goals
    cases e <;> cases hx
  case null.null => rfl
  case capsule.capsule first other =>
    cases d with
    | capsule last =>
      have hid : first.id = last.id := beq_iff_eq.mp (Bool.and_eq_true_iff.mp hcontent).2
      rw [compareData, ownBytes?_capsule, ownBytes?_capsule]
      refine compare_eq_iff_eq.mpr (Nat.le_antisymm (Nat.isLE_compare.mp hax) ?_)
      exact hid ▸ Nat.isLE_compare.mp hxb
    | null | unknown | bool | number | string | items | entries => cases hcontent

/-- The place of booleans, numbers and texts is that of their data. -/
theorem compare_eq_eq_of_same (hab : a.same b) (hrank : rank a.content ∈ [1, 2, 3]) :
    a.compare b = .eq := by
  obtain ⟨t, c, m⟩ := a
  obtain ⟨u, d, n⟩ := b
  have hcontent := (same_iff.mp hab).2
  cases c <;> simp only [rank, List.mem_cons, List.not_mem_nil, Nat.reduceEqDiff, or_self,
    or_false, false_or] at hrank
  all_goals
    cases d <;> first | cases hcontent | skip
  case bool.bool => rw [compare, Std.LawfulEqCmp.compare_eq_iff_eq, eq_of_beq hcontent]
  case number.number => exact Decimal.compare_eq_eq_iff.mpr hcontent
  case string.string => rw [compare, Std.LawfulEqCmp.compare_eq_iff_eq, eq_of_beq hcontent]

theorem same_of_compare_eq_eq (ha : a.WellFormed) (hx : x.WellFormed) (hax : a.compare x = .eq)
    (hranks : rank x.content = rank a.content) (hrank : rank a.content ∈ [1, 2, 3]) :
    x.same a := by
  cases ha <;> simp only [rank, List.mem_cons, List.not_mem_nil, Nat.reduceEqDiff, or_self,
    or_false, false_or] at hrank
  all_goals
    cases hx <;> cases hranks
  case bool.bool => exact same_iff.mpr ⟨rfl, beq_iff_eq.mpr (compare_eq_iff_eq.mp hax).symm⟩
  case number.number =>
    have hsame := Decimal.same_iff.mp (Decimal.compare_eq_eq_iff.mp hax)
    exact same_iff.mpr ⟨rfl, Decimal.same_iff.mpr hsame.symm⟩
  case string.string =>
    exact same_iff.mpr ⟨rfl, beq_iff_eq.mpr (Std.LawfulEqOrd.eq_of_compare hax).symm⟩

/-- Booleans, numbers and texts between two equal ones are equal to them. -/
theorem same_between (ha : a.WellFormed) (hx : x.WellFormed) (hax : (a.compare x).isLE)
    (hxb : (x.compare b).isLE) (hab : a.same b) (hrank : rank a.content ∈ [1, 2, 3]) :
    x.same a := by
  have hxa : (x.compare a).isLE := by
    rwa [Std.TransCmp.congr_right (compare_eq_eq_of_same hab hrank)]
  exact same_of_compare_eq_eq ha hx (Std.OrientedCmp.isLE_antisymm hax hxa)
    (rank_between hax hxb (rank_of_same hab)) hrank

/-! ### Equal elements that both stay -/

/-- What comes next after an element of a set is not equal to it. It is the later element in
question, or it stands between the two. -/
theorem InSetOrder.exists_neighbour (h : InSetOrder (l₁ ++ a :: (l₂ ++ b :: l₃))) :
    (l₂ = [] ∧ (b == a) = false) ∨
      ∃ x ∈ l₂, (x == a) = false ∧ (a.compare x).isLE ∧ (x.compare b).isLE := by
  have hordered := (List.pairwise_append.mp h.ordered).2.1
  have hapart := h.apart.right_of_append
  cases l₂ with
  | nil => exact .inl ⟨rfl, (List.isChain_cons_cons.mp hapart).1⟩
  | cons x l₂ =>
    obtain ⟨hfirst, hrest⟩ := List.pairwise_cons.mp hordered
    exact .inr ⟨x, by simp, (List.isChain_cons_cons.mp hapart).1, hfirst x (by simp),
      (List.pairwise_cons.mp hrest).1 b (by simp)⟩

/-- Equal elements of a set both stay only if they are containers that the order tells apart before
it looks at the names of their types, or if something that is not equal to the first goes with it
there. -/
theorem InSetOrder.told_apart_or_parted (h : InSetOrder (l₁ ++ a :: (l₂ ++ b :: l₃)))
    (hwf : ∀ x ∈ l₁ ++ a :: (l₂ ++ b :: l₃), x.WellFormed) (hab : a.same b) :
    (rank a.content = 4 ∧ a.compareData b ≠ .eq) ∨
      ∃ x ∈ l₂, a.compareData x = .eq ∧ (x == a) = false := by
  have ha := hwf a (by simp)
  have hb := hwf b (by simp)
  have hranks := rank_of_same hab
  -- The neighbour of `a` cannot be `b`, so it stands between them in the order as well.
  obtain ⟨-, hne⟩ | ⟨x, hx, hne, hax, hxb⟩ := h.exists_neighbour
  · exact absurd (same_symm ha hb hab) (Bool.eq_false_iff.mp hne)
  have hwell := hwf x (by simp [hx])
  obtain hrank | hleaf | hcontainer := rank_cases_of_same hab
  · exact .inr ⟨x, hx, compareData_eq_eq_of_rank hab hax hxb hrank, hne⟩
  · exact absurd (same_between ha hwell hax hxb hab hleaf) (Bool.eq_false_iff.mp hne)
  · by_cases hdata : a.compareData b = .eq
    · exact .inr ⟨x, hx, compareData_between hcontainer (hranks ▸ hcontainer) hax hxb hdata, hne⟩
    · exact .inl ⟨hcontainer, hdata⟩

/-! ### Elements without `dynamic` -/

/-- Whether a value is encoded as its own type, with lengths that can be written. -/
def Encoded (v : Value) : Prop := ∃ m, v.toMsgpack v.ty = .ok m ∧ m.Fits

theorem ownBytes?_of_toMsgpack {m : Msgpack} (h : v.toMsgpack v.ty = .ok m) :
    ownBytes? v = some m.write := by
  rw [ownBytes?, encodeMsgpack, h]
  rfl

theorem Encoded.compareData_eq_eq_iff (h : v.Encoded) :
    v.compareData w = .eq ↔ ownBytes? w = ownBytes? v := by
  obtain ⟨m, hm, -⟩ := h
  exact compareData_eq_eq_iff_of_bytes (ownBytes?_of_toMsgpack hm)

/-- In slots without `dynamic`, values with the same encoding are equal, if one of them is known at
every depth. -/
theorem same_of_ownBytes?_eq (h : Msgpack.Matched v w v.ty w.ty) (henc : v.Encoded)
    (henc' : w.Encoded) (hknown : v.isWhollyKnown) (hbytes : ownBytes? v = ownBytes? w) :
    v.same w := by
  obtain ⟨m, hm, hfits⟩ := henc
  obtain ⟨m', hm', hfits'⟩ := henc'
  rw [ownBytes?_of_toMsgpack hm, ownBytes?_of_toMsgpack hm'] at hbytes
  obtain rfl := Msgpack.write_injective hfits hfits' (Option.some.inj hbytes)
  exact Msgpack.same_of_toMsgpack h hknown hm hm'

/-- Equal values in slots without `dynamic` that are encoded in different ways hold equal numbers
that are written in different ways. -/
theorem not_numbersAlike_of_ownBytes?_ne (h : Msgpack.Matched v w v.ty w.ty) (henc : v.Encoded)
    (hsame : v.same w) (hbytes : ownBytes? v ≠ ownBytes? w) : ¬ Msgpack.NumbersAlike v w := by
  intro halike
  obtain ⟨m, hm, -⟩ := henc
  have hm' := Msgpack.toMsgpack_of_same h halike hsame hm
  exact hbytes ((ownBytes?_of_toMsgpack hm).trans (ownBytes?_of_toMsgpack hm').symm)

/-- Equal elements of a set without `dynamic` both stay only if they are containers that hold
equal numbers written in different ways. -/
theorem InSetOrder.not_numbersAlike (h : InSetOrder (l₁ ++ a :: (l₂ ++ b :: l₃)))
    (hwf : ∀ x ∈ l₁ ++ a :: (l₂ ++ b :: l₃), x.WellFormed) (ht : t.WellFormed)
    (hslot : ∀ x ∈ l₁ ++ a :: (l₂ ++ b :: l₃), x.InSlot t) (hdynamic : t.hasDynamic = false)
    (henc : ∀ x ∈ a :: l₂, x.Encoded) (hab : a.same b) :
    rank a.content = 4 ∧ ownBytes? a ≠ ownBytes? b ∧ ¬ Msgpack.NumbersAlike a b := by
  have ha : a ∈ l₁ ++ a :: (l₂ ++ b :: l₃) := by simp
  have hmatched {y : Value} (hy : y ∈ l₁ ++ a :: (l₂ ++ b :: l₃)) :
      Msgpack.Matched a y a.ty y.ty :=
    .of_inSlot ht (hwf a ha) (hwf y hy) (hslot a ha) (hslot y hy) hdynamic
  have hdata {y : Value} := (henc a (by simp)).compareData_eq_eq_iff (w := y)
  obtain ⟨hrank, happart⟩ | ⟨x, hx, hbytes, hne⟩ := h.told_apart_or_parted hwf hab
  · have hbytes : ownBytes? a ≠ ownBytes? b := fun heq => happart (hdata.mpr heq.symm)
    exact ⟨hrank, hbytes, not_numbersAlike_of_ownBytes?_ne (hmatched (by simp)) (henc a (by simp))
      hab hbytes⟩
  -- Without `dynamic` the same encoding means the same data, so nothing comes between.
  · have hmem : x ∈ l₁ ++ a :: (l₂ ++ b :: l₃) := by simp [hx]
    have hsame := same_of_ownBytes?_eq (hmatched hmem) (henc a (by simp)) (henc x (by simp [hx]))
      (isWhollyKnown_of_same hab) (hdata.mp hbytes).symm
    exact absurd (same_symm (hwf a ha) (hwf x hmem) hsame) (Bool.eq_false_iff.mp hne)

/-! ### The sets inside values -/

/-- The elements of a set that stands in a value had are well-formed, in their slot and in order. -/
theorem Reachable.elements (hv : v.Reachable) (hs : v.Contains s) (hty : s.ty = .set t)
    (hvs : s.elements? = some vs) :
    t.WellFormed ∧ (∀ x ∈ vs, x.WellFormed) ∧ (∀ x ∈ vs, x.InSlot t) ∧ InSetOrder vs := by
  have hwell := hv.wellFormed.of_contains hs
  obtain ⟨own, content, m⟩ := s
  cases content <;> cases hvs
  cases hty
  cases hwell with
  | set type elems slots _ order => exact ⟨type, elems, slots, order⟩

/-- Equal elements of a set both stay only if they are containers that the order tells apart before
it looks at the names of their types, or if something that is not equal to the first comes between
them and goes with it there. Where there are encodings, this means that the containers are encoded
in different ways, or that what comes between is encoded as they are. If there is no `dynamic` in
their type and lengths can be written, they are containers, and hold equal numbers that are written
in different ways. -/
theorem told_apart_or_parted_of_equal_elements (hv : v.Reachable) (hs : v.Contains s)
    (hty : s.ty = .set t) (hvs : s.elements? = some (l₁ ++ a :: (l₂ ++ b :: l₃)))
    (hab : (a == b) ∨ (b == a)) :
    ((rank a.content = 4 ∧ a.compareData b ≠ .eq) ∨
        ∃ x ∈ l₂, a.compareData x = .eq ∧ (x == a) = false) ∧
      (∀ p, ownBytes? a = some p → ∀ y, a.compareData y = .eq ↔ ownBytes? y = some p) ∧
      (t.hasDynamic = false → (∀ x ∈ a :: l₂, x.Encoded) →
        rank a.content = 4 ∧ ownBytes? a ≠ ownBytes? b ∧ ¬ Msgpack.NumbersAlike a b) := by
  obtain ⟨ht, hwf, hslot, horder⟩ := hv.elements hs hty hvs
  have hsame : a.same b := hab.elim id (same_symm (hwf b (by simp)) (hwf a (by simp)))
  exact ⟨horder.told_apart_or_parted hwf hsame,
    fun p hp y => hp ▸ compareData_eq_eq_iff_of_bytes hp,
    fun hdynamic henc => horder.not_numbersAlike hwf ht hslot hdynamic henc hsame⟩

/-- Without `dynamic` in their type, elements inside which equal numbers are written alike
differ. -/
theorem pairwise_of_numbersAlike (hv : v.Reachable) (hs : v.Contains s) (hty : s.ty = .set t)
    (hvs : s.elements? = some vs) (hdynamic : t.hasDynamic = false) (henc : ∀ x ∈ vs, x.Encoded)
    (halike : ∀ x ∈ vs, ∀ y ∈ vs, Msgpack.NumbersAlike x y) :
    vs.Pairwise fun x y => (x == y) = false := by
  obtain ⟨ht, hwf, hslot, horder⟩ := hv.elements hs hty hvs
  refine List.pairwise_iff_forall_sublist.mpr fun {x y} hxy => ?_
  -- Both positions, and what stands between them.
  obtain ⟨r₁, r₂, rfl, hx, hy⟩ := List.cons_sublist_iff.mp hxy
  obtain ⟨l₁, l₂, rfl⟩ := List.append_of_mem hx
  obtain ⟨l₃, l₄, rfl⟩ := List.append_of_mem (List.singleton_sublist.mp hy)
  have hsplit : (l₁ ++ x :: l₂) ++ (l₃ ++ y :: l₄) = l₁ ++ x :: ((l₂ ++ l₃) ++ y :: l₄) := by simp
  rw [hsplit] at hwf hslot horder henc halike
  by_contra hne
  refine (horder.not_numbersAlike hwf ht hslot hdynamic (fun z hz => henc z ?_)
    (Bool.eq_true_of_not_eq_false hne)).2.2 (halike x (by simp) y (by simp))
  simp only [List.mem_append, List.mem_cons] at hz ⊢
  tauto

/-! ### A set with equal elements -/

/-- The same number as `longDouble`, without digits behind the point. -/
def longWhole : Decimal := ⟨549984325663149666717271548449163051008, 0⟩

/-- A set whose first and last element are the same number, encoded as a double and as a text. What
stands between them is encoded as an integer. -/
def exampleSameTwice : Value :=
  ⟨.set (.tuple [.number]),
    .items [single longWhole, single ⟨5000000000, 0⟩, single longDouble], .empty⟩

/-- The native data of that set. -/
def exampleSameTwiceData : Native :=
  .list [.list [.number longWhole], .list [.number ⟨5000000000, 0⟩], .list [.number longDouble]]

theorem inSetOrder_exampleSameTwice :
    InSetOrder [single longWhole, single ⟨5000000000, 0⟩, single longDouble] where
  ordered := by decide +kernel
  apart := by decide +kernel

theorem validate_exampleSameTwiceData :
    exampleSameTwiceData.validate .default (.set (.tuple [.number])) = .ok exampleSameTwice := by
  refine congrArg Except.ok (?_ : sequence _ [single _, single _, single _] = exampleSameTwice)
  rw [sequence, canonicalSet_eq_self inSetOrder_exampleSameTwice]
  rfl

theorem reachable_exampleSameTwice : exampleSameTwice.Reachable :=
  .validate (.set (.tuple (by simpa using .number))) (fun _ h => by cases h)
    validate_exampleSameTwiceData

theorem encoded_single {n : Decimal} (h : (Text.Utf8.ofString n.plain).length < 0x100000000) :
    (single n).Encoded :=
  ⟨.array [.ofNumber n], rfl, .array (by simp) (by simpa using Msgpack.fits_ofNumber h)⟩

/-- Its first and last element stay apart because their numbers are written differently. -/
theorem told_apart_of_equal_elements_example :
    exampleSameTwice.Reachable ∧ (single longWhole == single longDouble) ∧
      rank (single longWhole).content = 4 ∧
      ownBytes? (single longWhole) ≠ ownBytes? (single longDouble) ∧
      ¬ Msgpack.NumbersAlike (single longWhole) (single longDouble) := by
  have hsame : (single longWhole == single longDouble) := by decide +kernel
  have helements : exampleSameTwice.elements? = some ([] ++ single longWhole ::
      ([single ⟨5000000000, 0⟩] ++ single longDouble :: [])) := rfl
  have hlength : ∀ n ∈ [longWhole, ⟨5000000000, 0⟩],
      (Text.Utf8.ofString n.plain).length < 0x100000000 := by decide +kernel
  obtain ⟨-, -, happart⟩ := told_apart_or_parted_of_equal_elements reachable_exampleSameTwice .self
    rfl helements (.inl hsame)
  refine ⟨reachable_exampleSameTwice, hsame, happart rfl ?_⟩
  simp only [List.forall_mem_cons, List.not_mem_nil, false_imp_iff, implies_true, and_true]
  exact ⟨encoded_single (hlength _ (by simp)), encoded_single (hlength _ (by simp))⟩

/-- A set that was validated holds equal elements at different positions. -/
theorem equal_elements_of_validate_example :
    exampleSameTwiceData.validate .default (.set (.tuple [.number])) = .ok exampleSameTwice ∧
      exampleSameTwice.elements? =
        some [single longWhole, single ⟨5000000000, 0⟩, single longDouble] ∧
      (single longWhole == single longDouble) :=
  ⟨validate_exampleSameTwiceData, rfl, by decide +kernel⟩

end TypedData.Value
