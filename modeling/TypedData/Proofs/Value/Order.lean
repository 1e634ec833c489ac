import TypedData.Proofs.Decimal.Rational
import TypedData.Proofs.Value.Induction
import TypedData.Value.Order

/-!
# The order of set elements is a total preorder

Kinds of contents come one after another. Within a kind the order is that of the contents, and
for containers a chain of criteria: whether there is an encoding, the encodings or else the
elements, and the names of the types. Each criterion is itself a total preorder, and going
from one criterion to the next keeps that.

## Main definitions

* `Ordering.Chains` — how the results of three comparisons hang together in a preorder

## Main results

* `Value.compare_swap` — the order looks the same from both sides
* `Value.compare_chains` — the order is transitive
-/

namespace Ordering

/-- The results of comparing `a` with `b`, `b` with `c` and `a` with `c` hang together: going up
twice is going up, strictly if either step is strict. -/
def Chains (ab bc ac : Ordering) : Prop := ab.isLE → bc.isLE → ac = ab.then bc

namespace Chains

variable {ab bc ac ab' bc' ac' : Ordering}

/-- Two criteria, the second deciding where the first does not. -/
theorem «then» (h : Chains ab bc ac) (h' : Chains ab' bc' ac') :
    Chains (ab.then ab') (bc.then bc') (ac.then ac') := by
  intro hab hbc
  rw [h (isLE_left_of_isLE_then hab) (isLE_left_of_isLE_then hbc)]
  cases ab with
  | lt => rfl
  | gt => cases hab
  | eq =>
    cases bc with
    | lt => cases ab' <;> first | rfl | cases hab
    | gt => cases hbc
    | eq => exact h' hab hbc

theorem of_gt_left (h : ab = .gt) : Chains ab bc ac := by simp [Chains, h]

/-- A strict last step decides. -/
theorem of_ne_right (h : bc ≠ .eq) : Chains ab bc bc := by
  cases ab <;> cases bc <;> simp [Chains] at h ⊢

/-- A strict first step decides. -/
theorem of_ne_left (h : ab ≠ .eq) : Chains ab bc ab := by
  cases ab <;> cases bc <;> simp [Chains] at h ⊢

theorem of_gt_right (h : bc = .gt) : Chains ab bc ac := by simp [Chains, h]

end Chains

/-- Comparisons in a preorder hang together. -/
theorem chains_of_transCmp {α : Type} (cmp : α → α → Ordering) [Std.TransCmp cmp] (a b c : α) :
    Chains (cmp a b) (cmp b c) (cmp a c) := by
  intro hab hbc
  cases h : cmp a b with
  | lt => exact Std.TransCmp.lt_of_lt_of_isLE h hbc
  | eq => exact Std.TransCmp.congr_left h
  | gt => rw [h] at hab; contradiction

end Ordering

namespace TypedData.Value

open Ordering

/-! ### Kinds of contents -/

/-- Contents of different kinds are ordered by kind. -/
theorem compare_of_rank_ne {v w : Value} (h : rank v.content ≠ rank w.content) :
    v.compare w = Ord.compare (rank v.content) (rank w.content) := by
  obtain ⟨t, c, m⟩ := v
  obtain ⟨u, d, n⟩ := w
  cases c <;> cases d <;> first | rfl | exact absurd rfl h

/-! ### Containers -/

/-- The order of containers without encodings. -/
def compareParts : Content Value → Content Value → Ordering
  | .items vs, .items ws => compareEach vs ws
  | .entries es, .entries fs => compareEntries es fs
  | .items _, _ => .lt
  | _, _ => .gt

/-- Containers with an encoding come before those without. -/
def compareBytes (p q : Option (List UInt8)) (otherwise : Ordering) : Ordering :=
  match p, q with
  | some p, some q => Ord.compare p q
  | some _, none => .lt
  | none, some _ => .gt
  | none, none => otherwise

/-- Containers go by their encodings, or else by their parts, and then by the names of their
types. -/
theorem compare_of_containers {v w : Value} (hv : rank v.content = 4) (hw : rank w.content = 4) :
    v.compare w =
      (compareBytes (ownBytes? v) (ownBytes? w) (compareParts v.content w.content)).then
        (Ord.compare v.ty.name w.ty.name) := by
  obtain ⟨t, c, m⟩ := v
  obtain ⟨u, d, n⟩ := w
  cases c <;> simp only [rank, reduceCtorEq] at hv <;> first | contradiction | skip
  all_goals
    cases d <;> simp only [rank, reduceCtorEq] at hw <;> first | contradiction | skip
  all_goals
    rw [compare, compareContainers]
    rfl

theorem compareBytes_chains (p q r : Option (List UInt8)) {pq qr pr : Ordering}
    (h : Chains pq qr pr) :
    Chains (compareBytes p q pq) (compareBytes q r qr) (compareBytes p r pr) := by
  cases p <;> cases q <;> cases r <;>
    first
    | exact h
    | exact chains_of_transCmp Ord.compare _ _ _
    | exact Chains.of_ne_right nofun
    | simp [compareBytes, Chains]

theorem compareBytes_swap (p q : Option (List UInt8)) {pq qp : Ordering} (h : pq = qp.swap) :
    compareBytes p q pq = (compareBytes q p qp).swap := by
  cases p <;> cases q <;> first | exact h | rfl | exact Std.OrientedOrd.eq_swap

/-! ### The order looks the same from both sides -/

private theorem compareEach_swap {vs : List Value}
    (h : ∀ v ∈ vs, ∀ w, v.compare w = (w.compare v).swap) (ws : List Value) :
    compareEach vs ws = (compareEach ws vs).swap := by
  induction vs generalizing ws with
  | nil => cases ws <;> rfl
  | cons v vs ih =>
    cases ws with
    | nil => rfl
    | cons w ws =>
      rw [compareEach, compareEach, Ordering.swap_then, h v (by simp) w,
        ih (fun v' hv' => h v' (by simp [hv'])) ws]

private theorem compareEntries_swap {es : Entries Value}
    (h : ∀ e ∈ es, ∀ w, e.2.compare w = (w.compare e.2).swap) (fs : Entries Value) :
    compareEntries es fs = (compareEntries fs es).swap := by
  induction es generalizing fs with
  | nil => cases fs <;> rfl
  | cons e es ih =>
    cases fs with
    | nil => rfl
    | cons f fs =>
      have hkey : Ord.compare e.1 f.1 = (Ord.compare f.1 e.1).swap := Std.OrientedOrd.eq_swap
      rw [compareEntries, compareEntries, Ordering.swap_then, Ordering.swap_then, hkey,
        h e (by simp) f.2, ih (fun e' he' => h e' (by simp [he'])) fs]

/-- The order looks the same from both sides. -/
theorem compare_swap (v w : Value) : v.compare w = (w.compare v).swap := by
  induction v using Value.induction generalizing w with
  | null ty m | unknown ty r m | bool ty b m | number ty n m | string ty s m | capsule ty h m =>
    obtain ⟨u, d, n⟩ := w
    cases d <;> first
      | rfl
      | exact Std.OrientedOrd.eq_swap
      | exact @Std.OrientedCmp.eq_swap _ Decimal.compare _ _ _
  | items ty vs m ih | entries ty es m ih =>
    by_cases hw : rank w.content = 4
    · rw [compare_of_containers rfl hw, compare_of_containers hw rfl, Ordering.swap_then]
      congr 1
      · refine compareBytes_swap _ _ ?_
        obtain ⟨u, d, n⟩ := w
        cases d <;> first
          | exact compareEach_swap ih _
          | exact compareEntries_swap ih _
          | rfl
          | simp [rank] at hw
      · exact Std.OrientedOrd.eq_swap
    · rw [compare_of_rank_ne (Ne.symm hw), compare_of_rank_ne hw]
      exact Std.OrientedOrd.eq_swap

/-! ### Transitivity -/

private theorem compareEach_chains {vs : List Value}
    (h : ∀ v ∈ vs, ∀ w x, Chains (v.compare w) (w.compare x) (v.compare x)) (ws xs : List Value) :
    Chains (compareEach vs ws) (compareEach ws xs) (compareEach vs xs) := by
  induction vs generalizing ws xs with
  | nil => cases ws <;> cases xs <;> simp [compareEach, Chains]
  | cons v vs ih =>
    cases ws with
    | nil => exact Chains.of_gt_left rfl
    | cons w ws =>
      cases xs with
      | nil => exact Chains.of_gt_right rfl
      | cons x xs => exact (h v (by simp) w x).then (ih (fun v' hv' => h v' (by simp [hv'])) ws xs)

private theorem compareEntries_chains {es : Entries Value}
    (h : ∀ e ∈ es, ∀ w x, Chains (e.2.compare w) (w.compare x) (e.2.compare x))
    (fs gs : Entries Value) :
    Chains (compareEntries es fs) (compareEntries fs gs) (compareEntries es gs) := by
  induction es generalizing fs gs with
  | nil => cases fs <;> cases gs <;> simp [compareEntries, Chains]
  | cons e es ih =>
    cases fs with
    | nil => exact Chains.of_gt_left rfl
    | cons f fs =>
      cases gs with
      | nil => exact Chains.of_gt_right rfl
      | cons g gs =>
        have hkey := chains_of_transCmp Ord.compare e.1 f.1 g.1
        exact (hkey.then (h e (by simp) f.2 g.2)).then
          (ih (fun e' he' => h e' (by simp [he'])) fs gs)

/-- Values of different kinds hang together by their kinds. -/
private theorem chains_of_rank_ne {v w x : Value}
    (h : rank v.content ≠ rank w.content ∨ rank w.content ≠ rank x.content) :
    Chains (v.compare w) (w.compare x) (v.compare x) := by
  have hne {i j : Nat} (hij : i ≠ j) : Ord.compare i j ≠ .eq :=
    fun heq => hij (Std.LawfulEqOrd.eq_of_compare heq)
  by_cases hvw : rank v.content = rank w.content
  · have hwx := h.resolve_left (not_not_intro hvw)
    have hvx : rank v.content ≠ rank x.content := by rwa [hvw]
    rw [compare_of_rank_ne hwx, compare_of_rank_ne hvx, hvw]
    exact Chains.of_ne_right (hne hwx)
  · by_cases hwx : rank w.content = rank x.content
    · have hvx : rank v.content ≠ rank x.content := by rwa [← hwx]
      rw [compare_of_rank_ne hvw, compare_of_rank_ne hvx, ← hwx]
      exact Chains.of_ne_left (hne hvw)
    · rw [compare_of_rank_ne hvw, compare_of_rank_ne hwx]
      by_cases hvx : rank v.content = rank x.content
      · -- Up to another kind and up again cannot lead back.
        rw [hvx]
        cases hcmp : Ord.compare (rank x.content) (rank w.content) with
        | lt => exact Chains.of_gt_right (Std.OrientedCmp.gt_of_lt hcmp)
        | eq => exact absurd hcmp (hne (hvx ▸ hvw))
        | gt => exact Chains.of_gt_left rfl
      · rw [compare_of_rank_ne hvx]
        exact chains_of_transCmp Ord.compare _ _ _

private theorem chains_of_leaf {v w x : Value} (hv : rank v.content ≠ 4) :
    Chains (v.compare w) (w.compare x) (v.compare x) := by
  by_cases hvw : rank v.content = rank w.content
  · by_cases hwx : rank w.content = rank x.content
    · obtain ⟨s, c, m⟩ := v
      obtain ⟨t, d, n⟩ := w
      obtain ⟨u, e, l⟩ := x
      cases c <;> cases d <;> cases hvw <;> cases e <;> cases hwx
      all_goals first
        | exact absurd rfl hv
        | simp only [Value.compare]
          first
          | exact chains_of_transCmp Ord.compare _ _ _
          | exact chains_of_transCmp Decimal.compare _ _ _
    · exact chains_of_rank_ne (.inr hwx)
  · exact chains_of_rank_ne (.inl hvw)

/-- The values directly inside contents. -/
def parts : Content Value → List Value
  | .items vs => vs
  | .entries es => es.map (·.2)
  | _ => []

theorem compareParts_chains {c d e : Content Value}
    (h : ∀ v ∈ parts c, ∀ w x, Chains (v.compare w) (w.compare x) (v.compare x))
    (hc : rank c = 4) (hd : rank d = 4) (he : rank e = 4) :
    Chains (compareParts c d) (compareParts d e) (compareParts c e) := by
  cases c <;> simp only [rank, reduceCtorEq] at hc <;> first | contradiction | skip
  all_goals cases d <;> simp only [rank, reduceCtorEq] at hd <;> first | contradiction | skip
  all_goals cases e <;> simp only [rank, reduceCtorEq] at he <;> first | contradiction | skip
  all_goals first
    | exact compareEach_chains h _ _
    | exact compareEntries_chains (fun e he => h e.2 (List.mem_map_of_mem he)) _ _
    | exact Chains.of_gt_left rfl
    | exact Chains.of_gt_right rfl
    | exact Chains.of_ne_right nofun
    | exact Chains.of_ne_left nofun

/-- Going up in the order twice is going up. -/
theorem compare_chains (v w x : Value) : Chains (v.compare w) (w.compare x) (v.compare x) := by
  induction v using Value.induction generalizing w x with
  | null ty m | unknown ty r m | bool ty b m | number ty n m | string ty s m | capsule ty h m =>
    exact chains_of_leaf (by simp [rank])
  | items ty vs m ih | entries ty es m ih =>
    by_cases hw : rank w.content = 4
    · by_cases hx : rank x.content = 4
      · rw [compare_of_containers rfl hw, compare_of_containers hw hx,
          compare_of_containers rfl hx]
        refine (compareBytes_chains _ _ _ ?_).then (chains_of_transCmp Ord.compare _ _ _)
        refine compareParts_chains (fun v hv => ?_) rfl hw hx
        simp only [parts, List.mem_map] at hv
        first
        | exact ih v hv
        | obtain ⟨e, he, rfl⟩ := hv
          exact ih e he
      · exact chains_of_rank_ne (.inr fun h => hx (h ▸ hw))
    · exact chains_of_rank_ne (.inl fun h => hw h.symm)

instance : Std.TransCmp compare where
  eq_swap := compare_swap _ _
  isLE_trans {a b c} hab hbc := by
    rw [compare_chains a b c hab hbc]
    revert hab hbc
    cases a.compare b <;> cases b.compare c <;> simp

/-- The order is a total preorder on all values: nulls, unknowns, capsules wherever they live, and
containers with and without an encoding. -/
theorem compare_total_preorder (a b c : Value) :
    a.compare a = .eq ∧ b.compare a = (a.compare b).swap ∧
      ((a.compare b).isLE → (b.compare c).isLE → (a.compare c).isLE) :=
  ⟨Std.ReflCmp.compare_self, compare_swap b a, Std.TransCmp.isLE_trans⟩

/-- A tuple with an encoding comes before those with a capsule inside, and these go by their
elements. -/
theorem compare_total_preorder_capsules :
    let kind : CapsuleType := ⟨0, "conn"⟩
    let entry (n : Int) : Value := ⟨.tuple [.capsule kind, .number],
      .items [.capsule ⟨kind, 7, .word 0⟩, .number (.ofInt n)], .empty⟩
    let plain : Value := ⟨.tuple [.number], .items [.number (.ofInt 9)], .empty⟩
    plain.compare (entry 1) = .lt ∧ (entry 1).compare (entry 2) = .lt ∧
      (entry 2).compare (entry 1) = .gt ∧ (plain.compare (entry 2)).isLE := by
  intro kind entry plain
  obtain ⟨-, -, htrans⟩ := compare_total_preorder plain (entry 1) (entry 2)
  have hplain : plain.compare (entry 1) = .lt := by decide +kernel
  have hentry : (entry 1).compare (entry 2) = .lt := by decide +kernel
  have hback := (compare_total_preorder (entry 1) (entry 2) plain).2.1
  exact ⟨hplain, hentry, by rw [hback, hentry, Ordering.swap_lt],
    htrans (hplain ▸ rfl) (hentry ▸ rfl)⟩

end TypedData.Value
