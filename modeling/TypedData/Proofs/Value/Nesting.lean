import TypedData.Proofs.Value.Order

/-!
# How deep values are

## Main definitions

* `Value.nesting` — how many containers stand inside one another
* `Value.depth` — how many containers stand around the innermost value

## Main results

* `Value.nesting_lt_of_mem_parts`, `Value.nesting_le_of_parts` — a container is one deeper than the
  deepest value in it
* `Value.depth_le_nesting` — no value stands in more containers than there are
-/

namespace TypedData.Value

mutual

/-- How many containers stand inside one another at most. -/
def nesting : Value → Nat
  | ⟨_, .items vs, _⟩ => nestingOf vs + 1
  | ⟨_, .entries es, _⟩ => nestingOfEntries es + 1
  | _ => 0

/-- The greatest nesting of several values. -/
def nestingOf : List Value → Nat
  | [] => 0
  | v :: vs => max v.nesting (nestingOf vs)

/-- The greatest nesting of the values of several entries. -/
def nestingOfEntries : Entries Value → Nat
  | [] => 0
  | (_, v) :: es => max v.nesting (nestingOfEntries es)

end

theorem nesting_le_nestingOf {v : Value} {vs : List Value} (h : v ∈ vs) :
    v.nesting ≤ nestingOf vs := by
  induction h with
  | head vs => exact Nat.le_max_left _ _
  | tail w _ ih => exact Nat.le_trans ih (Nat.le_max_right _ _)

theorem nesting_le_nestingOfEntries {e : String × Value} {es : Entries Value} (h : e ∈ es) :
    e.2.nesting ≤ nestingOfEntries es := by
  induction h with
  | head es => exact Nat.le_max_left _ _
  | tail w _ ih => exact Nat.le_trans ih (Nat.le_max_right _ _)

theorem nesting_lt_of_mem_parts {v w : Value} (h : w ∈ parts v.content) :
    w.nesting < v.nesting := by
  obtain ⟨ty, content, m⟩ := v
  cases content with
  | items vs => exact Nat.lt_succ_of_le (nesting_le_nestingOf h)
  | entries es =>
    obtain ⟨e, he, rfl⟩ := List.mem_map.mp h
    exact Nat.lt_succ_of_le (nesting_le_nestingOfEntries he)
  | _ => cases h

theorem nesting_le_of_parts {v : Value} {n : Nat} (h : ∀ w ∈ parts v.content, w.nesting ≤ n) :
    v.nesting ≤ n + 1 := by
  obtain ⟨ty, content, m⟩ := v
  cases content with
  | items vs =>
    refine Nat.succ_le_succ ?_
    induction vs with
    | nil => exact Nat.zero_le n
    | cons v vs ih =>
      exact Nat.max_le.mpr ⟨h v (by simp [parts]), ih fun w hw => h w (by simp_all [parts])⟩
  | entries es =>
    refine Nat.succ_le_succ ?_
    induction es with
    | nil => exact Nat.zero_le n
    | cons e es ih =>
      exact Nat.max_le.mpr ⟨h e.2 (by simp [parts]), ih fun w hw => h w (by simp_all [parts])⟩
  | _ => exact Nat.zero_le _

/-! ### Depth -/

mutual

/-- How many containers stand around the innermost value. A container without members stands in no
more of them than a value of another kind. -/
def depth : Value → Nat
  | ⟨_, .items vs, _⟩ => depthInside vs
  | ⟨_, .entries es, _⟩ => depthInsideEntries es
  | _ => 0

/-- The depth of a container of several values. -/
def depthInside : List Value → Nat
  | [] => 0
  | v :: vs => max (v.depth + 1) (depthInside vs)

/-- The depth of a container of several entries. -/
def depthInsideEntries : Entries Value → Nat
  | [] => 0
  | (_, v) :: es => max (v.depth + 1) (depthInsideEntries es)

end

theorem depth_lt_depthInside {v : Value} {vs : List Value} (h : v ∈ vs) :
    v.depth < depthInside vs := by
  induction h with
  | head vs => exact Nat.le_max_left _ _
  | tail w _ ih => exact Nat.lt_of_lt_of_le ih (Nat.le_max_right _ _)

theorem depth_lt_depthInsideEntries {e : String × Value} {es : Entries Value} (h : e ∈ es) :
    e.2.depth < depthInsideEntries es := by
  induction h with
  | head es => exact Nat.le_max_left _ _
  | tail w _ ih => exact Nat.lt_of_lt_of_le ih (Nat.le_max_right _ _)

theorem depthInside_le {vs : List Value} {n : Nat} (h : ∀ v ∈ vs, v.depth < n) :
    depthInside vs ≤ n := by
  induction vs with
  | nil => exact Nat.zero_le n
  | cons v vs ih =>
    rw [List.forall_mem_cons] at h
    exact Nat.max_le.mpr ⟨h.1, ih h.2⟩

theorem depthInsideEntries_le {es : Entries Value} {n : Nat} (h : ∀ e ∈ es, e.2.depth < n) :
    depthInsideEntries es ≤ n := by
  induction es with
  | nil => exact Nat.zero_le n
  | cons e es ih =>
    rw [List.forall_mem_cons] at h
    exact Nat.max_le.mpr ⟨h.1, ih h.2⟩

/-- No value stands in more containers than there are. -/
theorem depth_le_nesting (v : Value) : v.depth ≤ v.nesting := by
  induction v using Value.induction with
  | null | unknown | bool | number | string | capsule => exact Nat.zero_le _
  | items ty vs m ih =>
    refine depthInside_le fun v hv => Nat.lt_succ_of_le ?_
    exact (ih v hv).trans (nesting_le_nestingOf hv)
  | entries ty es m ih =>
    refine depthInsideEntries_le fun e he => Nat.lt_succ_of_le ?_
    exact (ih e he).trans (nesting_le_nestingOfEntries he)

end TypedData.Value
