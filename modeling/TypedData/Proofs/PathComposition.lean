import TypedData.Path.Apply
import TypedData.Proofs.Checks
import TypedData.Proofs.Value.SetMarks

/-!
# Paths, step by step

A path that leads somewhere may be followed in two parts, and one that fails does so at its first
step that leads nowhere. Marks that a value has on the way in are carried to the end, so what is
reached has the marks of everything that was visited, and no others.

## Main definitions

* `Value.visited` — the values on the way along a path, as they are stored
* `PathError.afterAll` — an error after more steps

## Main results

* `Value.follow_withMarks` — marks are carried along
* `Value.follow_append` — a path may be followed in two parts
* `Value.mem_marks_of_follow` — what is reached has the marks of everything visited
* `Value.exists_of_follow_eq_error` — the step at which a path fails
* `Value.follow_stepwise` — all of this together
-/

namespace TypedData

/-- The same error after more steps before it. -/
def PathError.afterAll (before : Path) (e : PathError) : PathError :=
  { e with consumed := before ++ e.consumed }

namespace Value

variable {v w : Value} {p q : Path} {e : PathError} {tag : String}

/-- The values on the way along a path, as they are stored: the value itself, and what each step
that leads somewhere leads to. -/
def visited (v : Value) : Path → List Value
  | [] => [v]
  | s :: rest =>
    match v.child s with
    | .ok w => v :: w.visited rest
    | .error _ => [v]

/-! ### Marks on the way -/

theorem withMarks_withMarks (v : Value) (m n : Marks) :
    (v.withMarks m).withMarks n = v.withMarks (n ∪ m) := by
  have hunion : n ∪ (m ∪ v.marks) = (n ∪ m) ∪ v.marks := by
    ext tag
    simp [or_assoc]
  simp only [withMarks, hunion]

/-- Where a step leads does not depend on marks. -/
theorem child_withMarks (v : Value) (m : Marks) (s : Step) :
    (v.withMarks m).child s = v.child s := rfl

/-- Marks are carried along to what a path reaches, and make no difference otherwise. -/
theorem follow_withMarks (v : Value) (m : Marks) (p : Path) :
    (v.withMarks m).follow p = (v.follow p).map (·.withMarks m) := by
  induction p generalizing v m with
  | nil => rfl
  | cons s rest ih =>
    rw [follow, follow, step, step, child_withMarks]
    cases v.child s with
    | error r => rfl
    | ok w =>
      have hmarks : (w.withMarks (v.withMarks m).marks) =
          (w.withMarks v.marks).withMarks m := (withMarks_withMarks w v.marks m).symm
      simp only
      rw [hmarks, ih, Except.mapError_map]

/-- The rest of a path is followed from what the first step leads to, as it is stored, and marks
are added at the end. -/
theorem follow_cons_of_child {s : Step} (h : v.child s = .ok w) :
    v.follow (s :: p) = ((w.follow p).mapError (·.after s)).map (·.withMarks v.marks) := by
  rw [follow, step, h]
  simp only
  rw [follow_withMarks, Except.mapError_map]

theorem follow_cons_of_child_error {s : Step} {r : PathReason} (h : v.child s = .error r) :
    v.follow (s :: p) = .error ⟨s, [], r⟩ := by
  rw [follow, step, h]

/-- What a path reaches is the last value visited, with marks. -/
theorem exists_getLast?_visited (h : v.follow p = .ok w) :
    ∃ u, (v.visited p).getLast? = some u ∧ SameData w u := by
  induction p generalizing v w with
  | nil =>
    obtain rfl := Except.ok.inj h
    exact ⟨v, rfl, .refl v⟩
  | cons s rest ih =>
    cases hchild : v.child s with
    | error r => rw [follow_cons_of_child_error hchild] at h; cases h
    | ok x =>
      rw [follow_cons_of_child hchild, Except.map_eq_ok_iff] at h
      obtain ⟨y, hy, rfl⟩ := h
      obtain ⟨u, hu, hdata⟩ := ih (Except.mapError_eq_ok_iff.mp hy)
      refine ⟨u, ?_, (SameData.withMarks y v.marks).trans hdata⟩
      simp [visited, hchild, List.getLast?_cons, hu]

/-- What a path reaches has the marks of everything visited, the last value included. -/
theorem mem_marks_of_follow (h : v.follow p = .ok w) :
    tag ∈ w.marks ↔ ∃ u ∈ v.visited p, tag ∈ u.marks := by
  induction p generalizing v w with
  | nil =>
    obtain rfl := Except.ok.inj h
    simp [visited]
  | cons s rest ih =>
    cases hchild : v.child s with
    | error r => rw [follow_cons_of_child_error hchild] at h; cases h
    | ok x =>
      rw [follow_cons_of_child hchild, Except.map_eq_ok_iff] at h
      obtain ⟨y, hy, rfl⟩ := h
      have hrest := ih (Except.mapError_eq_ok_iff.mp hy)
      simp [visited, hchild, withMarks, hrest]

/-! ### Paths in two parts -/

/-- What follows a path is followed from what the path reaches; if it fails, it does so after the
steps of both. -/
theorem follow_append (h : v.follow p = .ok w) :
    v.follow (p ++ q) = (w.follow q).mapError (·.afterAll p) := by
  induction p generalizing v with
  | nil =>
    obtain rfl := Except.ok.inj h
    cases hq : v.follow q <;> simp [Except.mapError, PathError.afterAll, hq]
  | cons s rest ih =>
    rw [follow] at h
    rw [List.cons_append, follow]
    cases hstep : v.step s with
    | error e => rw [hstep] at h; cases h
    | ok x =>
      rw [hstep] at h
      simp only
      rw [ih (Except.mapError_eq_ok_iff.mp h)]
      cases w.follow q <;> rfl

/-! ### Paths that fail -/

/-- A path that fails does so at a step of its own: the steps before it lead somewhere, and from
there it leads nowhere. -/
theorem exists_of_follow_eq_error (h : v.follow p = .error e) :
    ∃ rest u, p = e.consumed ++ e.step :: rest ∧ v.follow e.consumed = .ok u ∧
      u.step e.step = .error ⟨e.step, [], e.reason⟩ := by
  induction p generalizing v e with
  | nil => cases h
  | cons s rest ih =>
    rw [follow] at h
    cases hstep : v.step s with
    | error e' =>
      rw [hstep] at h
      obtain rfl := Except.error.inj h
      have hstep' := hstep
      rw [step] at hstep'
      split at hstep'
      · cases hstep'
      · obtain rfl := Except.error.inj hstep'
        exact ⟨rest, v, rfl, rfl, hstep⟩
    | ok x =>
      rw [hstep] at h
      obtain ⟨e', hrest, rfl⟩ := Except.mapError_eq_error_iff.mp h
      obtain ⟨last, u, hpath, hu, hfail⟩ := ih hrest
      refine ⟨last, u, by rw [hpath]; rfl, ?_, hfail⟩
      rw [PathError.after, follow, hstep]
      exact Except.mapError_eq_ok_iff.mpr hu

/-- A path that leads somewhere may be followed by another from there, with the same outcome, and
what it reaches is the last of the values visited, with the marks of all of them. A path that fails
leads somewhere with the steps before the one that it names, and from there this step fails for the
reason that is given. -/
theorem follow_stepwise (v : Value) (p q : Path) :
    (∀ w, v.follow p = .ok w →
      v.follow (p ++ q) = (w.follow q).mapError (·.afterAll p) ∧
      (∃ u, (v.visited p).getLast? = some u ∧ SameData w u) ∧
      ∀ tag, tag ∈ w.marks ↔ ∃ u ∈ v.visited p, tag ∈ u.marks) ∧
    ∀ e, v.follow p = .error e →
      ∃ rest u, p = e.consumed ++ e.step :: rest ∧ v.follow e.consumed = .ok u ∧
        u.step e.step = .error ⟨e.step, [], e.reason⟩ :=
  ⟨fun _ h => ⟨follow_append h, exists_getLast?_visited h, fun _ => mem_marks_of_follow h⟩,
    fun _ => exists_of_follow_eq_error⟩

/-- The marked list in an attribute of a marked object takes on the mark of the object. Its element
is reached from there, and beyond its end the path fails after the attribute. -/
theorem follow_stepwise_marked :
    let elem : Value := (number ⟨1, 0⟩).mark "elem"
    let list : Value := ⟨.list .number, .items [elem], .ofList ["list"]⟩
    let v : Value := ⟨.object [⟨"a", .list .number, false⟩], .entries [("a", list)],
      .ofList ["object"]⟩
    let w := list.withMarks (.ofList ["object"])
    v.follow [.attr "a"] = .ok w ∧
      v.follow ([.attr "a"] ++ [.index 0]) =
        (w.follow [.index 0]).mapError (·.afterAll [.attr "a"]) ∧
      ("object" ∈ w.marks ↔ ∃ u ∈ [v, list], "object" ∈ u.marks) ∧
      ∃ rest u, [Step.attr "a", .index 1] = [.attr "a"] ++ .index 1 :: rest ∧
        v.follow [.attr "a"] = .ok u ∧
        u.step (.index 1) = .error ⟨.index 1, [], .outOfRange 1 1⟩ := by
  intro elem list v w
  have hreach : v.follow [.attr "a"] = .ok w := by rfl
  have hbeyond : v.follow [.attr "a", .index 1] =
      .error ⟨.index 1, [.attr "a"], .outOfRange 1 1⟩ := by rfl
  obtain ⟨hrest, -, hmarks⟩ := (follow_stepwise v [.attr "a"] [.index 0]).1 w hreach
  exact ⟨hreach, hrest, hmarks "object",
    (follow_stepwise v [.attr "a", .index 1] []).2 _ hbeyond⟩

end Value

end TypedData
