import Mathlib.Data.List.Forall2
import TypedData.Ty.Text

/-!
# Checks that succeed

## Main results

* `Except.map_eq_ok_iff`, `Except.mapError_eq_ok_iff` — what a result after a change was before
* `Except.map_eq_error_iff`, `Except.mapError_eq_error_iff` — the same of a failure
* `List.Forall₂.exists_of_mem_left`, `List.Forall₂.exists_of_mem_right` — members of lists that
  are related place by place
* `List.Forall₂.exists_map_eq`, `List.Forall₂.pairwise_of_mem` — such lists as images of one list,
  and what carries over from one to the other
* `Ty.firstError_eq_ok_iff` — a list of checks succeeds exactly if each of them does
-/

/-- What holds of both members of a pair. -/
theorem List.forall_mem_pair {α : Type} {a b : α} {P : α → Prop} :
    (∀ x ∈ [a, b], P x) ↔ P a ∧ P b := by
  rw [List.forall_mem_cons, List.forall_mem_singleton]

namespace List.Forall₂

variable {α β : Type} {R : α → β → Prop} {as : List α} {bs : List β}

theorem exists_of_mem_left (h : List.Forall₂ R as bs) {a : α} (ha : a ∈ as) :
    ∃ b ∈ bs, R a b := by
  induction h with
  | nil => simp at ha
  | cons hab _ ih =>
    rcases List.mem_cons.mp ha with rfl | ha
    · exact ⟨_, by simp, hab⟩
    · obtain ⟨b, hb, hab⟩ := ih ha
      exact ⟨b, by simp [hb], hab⟩

theorem exists_of_mem_right (h : List.Forall₂ R as bs) {b : β} (hb : b ∈ bs) :
    ∃ a ∈ as, R a b := by
  obtain ⟨a, ha, hab⟩ := h.flip.exists_of_mem_left hb
  exact ⟨a, ha, hab⟩

theorem imp_of_mem {S : α → β → Prop} (h : List.Forall₂ R as bs)
    (hRS : ∀ a ∈ as, ∀ b ∈ bs, R a b → S a b) : List.Forall₂ S as bs := by
  induction h with
  | nil => exact .nil
  | cons hab _ ih =>
    exact .cons (hRS _ (by simp) _ (by simp) hab)
      (ih fun a ha b hb => hRS a (by simp [ha]) b (by simp [hb]))

/-- Lists that are related place by place in two ways are so in both at once. -/
theorem both {S : α → β → Prop} (h : List.Forall₂ R as bs) (h' : List.Forall₂ S as bs) :
    List.Forall₂ (fun a b => R a b ∧ S a b) as bs := by
  induction h with
  | nil => exact .nil
  | cons hab _ ih =>
    cases h' with
    | cons hab' hrest => exact .cons ⟨hab, hab'⟩ (ih hrest)

/-- From one list to a third one through a second. -/
theorem trans_of_mem {γ : Type} {S : β → γ → Prop} {T : α → γ → Prop} {cs : List γ}
    (h : List.Forall₂ R as bs) (h' : List.Forall₂ S bs cs)
    (hT : ∀ a ∈ as, ∀ b ∈ bs, ∀ c, R a b → S b c → T a c) : List.Forall₂ T as cs := by
  induction h generalizing cs with
  | nil =>
    cases h'
    exact .nil
  | cons hab _ ih =>
    cases h' with
    | cons hbc hrest =>
      exact .cons (hT _ (by simp) _ (by simp) _ hab hbc)
        (ih hrest fun a ha b hb => hT a (by simp [ha]) b (by simp [hb]))

/-- Lists that are related place by place are images of one list. -/
theorem exists_map_eq {γ : Type} {f : γ → α} {g : γ → β} {P : γ → Prop}
    (h : List.Forall₂ (fun a b => ∃ c, f c = a ∧ g c = b ∧ P c) as bs) :
    ∃ cs : List γ, cs.map f = as ∧ cs.map g = bs ∧ ∀ c ∈ cs, P c := by
  induction h with
  | nil => exact ⟨[], rfl, rfl, List.forall_mem_nil _⟩
  | cons hab _ ih =>
    obtain ⟨c, rfl, rfl, hc⟩ := hab
    obtain ⟨cs, rfl, rfl, hcs⟩ := ih
    exact ⟨c :: cs, rfl, rfl, List.forall_mem_cons.mpr ⟨hc, hcs⟩⟩

/-- What holds between any two members of a list carries over place by place. -/
theorem pairwise_of_mem {S : α → α → Prop} {T : β → β → Prop} (h : List.Forall₂ R as bs)
    (hS : as.Pairwise S)
    (hT : ∀ a ∈ as, ∀ a' ∈ as, ∀ b ∈ bs, ∀ b' ∈ bs, R a b → R a' b' → S a a' → T b b') :
    bs.Pairwise T := by
  induction h with
  | nil => exact .nil
  | @cons a b as bs hab hrest ih =>
    obtain ⟨hfirst, hS⟩ := List.pairwise_cons.mp hS
    refine List.pairwise_cons.mpr ⟨fun b' hb' => ?_, ih hS fun a ha a' ha' b hb b' hb' =>
      hT a (by simp [ha]) a' (by simp [ha']) b (by simp [hb]) b' (by simp [hb'])⟩
    obtain ⟨a', ha', hab'⟩ := hrest.exists_of_mem_right hb'
    exact hT a (by simp) a' (by simp [ha']) b (by simp) b' (by simp [hb']) hab hab' (hfirst a' ha')

/-- What two lists have in common place by place. -/
theorem map_eq_map {γ : Type} {f : α → γ} {g : β → γ} (h : List.Forall₂ R as bs)
    (hfg : ∀ a b, R a b → f a = g b) : as.map f = bs.map g := by
  induction h with
  | nil => rfl
  | cons hab _ ih => rw [List.map_cons, List.map_cons, hfg _ _ hab, ih]

end List.Forall₂

/-- If every member of a list is related to something, it is to a list place by place. -/
theorem List.exists_forall₂_of_mem {α β : Type} {R : α → β → Prop} {as : List α}
    (h : ∀ a ∈ as, ∃ b, R a b) : ∃ bs, List.Forall₂ R as bs := by
  induction as with
  | nil => exact ⟨[], .nil⟩
  | cons a as ih =>
    rw [List.forall_mem_cons] at h
    obtain ⟨b, hab⟩ := h.1
    obtain ⟨bs, hbs⟩ := ih h.2
    exact ⟨b :: bs, .cons hab hbs⟩

namespace Except

variable {ε ε' α β : Type} {e : ε}

theorem map_eq_ok_iff {f : α → β} {x : Except ε α} {b : β} :
    x.map f = .ok b ↔ ∃ a, x = .ok a ∧ f a = b := by
  cases x <;> simp [Except.map]

theorem mapError_eq_ok_iff {f : ε → ε'} {x : Except ε α} {a : α} :
    x.mapError f = .ok a ↔ x = .ok a := by
  cases x <;> simp [Except.mapError]

theorem map_eq_error_iff {f : α → β} {x : Except ε α} : x.map f = .error e ↔ x = .error e := by
  cases x <;> simp [Except.map]

theorem mapError_eq_error_iff {f : ε' → ε} {x : Except ε' α} :
    x.mapError f = .error e ↔ ∃ e', x = .error e' ∧ f e' = e := by
  cases x <;> simp [Except.mapError]

theorem map_map {γ : Type} (x : Except ε α) (f : α → β) (g : β → γ) :
    (x.map f).map g = x.map fun a => g (f a) := by
  cases x <;> rfl

theorem mapError_map (x : Except ε α) (f : α → β) (g : ε → ε') :
    (x.map f).mapError g = (x.mapError g).map f := by
  cases x <;> rfl

end Except

namespace TypedData.Ty

variable {ε α : Type}

/-- A list of checks succeeds exactly if each of them does, with their results under their
names. -/
theorem firstError_eq_ok_iff {xs : List (String × Except ε α)} {ys : List (String × α)} :
    firstError xs = .ok ys ↔ List.Forall₂ (fun x y => x.1 = y.1 ∧ x.2 = .ok y.2) xs ys := by
  induction xs generalizing ys with
  | nil => simp [firstError, eq_comm]
  | cons x xs ih =>
    obtain ⟨k, r⟩ := x
    cases r with
    | error e => cases ys <;> simp [firstError]
    | ok a =>
      rw [firstError, Except.map_eq_ok_iff]
      cases ys with
      | nil => simp
      | cons y ys => simp [ih, Prod.ext_iff, and_comm, and_assoc, eq_comm]

/-- A list of checks that fails does so by one of them. -/
theorem exists_of_firstError_eq_error {xs : List (String × Except ε α)} {e : ε}
    (h : firstError xs = .error e) : ∃ x ∈ xs, x.2 = .error e := by
  induction xs with
  | nil => cases h
  | cons x xs ih =>
    obtain ⟨k, r⟩ := x
    cases r with
    | error e' =>
      obtain rfl := Except.error.inj h
      exact ⟨_, List.mem_cons_self, rfl⟩
    | ok a =>
      rw [firstError] at h
      cases hxs : firstError xs with
      | ok ys => simp [hxs, Except.map] at h
      | error e' =>
        simp only [hxs, Except.map, Except.error.injEq] at h
        obtain ⟨x, hx, heq⟩ := ih (hxs.trans (congrArg _ h))
        exact ⟨x, List.mem_cons_of_mem _ hx, heq⟩

/-- A change of every result changes what a list of checks gives. -/
theorem firstError_map {β : Type} (f : α → β) (xs : List (String × Except ε α)) :
    firstError (xs.map fun x => (x.1, x.2.map f)) =
      (firstError xs).map fun es => es.map fun e => (e.1, f e.2) := by
  induction xs with
  | nil => rfl
  | cons x xs ih =>
    obtain ⟨k, r⟩ := x
    cases r with
    | error e => rfl
    | ok a =>
      rw [List.map_cons, Except.map, firstError, ih, firstError, Except.map_map, Except.map_map]
      rfl

/-- The same for the checks of some things one by one. -/
theorem firstError_map_eq_ok_iff {β : Type} {name : β → String} {check : β → Except ε α}
    {bs : List β} {ys : List (String × α)} :
    firstError (bs.map fun b => (name b, check b)) = .ok ys ↔
      List.Forall₂ (fun b y => name b = y.1 ∧ check b = .ok y.2) bs ys := by
  rw [firstError_eq_ok_iff, List.forall₂_map_left_iff]

end TypedData.Ty
