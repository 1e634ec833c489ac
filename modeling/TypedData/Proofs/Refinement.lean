import TypedData.Refinement

/-!
# Refinements made step by step

Every refinement is made from the empty one by saying one thing after another. What the steps
keep is therefore true of all refinements.

## Main definitions

* `Refinement.Built` — refinements made step by step
* `Refinement.StartKept` — beginnings that are kept whole

## Main results

* `Refinement.retainFor_retainFor` — restricting to a type twice is restricting once
* `Refinement.Built.startKept` — the beginning of a refinement is kept whole
-/

namespace TypedData.Refinement

variable {r : Refinement}

/-! ### Restriction to a type -/

@[simp] theorem retainFor_retainFor (r : Refinement) (ty : Ty) :
    (r.retainFor ty).retainFor ty = r.retainFor ty := by
  cases ty <;> rfl

theorem retainFor_capLengthLower (r : Refinement) (ty : Ty) (cap : Nat) :
    ((r.retainFor ty).capLengthLower cap).retainFor ty = (r.retainFor ty).capLengthLower cap := by
  cases ty <;> rfl

/-! ### Beginnings -/

/-- The beginning, if there is one, is kept whole: it is not empty and not too long. -/
def StartKept (r : Refinement) : Prop :=
  ∀ s, r.startsWith = some s → (Refinement.none.withStart s).startsWith = some s

/-- A beginning that is kept whole can be said again. -/
theorem StartKept.withStart_eq (h : r.StartKept) {s : String} (hs : r.startsWith = some s)
    (q : Refinement) : q.withStart s = { q with startsWith := some s } := by
  have hkept : (if String.ofList (takeBytes maxStartBytes s.toList) = "" then .none
      else some (String.ofList (takeBytes maxStartBytes s.toList))) = some s := h s hs
  rw [withStart, hkept]

theorem startKept_of_eq_none (h : r.startsWith = .none) : r.StartKept := by
  simp [StartKept, h]

theorem StartKept.of_eq {q : Refinement} (h : r.StartKept) (heq : q.startsWith = r.startsWith) :
    q.StartKept := fun s hs => h s (heq ▸ hs)

theorem StartKept.retainFor (h : r.StartKept) (ty : Ty) : (r.retainFor ty).StartKept := by
  intro s hs
  cases ty <;> first | exact h s hs | simp [Refinement.retainFor, Refinement.none] at hs

theorem takeBytes_takeBytes (limit : Nat) (cs : List Char) :
    takeBytes limit (takeBytes limit cs) = takeBytes limit cs := by
  induction cs generalizing limit with
  | nil => rfl
  | cons c cs ih =>
    rw [takeBytes]
    split
    · rename_i h
      rw [takeBytes, if_pos h, ih]
    · rfl

theorem startKept_withStart (r : Refinement) (s : String) : (r.withStart s).StartKept := by
  intro t ht
  simp only [withStart] at ht ⊢
  split at ht
  · cases ht
  · rename_i hne
    obtain rfl := Option.some.inj ht
    rw [String.toList_ofList, takeBytes_takeBytes, if_neg hne]

/-! ### Refinements made step by step -/

/-- A refinement made step by step, with bounds of which `P` holds. -/
inductive Built (P : Decimal → Prop) : Refinement → Prop
  | none : Built P none
  | notNull {r : Refinement} (h : Built P r) : Built P r.withNotNull
  | start {r : Refinement} (h : Built P r) (s : String) : Built P (r.withStart s)
  | lower {r : Refinement} {value : Decimal} (h : Built P r) (hvalue : P value)
      (inclusive : Bool) : Built P (r.withLower value inclusive)
  | upper {r : Refinement} {value : Decimal} (h : Built P r) (hvalue : P value)
      (inclusive : Bool) : Built P (r.withUpper value inclusive)
  | lengthLower {r : Refinement} (h : Built P r) (n : Nat) : Built P (r.withLengthLower n)
  | lengthUpper {r : Refinement} (h : Built P r) (n : Nat) : Built P (r.withLengthUpper n)

/-- The beginning of a refinement is kept whole. -/
theorem Built.startKept {P : Decimal → Prop} (h : Built P r) : r.StartKept := by
  induction h with
  | none => exact startKept_of_eq_none rfl
  | start _ s => exact startKept_withStart _ s
  | notNull _ ih | lower _ _ _ ih | upper _ _ _ ih | lengthLower _ _ ih | lengthUpper _ _ ih =>
    exact ih.of_eq rfl

end TypedData.Refinement
