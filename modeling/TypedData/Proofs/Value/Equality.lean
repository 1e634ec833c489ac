import TypedData.Proofs.Checks
import TypedData.Proofs.Value.Induction

/-!
# Equality, place by place

## Main results

* `Value.identicalEach_iff`, `Value.identicalEntries_iff` — equality of everything, place by place
* `Value.sameEach_iff`, `Value.sameEntries_iff` — equality as data, place by place
* `Value.identical_iff`, `Value.same_iff` — equality of types and contents
* `Value.same_induction` — induction on two values that are equal as data
-/

namespace TypedData.Value

theorem identicalEach_iff {vs ws : List Value} :
    identicalEach vs ws ↔ List.Forall₂ (fun v w => v.identical w) vs ws := by
  induction vs generalizing ws with
  | nil => cases ws <;> simp [identicalEach]
  | cons v vs ih => cases ws <;> simp [identicalEach, ih]

theorem identicalEntries_iff {es fs : Entries Value} :
    identicalEntries es fs ↔ List.Forall₂ (fun e f => e.1 = f.1 ∧ e.2.identical f.2) es fs := by
  induction es generalizing fs with
  | nil => cases fs <;> simp [identicalEntries]
  | cons e es ih =>
    obtain ⟨k, v⟩ := e
    cases fs with
    | nil => simp [identicalEntries]
    | cons f fs => simp [identicalEntries, ih]

theorem sameEach_iff {vs ws : List Value} :
    sameEach vs ws ↔ List.Forall₂ (fun v w => v.same w) vs ws := by
  induction vs generalizing ws with
  | nil => cases ws <;> simp [sameEach]
  | cons v vs ih => cases ws <;> simp [sameEach, ih]

theorem sameEntries_iff {es fs : Entries Value} :
    sameEntries es fs ↔ List.Forall₂ (fun e f => e.1 = f.1 ∧ e.2.same f.2) es fs := by
  induction es generalizing fs with
  | nil => cases fs <;> simp [sameEntries]
  | cons e es ih =>
    obtain ⟨k, v⟩ := e
    cases fs with
    | nil => simp [sameEntries]
    | cons f fs => simp [sameEntries, ih]

/-- Equality of contents. -/
def identicalContent : Content Value → Content Value → Bool
  | .null, .null => true
  | .unknown a, .unknown b => a.same b
  | .bool a, .bool b => a == b
  | .number a, .number b => a.same b
  | .string a, .string b => a == b
  | .items vs, .items ws => identicalEach vs ws
  | .entries es, .entries fs => identicalEntries es fs
  | .capsule a, .capsule b => a.same b
  | _, _ => false

theorem identical_iff {v w : Value} : v.identical w ↔
    v.ty.same w.ty ∧ v.marks = w.marks ∧ identicalContent v.content w.content := by
  obtain ⟨t, c, m⟩ := v
  obtain ⟨u, d, n⟩ := w
  have hty : (t == u) = t.same u := rfl
  cases c <;> cases d <;>
    simp [identical, identicalContent, hty, and_assoc]

/-- Equality of contents as data. -/
def sameContent : Content Value → Content Value → Bool
  | .null, .null => true
  | .bool a, .bool b => a == b
  | .number a, .number b => a.same b
  | .string a, .string b => a == b
  | .items vs, .items ws => sameEach vs ws
  | .entries es, .entries fs => sameEntries es fs
  | .capsule a, .capsule b => a.same b
  | _, _ => false

theorem same_iff {v w : Value} :
    v.same w ↔ v.ty.same w.ty ∧ sameContent v.content w.content := by
  obtain ⟨t, c, m⟩ := v
  obtain ⟨u, d, n⟩ := w
  have hty : (t == u) = t.same u := rfl
  cases c <;> cases d <;> simp [same, sameContent, hty]

/-- What holds of two equal values whenever it holds of what they have at each place inside holds of
all equal values. -/
@[elab_as_elim]
theorem same_induction {motive : ∀ v w : Value, v.same w → Prop}
    (null : ∀ {t u m n} (h : same ⟨t, .null, m⟩ ⟨u, .null, n⟩), motive _ _ h)
    (bool : ∀ {t u b m n} (h : same ⟨t, .bool b, m⟩ ⟨u, .bool b, n⟩), motive _ _ h)
    (number : ∀ {t u a b m n} (h : same ⟨t, .number a, m⟩ ⟨u, .number b, n⟩),
      a.same b → motive _ _ h)
    (string : ∀ {t u s m n} (h : same ⟨t, .string s, m⟩ ⟨u, .string s, n⟩), motive _ _ h)
    (capsule : ∀ {t u a b m n} (h : same ⟨t, .capsule a, m⟩ ⟨u, .capsule b, n⟩),
      a.same b → motive _ _ h)
    (items : ∀ {t u vs ws m n} (h : same ⟨t, .items vs, m⟩ ⟨u, .items ws, n⟩),
      List.Forall₂ (fun v w => ∃ h : v.same w, motive v w h) vs ws → motive _ _ h)
    (entries : ∀ {t u es fs m n} (h : same ⟨t, .entries es, m⟩ ⟨u, .entries fs, n⟩),
      List.Forall₂ (fun e f => e.1 = f.1 ∧ ∃ h : e.2.same f.2, motive e.2 f.2 h) es fs →
        motive _ _ h)
    (v w : Value) (h : v.same w) : motive v w h := by
  induction v using Value.induction generalizing w
  -- Contents of two kinds are not equal, nor are unknowns.
  all_goals
    obtain ⟨u, content, n⟩ := w
    have hcontent := (same_iff.mp h).2
    cases content <;> try cases hcontent
  case null.null => exact null h
  case bool.bool =>
    obtain rfl := eq_of_beq hcontent
    exact bool h
  case number.number => exact number h hcontent
  case string.string =>
    obtain rfl := eq_of_beq hcontent
    exact string h
  case capsule.capsule => exact capsule h hcontent
  case items.items ih ws =>
    exact items h ((sameEach_iff.mp hcontent).imp_of_mem fun v hv w _ hsame =>
      ⟨hsame, ih v hv w hsame⟩)
  case entries.entries ih fs =>
    exact entries h ((sameEntries_iff.mp hcontent).imp_of_mem fun e he f _ hsame =>
      ⟨hsame.1, hsame.2, ih e he f.2 hsame.2⟩)

end TypedData.Value
