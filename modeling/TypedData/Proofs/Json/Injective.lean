import TypedData.Proofs.Json.Induction
import TypedData.Proofs.Json.Lexing

/-!
# Different values have different texts

Tokens determine the value they were printed from, wherever it ends among other tokens. This needs
no reader, so that it holds however deep a value nests.

## Main results

* `Json.tokens_append_inj` — tokens that start alike were printed from one value
* `Json.Spelled.eq_of_compact_eq` — so were equal texts
-/

namespace TypedData.Json

variable {ts ts' : List Token}

/-- Whether only the tokens of a value itself start with them. -/
def StartsAlone (j : Json) : Prop :=
  ∀ j' ts ts', j.tokens ++ ts = j'.tokens ++ ts' → j = j' ∧ ts = ts'

/-- The items after the first one, up to the closing bracket. -/
theorem itemTokens_append_inj {js js' : List Json} (hjs : ∀ j ∈ js, StartsAlone j)
    (h : itemTokens js ++ ts = itemTokens js' ++ ts') : js = js' ∧ ts = ts' := by
  induction js generalizing js' with
  | nil =>
    cases js' with
    | nil => exact ⟨rfl, (List.cons.inj h).2⟩
    | cons j' js' => cases (List.cons.inj h).1
  | cons j js ih =>
    rw [List.forall_mem_cons] at hjs
    cases js' with
    | nil => cases (List.cons.inj h).1
    | cons j' js' =>
      simp only [itemTokens, List.cons_append, List.append_assoc] at h
      obtain ⟨rfl, hrest⟩ := hjs.1 j' _ _ (List.cons.inj h).2
      obtain ⟨rfl, rfl⟩ := ih hjs.2 hrest
      exact ⟨rfl, rfl⟩

/-- The fields after the first one, up to the closing brace. -/
theorem fieldTokens_append_inj {fs fs' : List (String × Json)}
    (hfs : ∀ f ∈ fs, StartsAlone f.2) (h : fieldTokens fs ++ ts = fieldTokens fs' ++ ts') :
    fs = fs' ∧ ts = ts' := by
  induction fs generalizing fs' with
  | nil =>
    cases fs' with
    | nil => exact ⟨rfl, (List.cons.inj h).2⟩
    | cons f' fs' => cases (List.cons.inj h).1
  | cons f fs ih =>
    rw [List.forall_mem_cons] at hfs
    cases fs' with
    | nil => cases (List.cons.inj h).1
    | cons f' fs' =>
      obtain ⟨k, j⟩ := f
      obtain ⟨k', j'⟩ := f'
      simp only [fieldTokens, List.cons_append, List.append_assoc, List.cons.injEq,
        Token.string.injEq, true_and] at h
      obtain ⟨rfl, h⟩ := h
      obtain ⟨rfl, hrest⟩ := hfs.1 j' _ _ h
      obtain ⟨rfl, rfl⟩ := ih hfs.2 hrest
      exact ⟨rfl, rfl⟩

/-- The first token of an item is not the end of an array. -/
theorem tokens_append_ne_closeArray (j : Json) (ts ts' : List Token) :
    j.tokens ++ ts ≠ .closeArray :: ts' := by
  intro h
  cases j with
  | array js => cases js <;> cases (List.cons.inj h).1
  | object fs => cases fs <;> cases (List.cons.inj h).1
  | null | bool | number | string => cases (List.cons.inj h).1

theorem startsAlone_array {js : List Json} (hjs : ∀ j ∈ js, StartsAlone j) :
    StartsAlone (.array js) := by
  intro j' ts ts' h
  cases j' with
  | null | bool | number | string => cases js <;> cases (List.cons.inj h).1
  | object fs => cases js <;> cases fs <;> cases (List.cons.inj h).1
  | array js' =>
    cases js with
    | nil =>
      cases js' with
      | nil => cases h; exact ⟨rfl, rfl⟩
      | cons j' js' =>
        simp only [tokens, List.cons_append, List.append_assoc, List.nil_append] at h
        exact absurd (List.cons.inj h).2.symm (tokens_append_ne_closeArray _ _ _)
    | cons j js =>
      rw [List.forall_mem_cons] at hjs
      cases js' with
      | nil =>
        simp only [tokens, List.cons_append, List.append_assoc, List.nil_append] at h
        exact absurd (List.cons.inj h).2 (tokens_append_ne_closeArray _ _ _)
      | cons j' js' =>
        simp only [tokens, List.cons_append, List.append_assoc] at h
        obtain ⟨rfl, hrest⟩ := hjs.1 j' _ _ (List.cons.inj h).2
        obtain ⟨rfl, rfl⟩ := itemTokens_append_inj hjs.2 hrest
        exact ⟨rfl, rfl⟩

theorem startsAlone_object {fs : List (String × Json)} (hfs : ∀ f ∈ fs, StartsAlone f.2) :
    StartsAlone (.object fs) := by
  intro j' ts ts' h
  cases j' with
  | null | bool | number | string => cases fs <;> cases (List.cons.inj h).1
  | array js => cases fs <;> cases js <;> cases (List.cons.inj h).1
  | object fs' =>
    cases fs with
    | nil =>
      cases fs' with
      | nil => cases h; exact ⟨rfl, rfl⟩
      | cons f' fs' => cases (List.cons.inj (List.cons.inj h).2).1
    | cons f fs =>
      rw [List.forall_mem_cons] at hfs
      cases fs' with
      | nil => cases (List.cons.inj (List.cons.inj h).2).1
      | cons f' fs' =>
        obtain ⟨k, j⟩ := f
        obtain ⟨k', j'⟩ := f'
        simp only [tokens, List.cons_append, List.append_assoc, List.cons.injEq,
          Token.string.injEq, true_and] at h
        obtain ⟨rfl, h⟩ := h
        obtain ⟨rfl, hrest⟩ := hfs.1 j' _ _ h
        obtain ⟨rfl, rfl⟩ := fieldTokens_append_inj hfs.2 hrest
        exact ⟨rfl, rfl⟩

/-- Tokens that start with those of a value start with those of no other one. -/
theorem tokens_append_inj (j : Json) : StartsAlone j := by
  induction j using Json.induction with
  | array js ih => exact startsAlone_array ih
  | object fs ih => exact startsAlone_object ih
  | null | bool | number | string =>
    intro j' ts ts' h
    -- The one token of a scalar names its kind and its text.
    cases j' with
    | array js => cases js <;> cases (List.cons.inj h).1
    | object fs => cases fs <;> cases (List.cons.inj h).1
    | null | bool | number | string => cases h <;> exact ⟨rfl, rfl⟩

/-- Values with one text are one value. -/
theorem Spelled.eq_of_compact_eq {P : String × Json → Prop} {j j' : Json} (hj : j.Spelled P)
    (hj' : j'.Spelled P) (h : j.compact = j'.compact) : j = j' := by
  have htokens : j.tokens = j'.tokens := by
    rw [← Token.ofText_chars hj, ← Token.ofText_chars hj', String.ofList_injective h]
  exact (tokens_append_inj j j' [] [] (by rw [htokens])).1

end TypedData.Json
