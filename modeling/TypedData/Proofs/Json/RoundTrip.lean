import TypedData.Proofs.Json.FirstValue
import TypedData.Proofs.Text.Utf8

/-!
# Reading what was printed

## Main definitions

* `Json.nesting` — how many arrays and objects stand inside one another
* `Json.Refused` — values in whose texts a reserved name is misused

## Main results

* `Json.Reader.run_tokens` — the tokens of a value are read as that value
* `Json.eq_of_read_chars` — nothing else is read from the text of a value
* `Json.Refused.read_ne_ok` — nothing is read from a text where a reserved name is misused
* `Json.exists_read_chars_iff` — which texts are read at all
* `Json.readBytes_compact` — a value is read back from its text, if it does not nest too deeply
* `Json.eq_of_readBytes_compact` — what is read back from the text of a value is that value
-/

namespace TypedData.Json

mutual

/-- How many arrays and objects stand inside one another. -/
def nesting : Json → Nat
  | array items => nestingOfItems items + 1
  | object fields => nestingOfFields fields + 1
  | null | bool _ | number _ | string _ => 0

/-- The deepest nesting of several items. -/
def nestingOfItems : List Json → Nat
  | [] => 0
  | j :: js => max j.nesting (nestingOfItems js)

/-- The deepest nesting of several fields. -/
def nestingOfFields : List (String × Json) → Nat
  | [] => 0
  | (_, j) :: fs => max j.nesting (nestingOfFields fs)

end

theorem nesting_le_nestingOfItems {j : Json} {js : List Json} (h : j ∈ js) :
    j.nesting ≤ nestingOfItems js := by
  induction js with
  | nil => cases h
  | cons j' js ih =>
    rw [nestingOfItems]
    rcases List.mem_cons.mp h with rfl | h
    · omega
    · have := ih h
      omega

theorem nesting_le_nestingOfFields {f : String × Json} {fs : List (String × Json)} (h : f ∈ fs) :
    f.2.nesting ≤ nestingOfFields fs := by
  induction fs with
  | nil => cases h
  | cons f' fs ih =>
    rw [nestingOfFields]
    rcases List.mem_cons.mp h with rfl | h
    · omega
    · have := ih h
      omega

theorem exists_lt_nesting_of_items {n : Nat} {js : List Json} (h : n < nestingOfItems js) :
    ∃ j ∈ js, n < j.nesting := by
  induction js with
  | nil => cases h
  | cons j js ih =>
    rw [nestingOfItems] at h
    rcases (by omega : n < j.nesting ∨ n < nestingOfItems js) with h | h
    · exact ⟨j, by simp, h⟩
    · obtain ⟨j', hj', hlt⟩ := ih h
      exact ⟨j', by simp [hj'], hlt⟩

theorem exists_lt_nesting_of_fields {n : Nat} {fs : List (String × Json)}
    (h : n < nestingOfFields fs) : ∃ f ∈ fs, n < f.2.nesting := by
  induction fs with
  | nil => cases h
  | cons f fs ih =>
    rw [nestingOfFields] at h
    rcases (by omega : n < f.2.nesting ∨ n < nestingOfFields fs) with h | h
    · exact ⟨f, by simp, h⟩
    · obtain ⟨f', hf', hlt⟩ := ih h
      exact ⟨f', by simp [hf'], hlt⟩

/-- A new field goes behind the others. -/
theorem insertField_of_not_mem {fields : List (String × Json)} {key : String} {j : Json}
    (h : key ∉ fields.map (·.1)) : insertField fields key j = fields ++ [(key, j)] := by
  induction fields with
  | nil => rfl
  | cons f fs ih =>
    rw [List.map_cons, List.mem_cons, not_or] at h
    rw [insertField, if_neg (Ne.symm h.1), ih h.2, List.cons_append]

theorem not_mem_of_nodup_append {k : String} {j : Json} {done fs : List (String × Json)}
    (names : ((done ++ (k, j) :: fs).map (·.1)).Nodup) : k ∉ done.map (·.1) := by
  rw [List.map_append, List.map_cons] at names
  have := (List.nodup_append.mp names).2.2
  exact fun hk => this k hk k (by simp) rfl

namespace Reader

variable {stack : List Frame} {ts : List Token}

/-- The items of an array after the first one. -/
theorem run_itemTokens {js done : List Json}
    (h : ∀ j ∈ js, ∀ done ts, run 0 (.value (.array done :: stack)) (j.tokens ++ ts) =
      run 0 (.afterItem (j :: done) stack) ts) :
    run 0 (.afterItem done stack) (itemTokens js ++ ts) =
      run 0 (complete (.array (done.reverse ++ js)) stack) ts := by
  induction js generalizing done with
  | nil =>
    rw [List.append_nil]
    exact run_cons _ rfl
  | cons j js ih =>
    rw [List.forall_mem_cons] at h
    simp only [itemTokens, List.cons_append, List.append_assoc]
    rw [run_cons (.value (.array done :: stack)) rfl, h.1, ih h.2, List.reverse_cons,
      List.append_assoc, List.singleton_append]

/-- The fields of an object after the first one. -/
theorem run_fieldTokens {fs done : List (String × Json)}
    (names : ((done ++ fs).map (·.1)).Nodup)
    (h : ∀ f ∈ fs, ∀ done key ts, run 0 (.value (.object done key :: stack)) (f.2.tokens ++ ts) =
      run 0 (.afterField (insertField done key f.2) stack) ts) :
    run 0 (.afterField done stack) (fieldTokens fs ++ ts) =
      run 0 (complete (.object (done ++ fs)) stack) ts := by
  induction fs generalizing done with
  | nil =>
    rw [List.append_nil]
    exact run_cons _ rfl
  | cons f fs ih =>
    obtain ⟨k, j⟩ := f
    rw [List.forall_mem_cons] at h
    have hnew : k ∉ done.map (·.1) := not_mem_of_nodup_append names
    have hgo : done ++ (k, j) :: fs = (done ++ [(k, j)]) ++ fs := by simp
    simp only [fieldTokens, List.cons_append, List.append_assoc]
    rw [run_cons (.name done stack) rfl, run_cons (.colon done k stack) rfl,
      run_cons (.value (.object done k :: stack)) rfl, h.1, insertField_of_not_mem hnew,
      hgo, ih (hgo ▸ names) h.2]

/-- The first item of an array is read like any other. -/
theorem run_firstItem (j : Json) :
    run 0 (.firstItem stack) (j.tokens ++ ts) =
      run 0 (.value (.array [] :: stack)) (j.tokens ++ ts) := by
  cases j with
  | array js => cases js <;> rfl
  | object fs => cases fs <;> rfl
  | null | bool | number | string => rfl

/-- The tokens of a value are read as that value. -/
theorem run_tokens {j : Json} (hj : j.Readable) (hdepth : stack.length + j.nesting ≤ maxOpen) :
    run 0 (.value stack) (j.tokens ++ ts) = run 0 (complete j stack) ts := by
  induction hj generalizing stack ts with
  | null | bool | number | string => exact run_cons _ rfl
  | @array items _ ih =>
    rw [nesting] at hdepth
    have hopen : step 0 (.value stack) .openArray = .ok (firstItem stack) := if_pos (by omega)
    -- Each item is read with one more frame around it.
    have hitems : ∀ j ∈ items, ∀ done ts,
        run 0 (.value (.array done :: stack)) (j.tokens ++ ts) =
          run 0 (.afterItem (j :: done) stack) ts := by
      intro j hj done ts
      refine ih j hj ?_
      have := nesting_le_nestingOfItems hj
      simp only [List.length_cons]
      omega
    cases items with
    | nil =>
      simp only [tokens, List.cons_append, List.nil_append]
      rw [run_cons _ hopen, run_cons _ rfl]
    | cons j js =>
      rw [List.forall_mem_cons] at hitems
      simp only [tokens, List.cons_append, List.append_assoc]
      rw [run_cons _ hopen, run_firstItem, hitems.1, run_itemTokens hitems.2]
      rfl
  | @object fields names first _ ih =>
    rw [nesting] at hdepth
    have hopen : step 0 (.value stack) .openObject = .ok (firstName stack) := if_pos (by omega)
    have hfields : ∀ f ∈ fields, ∀ done key ts,
        run 0 (.value (.object done key :: stack)) (f.2.tokens ++ ts) =
          run 0 (.afterField (insertField done key f.2) stack) ts := by
      intro f hf done key ts
      refine ih f hf ?_
      have := nesting_le_nestingOfFields hf
      simp only [List.length_cons]
      omega
    cases fields with
    | nil =>
      simp only [tokens, List.cons_append, List.nil_append]
      rw [run_cons _ hopen, run_cons _ rfl]
    | cons f fs =>
      obtain ⟨k, j⟩ := f
      rw [List.forall_mem_cons] at hfields
      have hname : step 0 (.firstName stack) (.string k) = .ok (.colon [] k stack) := by
        show Except.ok (afterFirstName 0 k stack) = _
        rw [afterFirstName, if_neg fun h => first (k, j) rfl h.1]
      simp only [tokens, List.cons_append, List.append_assoc]
      rw [run_cons _ hopen, run_cons _ hname,
        run_cons (.value (.object [] k :: stack)) rfl, hfields.1]
      exact @run_fieldTokens stack ts fs [(k, j)] names hfields.2

/-! ### Texts that are refused -/

/-- Whether the tokens of a value are either read as that value or refused. -/
def TakesOrRefuses (stack : List Frame) (j : Json) : Prop :=
  ∀ ts, run 0 (.value stack) (j.tokens ++ ts) = run 0 (complete j stack) ts ∨
    ∃ e, run 0 (.value stack) (j.tokens ++ ts) = .error e

/-- The items of an array, or a refusal of one of them. -/
theorem run_itemTokens_or {js done : List Json}
    (h : ∀ j ∈ js, ∀ done, TakesOrRefuses (.array done :: stack) j) :
    run 0 (.afterItem done stack) (itemTokens js ++ ts) =
        run 0 (complete (.array (done.reverse ++ js)) stack) ts ∨
      ∃ e, run 0 (.afterItem done stack) (itemTokens js ++ ts) = .error e := by
  induction js generalizing done with
  | nil => exact .inl (run_itemTokens nofun)
  | cons j js ih =>
    rw [List.forall_mem_cons] at h
    simp only [itemTokens, List.cons_append, List.append_assoc]
    rw [run_cons (.value (.array done :: stack)) rfl]
    rcases h.1 done (itemTokens js ++ ts) with htake | hrefuse
    · have := @ih (j :: done) h.2
      rw [List.reverse_cons, List.append_assoc, List.singleton_append] at this
      rw [htake]
      exact this
    · exact .inr hrefuse

/-- The fields of an object, or a refusal of one of them. -/
theorem run_fieldTokens_or {fs done : List (String × Json)}
    (names : ((done ++ fs).map (·.1)).Nodup)
    (h : ∀ f ∈ fs, ∀ done, TakesOrRefuses (.object done f.1 :: stack) f.2) :
    run 0 (.afterField done stack) (fieldTokens fs ++ ts) =
        run 0 (complete (.object (done ++ fs)) stack) ts ∨
      ∃ e, run 0 (.afterField done stack) (fieldTokens fs ++ ts) = .error e := by
  induction fs generalizing done with
  | nil => exact .inl (run_fieldTokens names nofun)
  | cons f fs ih =>
    obtain ⟨k, j⟩ := f
    rw [List.forall_mem_cons] at h
    have hnew : k ∉ done.map (·.1) := not_mem_of_nodup_append names
    have hgo : done ++ (k, j) :: fs = (done ++ [(k, j)]) ++ fs := by simp
    simp only [fieldTokens, List.cons_append, List.append_assoc]
    rw [run_cons (.name done stack) rfl, run_cons (.colon done k stack) rfl,
      run_cons (.value (.object done k :: stack)) rfl]
    rcases h.1 done (fieldTokens fs ++ ts) with htake | hrefuse
    · have := @ih (done ++ [(k, j)]) (hgo ▸ names) h.2
      rw [← hgo] at this
      simp only at htake
      rw [htake, complete, insertField_of_not_mem hnew]
      exact this
    · exact .inr hrefuse

/-- Whether a field, where it comes first, spells out a number. -/
def spellsNumber (f : String × Json) : Bool :=
  f.1 == numberName && ((f.2.asString?.bind fun s => Token.wholeNumber? s.toList).isSome)

/-- The value of a reserved name that spells out no number is refused. -/
theorem run_numberText {j : Json} (h : spellsNumber (numberName, j) = false) :
    ∃ e, run 0 (.numberText stack) (j.tokens ++ ts) = .error e := by
  cases j with
  | string s =>
    have hnone : Token.wholeNumber? s.toList = none := by
      simpa [spellsNumber, asString?] using h
    refine ⟨.malformed, ?_⟩
    simp only [tokens, List.cons_append, List.nil_append, run, step, hnone]
  | array js => cases js <;> exact ⟨.malformed, rfl⟩
  | object fs => cases fs <;> exact ⟨.malformed, rfl⟩
  | null | bool | number => exact ⟨.malformed, rfl⟩

/-- The tokens of a value in which nothing spells out a number are read as that value, or are
refused. -/
theorem takesOrRefuses {j : Json} (hj : j.Spelled fun f => spellsNumber f = false) :
    TakesOrRefuses stack j := by
  induction hj generalizing stack with
  | null | bool | number | string => exact fun ts => .inl (run_cons _ rfl)
  | @array items _ ih =>
    intro ts
    -- Opening one container too many is refused, whatever is inside.
    by_cases hdepth : stack.length < maxOpen
    · have hopen : step 0 (.value stack) .openArray = .ok (firstItem stack) := if_pos hdepth
      cases items with
      | nil =>
        left
        simp only [tokens, List.cons_append, List.nil_append]
        rw [run_cons _ hopen, run_cons _ rfl]
      | cons j js =>
        rw [List.forall_mem_cons] at ih
        simp only [tokens, List.cons_append, List.append_assoc]
        rw [run_cons _ hopen, run_firstItem]
        rcases @ih.1 (.array [] :: stack) (itemTokens js ++ ts) with htake | hrefuse
        · rw [htake]
          exact run_itemTokens_or fun j hj _ => ih.2 j hj
        · exact .inr hrefuse
    · have hclosed : step 0 (.value stack) .openArray = .error .tooDeep := if_neg hdepth
      right
      cases items <;> exact ⟨.tooDeep, by simp only [tokens, List.cons_append, run, hclosed]⟩
  | @object fields names first _ ih =>
    intro ts
    by_cases hdepth : stack.length < maxOpen
    · have hopen : step 0 (.value stack) .openObject = .ok (firstName stack) := if_pos hdepth
      cases fields with
      | nil =>
        left
        simp only [tokens, List.cons_append, List.nil_append]
        rw [run_cons _ hopen, run_cons _ rfl]
      | cons f fs =>
        obtain ⟨k, j⟩ := f
        rw [List.forall_mem_cons] at ih
        have hspells := first (k, j) rfl
        have hname : step 0 (.firstName stack) (.string k) = .ok (afterFirstName 0 k stack) := rfl
        simp only [tokens, List.cons_append, List.append_assoc]
        rw [run_cons _ hopen, run_cons _ hname, afterFirstName]
        -- Under the reserved name of numbers stands a text that is no number.
        by_cases hreserved : k = numberName
        · subst hreserved
          rw [if_pos ⟨rfl, Nat.zero_le _⟩, run_cons (.numberText stack) rfl]
          exact .inr (run_numberText hspells)
        · rw [if_neg fun h => hreserved h.1, run_cons (.value (.object [] k :: stack)) rfl]
          rcases @ih.1 (.object [] k :: stack) (fieldTokens fs ++ ts) with htake | hrefuse
          · simp only at htake
            rw [htake]
            exact @run_fieldTokens_or stack ts fs [(k, j)] names fun f hf _ => ih.2 f hf
          · exact .inr hrefuse
    · have hclosed : step 0 (.value stack) .openObject = .error .tooDeep := if_neg hdepth
      right
      cases fields <;> exact ⟨.tooDeep, by simp only [tokens, List.cons_append, run, hclosed]⟩

/-- Whether the tokens of a value are refused, whatever follows them. -/
def Refuses (stack : List Frame) (j : Json) : Prop :=
  ∀ ts, ∃ e, run 0 (.value stack) (j.tokens ++ ts) = .error e

/-- Items one of which is refused. -/
theorem run_itemTokens_refused {j : Json} {js done : List Json}
    (h : ∀ j ∈ js, ∀ done, TakesOrRefuses (.array done :: stack) j) (hj : j ∈ js)
    (hrefused : ∀ done, Refuses (.array done :: stack) j) :
    ∃ e, run 0 (.afterItem done stack) (itemTokens js ++ ts) = .error e := by
  induction js generalizing done with
  | nil => cases hj
  | cons j' js ih =>
    rw [List.forall_mem_cons] at h
    simp only [itemTokens, List.cons_append, List.append_assoc]
    rw [run_cons (.value (.array done :: stack)) rfl]
    rcases List.mem_cons.mp hj with rfl | hj
    · exact hrefused done _
    · rcases h.1 done (itemTokens js ++ ts) with htake | hrefuse
      · rw [htake]
        exact ih h.2 hj
      · exact hrefuse

/-- Fields the value of one of which is refused. -/
theorem run_fieldTokens_refused {f : String × Json} {fs done : List (String × Json)}
    (h : ∀ f ∈ fs, ∀ done, TakesOrRefuses (.object done f.1 :: stack) f.2) (hf : f ∈ fs)
    (hrefused : ∀ done, Refuses (.object done f.1 :: stack) f.2) :
    ∃ e, run 0 (.afterField done stack) (fieldTokens fs ++ ts) = .error e := by
  induction fs generalizing done with
  | nil => cases hf
  | cons f' fs ih =>
    obtain ⟨k, j⟩ := f'
    rw [List.forall_mem_cons] at h
    simp only [fieldTokens, List.cons_append, List.append_assoc]
    rw [run_cons (.name done stack) rfl, run_cons (.colon done k stack) rfl,
      run_cons (.value (.object done k :: stack)) rfl]
    rcases List.mem_cons.mp hf with rfl | hf
    · exact hrefused done _
    · rcases h.1 done (fieldTokens fs ++ ts) with htake | hrefuse
      · simp only at htake
        rw [htake]
        exact ih h.2 hf
      · exact hrefuse

/-- The tokens of a value that nests too deep are refused. -/
theorem refuses_of_nesting {j : Json} (hj : j.Spelled fun f => spellsNumber f = false)
    (hstack : stack.length ≤ maxOpen) (hdepth : maxOpen < stack.length + j.nesting) :
    Refuses stack j := by
  induction hj generalizing stack with
  | null | bool | number | string =>
    rw [nesting] at hdepth
    omega
  | @array items hitems ih =>
    intro ts
    rw [nesting] at hdepth
    by_cases hopen : stack.length < maxOpen
    · have hstep : step 0 (.value stack) .openArray = .ok (firstItem stack) := if_pos hopen
      obtain ⟨j, hj, hdeep⟩ :=
        @exists_lt_nesting_of_items (maxOpen - (stack.length + 1)) items (by omega)
      -- The item that is too deep is refused inside one more frame, like those before it or not.
      obtain ⟨e, he⟩ := @run_itemTokens_refused stack ts j items []
        (fun j hj done => takesOrRefuses (hitems j hj)) hj
        (fun done => ih j hj hopen (by simp only [List.length_cons]; omega))
      cases items with
      | nil => cases hj
      | cons j' js =>
        refine ⟨e, ?_⟩
        simp only [itemTokens, tokens, List.cons_append, List.append_assoc] at he ⊢
        rw [run_cons (.value (.array [] :: stack)) rfl] at he
        rw [run_cons _ hstep, run_firstItem, he]
    · have hclosed : step 0 (.value stack) .openArray = .error .tooDeep := if_neg hopen
      cases items <;> exact ⟨.tooDeep, by simp only [tokens, List.cons_append, run, hclosed]⟩
  | @object fields names first hfields ih =>
    intro ts
    rw [nesting] at hdepth
    by_cases hopen : stack.length < maxOpen
    · have hstep : step 0 (.value stack) .openObject = .ok (firstName stack) := if_pos hopen
      obtain ⟨f, hf, hdeep⟩ :=
        @exists_lt_nesting_of_fields (maxOpen - (stack.length + 1)) fields (by omega)
      obtain ⟨e, he⟩ := @run_fieldTokens_refused stack ts f fields []
        (fun f hf done => takesOrRefuses (hfields f hf)) hf
        (fun done => ih f hf hopen (by simp only [List.length_cons]; omega))
      cases fields with
      | nil => cases hf
      | cons f' fs =>
        obtain ⟨k, j⟩ := f'
        have hspells := first (k, j) rfl
        have hname : step 0 (.firstName stack) (.string k) = .ok (afterFirstName 0 k stack) := rfl
        simp only [fieldTokens, tokens, List.cons_append, List.append_assoc] at he ⊢
        rw [run_cons (.name [] stack) rfl, run_cons (.colon [] k stack) rfl,
          run_cons (.value (.object [] k :: stack)) rfl] at he
        rw [run_cons _ hstep, run_cons _ hname, afterFirstName]
        by_cases hreserved : k = numberName
        · subst hreserved
          rw [if_pos ⟨rfl, Nat.zero_le _⟩, run_cons (.numberText stack) rfl]
          exact run_numberText hspells
        · rw [if_neg fun h => hreserved h.1, run_cons (.value (.object [] k :: stack)) rfl]
          exact ⟨e, he⟩
    · have hclosed : step 0 (.value stack) .openObject = .error .tooDeep := if_neg hopen
      cases fields <;> exact ⟨.tooDeep, by simp only [tokens, List.cons_append, run, hclosed]⟩

/-- Tokens of an object whose first field has the reserved name but spells out no number are never
part of a whole text: they are refused, or there are tokens after a value before them. -/
theorem run_of_isInfix {j : Json} {ts : List Token} (h : spellsNumber (numberName, j) = false)
    (hts : [.openObject, .string numberName, .colon] ++ j.tokens <:+: ts) (r : Reader) :
    (∃ e, run 0 r ts = .error e) ∨ ∃ k t rest, run 0 r ts = .ok (k, t :: rest) := by
  obtain ⟨before, after, rfl⟩ := hts
  simp only [List.cons_append, List.nil_append, List.append_assoc]
  induction before generalizing r with
  | nil =>
    have hstart (stack : List Frame) : ∃ e, run 0 (.firstName stack)
        (.string numberName :: .colon :: (j.tokens ++ after)) = .error e := by
      have hname : step 0 (.firstName stack) (.string numberName) = .ok (numberColon stack) :=
        congrArg Except.ok (if_pos ⟨rfl, Nat.zero_le _⟩)
      rw [run_cons _ hname, run_cons (.numberText stack) rfl]
      exact run_numberText h
    cases r with
    | finished k => exact .inr ⟨k, _, _, rfl⟩
    | value stack | firstItem stack =>
      left
      simp only [List.nil_append, run, step, start]
      split
      · rename_i r hr
        split at hr <;> cases hr
        exact hstart _
      · exact ⟨_, rfl⟩
    | _ => exact .inl ⟨.malformed, rfl⟩
  | cons t before ih =>
    cases r with
    | finished k => exact .inr ⟨k, _, _, rfl⟩
    | _ =>
      simp only [List.cons_append, run]
      split
      · exact ih _
      · exact .inl ⟨_, rfl⟩

end Reader

/-- A value that holds an object whose first field has the reserved name but spells out no
number. -/
inductive Refused : Json → Prop
  | here {j : Json} {fs : List (String × Json)}
      (h : Reader.spellsNumber (numberName, j) = false) : Refused (object ((numberName, j) :: fs))
  | item {j : Json} {js : List Json} (hj : j ∈ js) (h : Refused j) : Refused (array js)
  | field {f : String × Json} {fs : List (String × Json)} (hf : f ∈ fs) (h : Refused f.2) :
      Refused (object fs)

theorem tokens_isInfix_itemTokens {j : Json} {js : List Json} (h : j ∈ js) :
    j.tokens <:+: itemTokens js := by
  induction js with
  | nil => cases h
  | cons k js ih =>
    rw [itemTokens]
    rcases List.mem_cons.mp h with rfl | h
    · exact (List.prefix_append _ _).isInfix.trans (List.suffix_cons _ _).isInfix
    · exact (ih h).trans ((List.suffix_append _ _).trans (List.suffix_cons _ _)).isInfix

theorem tokens_isInfix_fieldTokens {f : String × Json} {fs : List (String × Json)} (h : f ∈ fs) :
    f.2.tokens <:+: fieldTokens fs := by
  induction fs with
  | nil => cases h
  | cons g fs ih =>
    obtain ⟨k, j⟩ := g
    rw [fieldTokens]
    rcases List.mem_cons.mp h with rfl | h
    · exact ⟨[.comma, .string k, .colon], fieldTokens fs, by simp⟩
    · obtain ⟨before, after, heq⟩ := ih h
      exact ⟨.comma :: .string k :: .colon :: (j.tokens ++ before), after, by simp [← heq]⟩

/-- Its tokens hold those of such a field. -/
theorem Refused.exists_isInfix {j : Json} (h : j.Refused) :
    ∃ k, Reader.spellsNumber (numberName, k) = false ∧
      [.openObject, .string numberName, .colon] ++ k.tokens <:+: j.tokens := by
  induction h with
  | @here j fs h => exact ⟨j, h, [], fieldTokens fs, by simp [tokens]⟩
  | @item j js hj _ ih =>
    obtain ⟨k, hk, hin⟩ := ih
    refine ⟨k, hk, hin.trans ?_⟩
    -- Apart from its first token, an array reads like the items that follow a comma.
    obtain _ | ⟨j', js⟩ := js
    · cases hj
    rw [tokens]
    rcases List.mem_cons.mp hj with rfl | hj
    · exact ⟨[.openArray], itemTokens js, by simp⟩
    · obtain ⟨before, after, heq⟩ := tokens_isInfix_itemTokens hj
      exact ⟨.openArray :: (j'.tokens ++ before), after, by simp [← heq]⟩
  | @field f fs hf _ ih =>
    obtain ⟨k, hk, hin⟩ := ih
    refine ⟨k, hk, hin.trans ?_⟩
    obtain _ | ⟨⟨name, j'⟩, fs⟩ := fs
    · cases hf
    rw [tokens]
    rcases List.mem_cons.mp hf with rfl | hf
    · exact ⟨[.openObject, .string name, .colon], fieldTokens fs, by simp⟩
    · obtain ⟨before, after, heq⟩ := tokens_isInfix_fieldTokens hf
      exact ⟨.openObject :: .string name :: .colon :: (j'.tokens ++ before), after, by
        simp [← heq]⟩

/-! ### Whole texts -/

/-- A value is read back from its characters. -/
theorem read_chars {j : Json} (hj : j.Readable) (hdepth : j.nesting ≤ maxOpen) :
    read j.chars = .ok j := by
  have hrun := @Reader.run_tokens [] [] j hj (by simpa using hdepth)
  rw [List.append_nil] at hrun
  rw [read, Token.ofText_chars hj, hrun]
  rfl

/-- What is read from the characters of a value in which nothing spells out a number is that
value, if anything. -/
theorem eq_of_read_chars {j j' : Json} (hj : j.Spelled fun f => Reader.spellsNumber f = false)
    (h : read j.chars = .ok j') : j' = j := by
  have hrun := @Reader.takesOrRefuses [] j hj []
  rw [List.append_nil] at hrun
  rw [read, Token.ofText_chars hj] at h
  rcases hrun with htake | ⟨e, hrefuse⟩
  · rw [htake] at h
    exact (Except.ok.inj h).symm
  · rw [hrefuse] at h
    cases h

/-- Nothing is read from the characters of a value that is refused. -/
theorem Refused.read_ne_ok {P : String × Json → Prop} {j j' : Json} (h : j.Refused)
    (hj : j.Spelled P) : read j.chars ≠ .ok j' := by
  obtain ⟨k, hk, hin⟩ := h.exists_isInfix
  rw [read, Token.ofText_chars hj]
  rcases Reader.run_of_isInfix hk hin (.value []) with ⟨e, he⟩ | ⟨_, _, _, hrest⟩
  · simp [he]
  · simp [hrest]

/-- Nothing in a value that is not refused has the reserved name where it would be misused. -/
theorem readable_of_not_refused {j : Json} (hj : j.Spelled fun f => Reader.spellsNumber f = false)
    (h : ¬ j.Refused) : j.Readable := by
  induction hj with
  | null => exact .null
  | bool b => exact .bool b
  | number hnumber => exact .number hnumber
  | string s => exact .string s
  | array _ ih => exact .array fun j hj => ih j hj fun hrefused => h (.item hj hrefused)
  | @object fields names first _ ih =>
    refine .object names (fun f hf hname => ?_) fun f hf =>
      ih f hf fun hrefused => h (.field hf hrefused)
    obtain ⟨rest, rfl⟩ := List.head?_eq_some_iff.mp hf
    obtain ⟨name, j⟩ := f
    obtain rfl : name = numberName := hname
    exact h (.here (first _ hf))

/-- The text of a value in which nothing spells out a number is read if it does not nest too deep
and no reserved name is misused in it, and only then. -/
theorem exists_read_chars_iff {j : Json} (hj : j.Spelled fun f => Reader.spellsNumber f = false) :
    (∃ k, read j.chars = .ok k) ↔ j.nesting ≤ maxOpen ∧ ¬ j.Refused := by
  constructor
  · rintro ⟨k, hk⟩
    refine ⟨Nat.not_lt.mp fun hdeep => ?_, fun hrefused => hrefused.read_ne_ok hj hk⟩
    obtain ⟨e, he⟩ :=
      @Reader.refuses_of_nesting [] j hj (Nat.zero_le _) (by simpa using hdeep) []
    rw [List.append_nil] at he
    rw [read, Token.ofText_chars hj, he] at hk
    cases hk
  · rintro ⟨hnesting, hrefused⟩
    exact ⟨j, read_chars (readable_of_not_refused hj hrefused) hnesting⟩

@[simp] theorem textOfBytes_encode (cs : List Char) : textOfBytes (Text.Utf8.encode cs) = cs := by
  rw [textOfBytes, Text.Utf8.split_encode]

/-- A value is read back from the bytes of its text. -/
theorem readBytes_compact {j : Json} (hj : j.Readable) (hdepth : j.nesting ≤ maxOpen) :
    readBytes (Text.Utf8.ofString j.compact) = .ok j := by
  rw [readBytes, Text.Utf8.ofString, textOfBytes_encode, compact, String.toList_ofList,
    read_chars hj hdepth]

/-- What is read from the bytes of a text is the value that was written, if a number is spelled out
in it only where it is refused. -/
theorem eq_of_readBytes_compact {j k : Json}
    (hj : j.Spelled fun f => Reader.spellsNumber f = true → j.Refused)
    (hk : readBytes (Text.Utf8.ofString j.compact) = .ok k) : k = j := by
  rw [readBytes, Text.Utf8.ofString, textOfBytes_encode, compact, String.toList_ofList] at hk
  by_cases hrefused : j.Refused
  · exact absurd hk (hrefused.read_ne_ok hj)
  · refine eq_of_read_chars (hj.imp fun f hf => ?_) hk
    exact Bool.eq_false_iff.mpr fun hspells => hrefused (hf hspells)

end TypedData.Json
