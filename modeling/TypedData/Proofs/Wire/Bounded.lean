import TypedData.Proofs.Json.Documented
import TypedData.Proofs.Value.Nesting
import TypedData.Proofs.Wire.Accepted

/-!
# Bounds on the values of JSON documents

Whatever type a JSON document is validated under, the value nests no deeper than the document, and
its numbers are within the limit of validation.

## Main definitions

* `Value.Bounded` — values with a bound on their nesting and on their numbers

## Main results

* `Native.bounded_validateAt` — a document becomes a value that nests no deeper
-/

namespace TypedData

namespace Value

variable {limit n : Nat} {ty : Ty} {v w : Value} {vs : List Value} {es : Entries Value}

/-- A value that nests to a depth at most, and whose numbers are within a limit. -/
structure Bounded (limit n : Nat) (v : Value) : Prop where
  nesting : v.nesting ≤ n
  numbers : ∀ w, v.Contains w → ∀ k, w.asNumber? = some k → k.withinExponent limit

/-- A value that is no container is bounded if its number is. -/
theorem bounded_of_nesting_eq_zero (hzero : v.nesting = 0)
    (hnumber : ∀ k, v.asNumber? = some k → k.withinExponent limit) : v.Bounded limit n where
  nesting := hzero ▸ Nat.zero_le n
  numbers := forall_contains_iff.mpr
    ⟨hnumber, fun w hw => absurd (nesting_lt_of_mem_parts hw) (by simp [hzero])⟩

theorem Bounded.mono {k : Nat} (h : v.Bounded limit n) (hle : n ≤ k) : v.Bounded limit k :=
  ⟨h.nesting.trans hle, h.numbers⟩

theorem Bounded.of_sameData (h : v.Bounded limit n) (hdata : SameData w v) :
    w.Bounded limit n := by
  refine ⟨?_, forall_numbers_of_sameData h.numbers hdata⟩
  obtain ⟨own, content, m⟩ := w
  obtain ⟨rfl, rfl⟩ := hdata
  obtain ⟨own, content, m⟩ := v
  cases content <;> exact h.nesting

/-- A container is bounded one deeper than what is in it. -/
theorem bounded_ofContent {content : Content Value}
    (hnumber : (ofContent ty content).asNumber? = none)
    (h : ∀ w ∈ parts content, w.Bounded limit n) :
    (ofContent ty content).Bounded limit (n + 1) where
  nesting := nesting_le_of_parts fun w hw => (h w hw).nesting
  numbers := forall_numbers_of_parts hnumber fun w hw => (h w hw).numbers

theorem bounded_collapsed : (collapsed ty vs).Bounded limit n :=
  bounded_of_nesting_eq_zero rfl fun k hk => by cases hk

theorem bounded_sequence (h : ∀ v ∈ vs, v.Bounded limit n) :
    (sequence ty vs).Bounded limit (n + 1) := by
  unfold sequence
  split
  · split
    · exact bounded_collapsed
    · exact bounded_ofContent rfl h
  · split
    · exact bounded_collapsed
    · refine bounded_ofContent rfl fun w hw => ?_
      obtain ⟨v, hv, hdata⟩ := exists_of_mem_canonicalSet hw
      exact (h v hv).of_sameData hdata
  · exact bounded_ofContent rfl h

theorem bounded_mapping (h : ∀ e ∈ es, e.2.Bounded limit n) :
    (mapping ty es).Bounded limit (n + 1) := by
  rw [mapping]
  split
  · exact bounded_collapsed
  · exact bounded_ofContent rfl (List.forall_mem_map.mpr h)

end Value

namespace Native

variable {limits : Limits} {depth n : Nat} {t : Ty} {v : Value}

theorem bounded_of_validateScalar {raw : Native} (h : validateScalar limits t raw = .ok v) :
    v.Bounded limits.maxNumberExponent n := by
  cases scalar_of_validateScalar h with
  | bool | string | capsule => exact Value.bounded_of_nesting_eq_zero rfl fun k hk => by cases hk
  | number hn =>
    refine Value.bounded_of_nesting_eq_zero rfl fun k hk => ?_
    obtain rfl := Option.some.inj hk
    exact within_of_toNumber hn

theorem exists_of_items?_ofJson {j : Json} {items : List Native}
    (h : (ofJson j).items? = some items) : ∃ js, j = .array js ∧ items = ofJsonItems js := by
  cases j with
  | array js => exact ⟨js, rfl, (Option.some.inj h).symm⟩
  | number s => obtain ⟨m, hm⟩ | ⟨f, hf⟩ := exists_ofJson_number s <;> simp_all [items?]
  | _ => cases h

theorem exists_of_ofJson_eq_map {j : Json} {entries : List (Native × Native)}
    (h : ofJson j = .map entries) : ∃ fs, j = .object fs ∧ entries = ofJsonFields fs := by
  cases j with
  | object fs => exact ⟨fs, rfl, (Native.map.inj h).symm⟩
  | number s => obtain ⟨m, hm⟩ | ⟨f, hf⟩ := exists_ofJson_number s <;> simp_all
  | _ => cases h

/-- A step of validation makes of a document a value that nests no deeper, with numbers within the
limit, if it does so of what is directly inside. -/
theorem ValidationStep.bounded {j : Json} (hstep : ValidationStep limits depth t (ofJson j) v)
    (ht : t.WellFormed)
    (inside : ∀ k ∈ j.children, ∀ u w, u.WellFormed →
      validateAt limits (depth + 1) u (ofJson k) = .ok w →
        w.Bounded limits.maxNumberExponent k.nesting) :
    v.Bounded limits.maxNumberExponent j.nesting := by
  have hvalues := values_ofJson j
  have hspec {decided : Ty} (h : decidedType limits depth t (ofJson j) = .ok decided) :=
    (decidedType_spec ht (by simp [hvalues]) h).1
  -- What becomes of the fields of an object, each under a type.
  have hfield {fs : List (String × Json)} {typeOf : Native → Ty} {m : Member} {w : Value}
      (hj : j = .object fs)
      (hm : m ∈ validateEntries limits (depth + 1) typeOf (ofJsonFields fs))
      (htype : (typeOf m.1).WellFormed) (hw : m.2 = .ok w) :
      w.Bounded limits.maxNumberExponent (Json.nestingOfFields fs) := by
    subst hj
    obtain ⟨e, he, rfl⟩ := exists_of_mem_validateEntries hm
    obtain ⟨f, hf, rfl⟩ := exists_of_mem_ofJsonFields he
    exact (inside f.2 (List.mem_map_of_mem hf) _ w htype hw).mono
      (Json.nesting_le_nestingOfFields hf)
  generalize hraw : ofJson j = raw at hstep hvalues hspec
  cases hstep with
  | absent => exact Value.bounded_of_nesting_eq_zero rfl fun k hk => by cases hk
  | value => cases hvalues
  | scalar _ hw => exact bounded_of_validateScalar hw
  | items hitems hdecided htypes hvs =>
    obtain ⟨js, rfl, rfl⟩ := exists_of_items?_ofJson (hraw ▸ hitems)
    obtain ⟨hlength, htypes, -⟩ :=
      Value.fills_of_slots? (hspec hdecided) (slots?_of_itemTypes htypes)
    refine Value.bounded_sequence fun v hv => ?_
    obtain ⟨u, hu, c, hc, hv⟩ := (forall₂_validateItems hlength hvs).exists_of_mem_left hv
    obtain ⟨k, hk, rfl⟩ := exists_of_mem_ofJsonItems hc
    exact (inside k hk u v (htypes u hu) hv).mono (Json.nesting_le_nestingOfItems hk)
  | map hdecided hes =>
    obtain ⟨fs, rfl, rfl⟩ := exists_of_ofJson_eq_map hraw
    refine Value.bounded_mapping fun e he => ?_
    obtain ⟨-, -, m, hm, hok⟩ := (gatherMap_spec hes).2 e (Value.mem_sortEntries.mp he)
    cases hspec hdecided with
    | map hu => exact hfield rfl hm hu hok
  | object hdecided hw =>
    obtain ⟨fs, rfl, rfl⟩ := exists_of_ofJson_eq_map hraw
    have hattrs := Attr.WellFormed.of_object (hspec hdecided)
    obtain ⟨es, rfl, hes⟩ := exists_of_objectOf
      (P := fun _ v => v.Bounded limits.maxNumberExponent (Json.nestingOfFields fs))
      hattrs.names hw (fun a _ => Value.bounded_of_nesting_eq_zero rfl fun k hk => by cases hk)
      fun m hm a ha htype v hv => hfield rfl hm (htype ▸ hattrs.types a ha) hv
    refine Value.bounded_mapping fun e he => ?_
    obtain ⟨a, -, -, hv⟩ := hes e (Value.mem_sortEntries.mp he)
    exact hv

/-- A document becomes a value that nests no deeper, with numbers within the limit. -/
theorem bounded_validateAt {j : Json} (ht : t.WellFormed)
    (h : validateAt limits depth t (ofJson j) = .ok v) :
    v.Bounded limits.maxNumberExponent j.nesting := by
  induction j using Json.induction_children generalizing t depth v with
  | _ j ih =>
    exact (validationStep_of_validateAt h).bounded ht fun k hk u w hu hw => ih k hk hu hw

end Native

end TypedData
