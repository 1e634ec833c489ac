import TypedData.Proofs.Json.Validation
import TypedData.Proofs.Observations

/-!
# The type of several documents

The type that is found for several documents is one that each of them is assignable to by its own
type. That does not make every document valid under it: an object of a wider type has attributes
that the type does not declare, which are refused in a document. Nothing else is.

## Main results

* `Observations.usableAs_solveJson` — the type of each document is assignable to that of all
* `Json.validate_solveJson_iff_declared` — which documents validate under the type of all
-/

namespace TypedData

namespace Observations

variable {documents : List Json} {j : Json} {t : Ty}

/-! ### What was seen of documents -/

/-- Nothing is seen but the types of the documents. -/
theorem exists_of_mem_seen_ofJson (h : t ∈ (empty.observeAll (documents.map Native.ofJson)).seen) :
    ∃ j ∈ documents, t = typeSeen (Native.ofJson j) := by
  obtain ⟨⟨⟩⟩ | ⟨raw, hraw, rfl⟩ := exists_of_mem_seen h
  obtain ⟨j, hj, rfl⟩ := List.mem_map.mp hraw
  exact ⟨j, hj, rfl⟩

theorem wellFormed_of_mem_seen_ofJson
    (h : t ∈ (empty.observeAll (documents.map Native.ofJson)).seen) : t.WellFormed := by
  obtain ⟨j, -, rfl⟩ := exists_of_mem_seen_ofJson h
  exact wellFormed_typeSeen_ofJson j

/-! ### The type of all -/

theorem wellFormed_solveJson (documents : List Json) : (solveJson documents).WellFormed := by
  rw [solveJson_eq_solve]
  exact Ty.wellFormed_unify fun _ => wellFormed_of_mem_seen_ofJson

/-- The type of each document is assignable to the type that is found for all. -/
theorem usableAs_solveJson (hj : j ∈ documents) :
    (typeSeen (Native.ofJson j)).usableAs (solveJson documents) := by
  obtain ⟨t, ht, hsame⟩ := @exists_seen_same empty (documents.map Native.ofJson) _
    (List.forall_mem_map.mpr fun j _ => wellFormed_typeSeen_ofJson j) (List.mem_map_of_mem hj)
  have hwell := wellFormed_typeSeen_ofJson j
  have htwell := wellFormed_of_mem_seen_ofJson ht
  rw [solveJson_eq_solve]
  exact hwell.usableAs_of_same htwell (htwell.same_symm hwell hsame)
    (Ty.usableAs_unify (fun _ => wellFormed_of_mem_seen_ofJson) ht)

end Observations

namespace Json

open Observations

variable {documents : List Json} {j : Json}

/-- Nothing may be left out in the type that is found for admissible documents. -/
theorem strict_solveJson
    (hdocuments : ∀ j ∈ documents, j.Admissible Limits.default.maxNumberExponent ∧
      j.nesting ≤ Limits.default.maxDepth) : (solveJson documents).Strict := by
  rw [solveJson_eq_solve]
  refine Ty.strict_unify fun t ht => ?_
  obtain ⟨j, hj, rfl⟩ := exists_of_mem_seen_ofJson ht
  obtain ⟨hadmissible, hnesting⟩ := hdocuments j hj
  rw [typeSeen, Native.infer, inferAt_ofJson (by omega)]
  exact hadmissible.strict_typeOf

/-- Validation under that type tells whether every attribute of a document is declared there. -/
theorem verdict_solveJson
    (hdocuments : ∀ j ∈ documents, j.Admissible Limits.default.maxNumberExponent ∧
      j.nesting ≤ Limits.default.maxDepth) (hj : j ∈ documents) :
    Verdict (solveJson documents) j
      ((Native.ofJson j).validate .default (solveJson documents)) := by
  obtain ⟨hadmissible, hnesting⟩ := hdocuments j hj
  have hmeets : Meets (solveJson documents) j := by
    have huse := usableAs_solveJson hj
    rw [typeSeen, Native.infer, inferAt_ofJson (by omega)] at huse
    exact hadmissible.meets_typeOf.of_usableAs huse (strict_solveJson hdocuments)
  exact verdict_validateAt (by decide) hadmissible hmeets (by omega)

/-- Under the type that is found for several documents, each of them is valid exactly if every
attribute in it is declared there, and the only other outcome is that one is not supported. -/
theorem validate_solveJson_iff_declared
    (hdocuments : ∀ j ∈ documents, j.Admissible Limits.default.maxNumberExponent ∧
      j.nesting ≤ Limits.default.maxDepth) (hj : j ∈ documents) :
    ((Native.ofJson j).infer Limits.default.maxDepth).usableAs (solveJson documents) ∧
    (declared (solveJson documents) j →
      ∃ v, (Native.ofJson j).validate .default (solveJson documents) = .ok v ∧
        v.InSlot (solveJson documents) ∧ v.isUnknown = false ∧ v.isNull = j.isNull) ∧
    (declared (solveJson documents) j = false → ∃ path name,
      (Native.ofJson j).validate .default (solveJson documents) =
        .error ⟨path, .extraneousAttribute name⟩) := by
  have hverdict := verdict_solveJson hdocuments hj
  refine ⟨usableAs_solveJson hj, fun hdeclared => ?_, hverdict.exists_error⟩
  obtain ⟨v, hv, hknown, hkind⟩ := hverdict.exists_ok hdeclared
  refine ⟨v, hv, (Native.wellFormed_validateAt (wellFormed_solveJson documents)
    (by simp [Native.values_ofJson]) hv).2, hknown, ?_⟩
  split at hkind
  · rename_i hnull
    rw [hkind, hnull]
    rfl
  · rename_i hnull
    rw [hkind.1, Bool.eq_false_iff.mpr hnull]

/-- Documents with the same attributes are valid, even where these differ in type. -/
theorem validate_solveJson_alike :
    let documents := [object [("x", number "1")], object [("x", string "a")]]
    (solveJson documents).same (.object [⟨"x", .dynamic, false⟩]) ∧
      ∀ j ∈ documents, ∃ v, (Native.ofJson j).validate .default (solveJson documents) = .ok v ∧
        v.isUnknown = false ∧ v.isNull = false := by
  intro documents
  have hdocuments : ∀ j ∈ documents, j.Admissible Limits.default.maxNumberExponent ∧
      j.nesting ≤ Limits.default.maxDepth := by
    simp only [documents, List.forall_mem_cons]
    refine ⟨⟨.object (by decide +kernel) ?_, by decide⟩,
      ⟨.object (by decide +kernel) ?_, by decide⟩, List.forall_mem_nil _⟩ <;>
      simp only [List.forall_mem_singleton]
    · exact .number (by rfl : Decimal.ofText "1" _ = .ok ⟨1, 0⟩)
    · exact .string
  have hdeclared : ∀ j ∈ documents, declared (solveJson documents) j = true ∧ j.isNull = false := by
    decide +kernel
  refine ⟨by decide +kernel, fun j hj => ?_⟩
  obtain ⟨hdeclared, hnull⟩ := hdeclared j hj
  obtain ⟨v, hv, -, hknown, hkind⟩ :=
    (validate_solveJson_iff_declared hdocuments hj).2.1 hdeclared
  exact ⟨v, hv, hknown, hkind.trans hnull⟩

/-- Not every document is valid under the type that is found for several: an attribute that is
missing in another is not declared. -/
theorem validate_solveJson_unlike :
    ¬ ∀ documents : List Json, (∀ j ∈ documents,
      j.Admissible Limits.default.maxNumberExponent ∧ j.nesting ≤ Limits.default.maxDepth) →
        ∀ j ∈ documents, ∃ v,
          (Native.ofJson j).validate .default (solveJson documents) = .ok v := by
  intro h
  let j := object [("x", number "1"), ("y", string "a")]
  let documents := [j, object [("x", number "2"), ("z", bool true)]]
  have hdocuments : ∀ j ∈ documents, j.Admissible Limits.default.maxNumberExponent ∧
      j.nesting ≤ Limits.default.maxDepth := by
    simp only [documents, j, List.forall_mem_cons]
    refine ⟨⟨.object (by decide +kernel) ?_, by decide⟩,
      ⟨.object (by decide +kernel) ?_, by decide⟩, List.forall_mem_nil _⟩ <;>
      simp only [List.forall_mem_cons]
    · exact ⟨.number (by rfl : Decimal.ofText "1" _ = .ok ⟨1, 0⟩), .string, List.forall_mem_nil _⟩
    · exact ⟨.number (by rfl : Decimal.ofText "2" _ = .ok ⟨2, 0⟩), .bool, List.forall_mem_nil _⟩
  have hj : j ∈ documents := List.mem_cons_self
  obtain ⟨v, hv⟩ := h documents hdocuments j hj
  have hverdict := verdict_solveJson hdocuments hj
  rw [hv] at hverdict
  exact absurd hverdict.1 (by decide +kernel)

end Json

end TypedData
