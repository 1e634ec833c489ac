import TypedData.Proofs.Value.Reachable
import TypedData.Proofs.Wire.JsonRoundTrip
import TypedData.Proofs.Wire.Settled

/-!
# The round trip through JSON

## Main results

* `Value.decodeJson_encodeJson` — values of plain type come back, apart from the order of sets
-/

namespace TypedData.Value

/-- A half and an unknown number are under no keys. -/
theorem avoids_exampleUnknown (key : String) : exampleUnknown.Avoids key := by
  intro w hw es hes
  rcases eq_of_contains_exampleUnknown hw with rfl | rfl | rfl <;> cases hes

theorem nesting_le_of_toJson_exampleUnknown {j : Json}
    (h : exampleUnknown.toJson exampleUnknown.ty = .ok j) : j.nesting ≤ 127 := by
  obtain rfl := Except.ok.inj h
  decide

/-- A value that can be had, of a type without `dynamic` and capsules, in which the key reserved
for unknowns is not used, is encoded as its own type. If its text is read as what was written —
and it is, unless the name reserved for numbers is a key — it is decoded, and known values are
decoded as known. What is decoded is the value itself, apart from its marks, exactly if the
elements of its sets, with numbers in the form in which they come back, are in the order in which
they stood. They are whenever the numbers inside them are encoded alike in that form. -/
theorem decodeJson_encodeJson {v : Value} (hv : v.Reachable) (hplain : v.ty.Plain)
    (hnumbers : ∀ w, v.Contains w → ∀ n, w.asNumber? = some n → n.withinExponent 4096)
    (hrefinements : ∀ w, v.Contains w → ∀ r, w.refinement? = some r → r.Writable 4096)
    (hreserved : v.Avoids unknownKey) :
    ∃ j, v.toJson v.ty = .ok j ∧ v.encodeJson v.ty = .ok j.compact ∧ (j.nesting ≤ 127 →
      (v.Avoids Json.numberName → Json.readBytes (Text.Utf8.ofString j.compact) = .ok j) ∧
      (Json.readBytes (Text.Utf8.ofString j.compact) = .ok j →
        decodeJson .default v.ty (Text.Utf8.ofString j.compact) =
          .ok (v.readBack Json.echo v.ty)) ∧
      (v.readBack Json.echo v.ty).isUnknown = v.isUnknown ∧
      (v.isWhollyKnown → (v.readBack Json.echo v.ty).isWhollyKnown) ∧
      ((v.readBack Json.echo v.ty).identical v.withoutMarks ↔ v.comesBack Json.echo v.ty) ∧
      (v.Settled Json.echo → v.comesBack Json.echo v.ty)) := by
  have hwell := hv.wellFormed
  have hportable : v.Portable Limits.default.maxNumberExponent :=
    ⟨hwell, fun w hw => (hwell.plain_of_contains hplain hw).noCapsule, hnumbers, hrefinements⟩
  have hty := hwell.type_wellFormed
  obtain ⟨j, hj⟩ := Json.exists_carries (by decide) hportable hreserved hty hty
    (.of_same hty.same_refl) hty.same_refl
  have hencoded : v.encodeJson v.ty = .ok j.compact := by
    rw [encodeJson, hj.written]
    rfl
  refine ⟨j, hj.written, hencoded, fun hnesting => ⟨fun havoids => ?_, fun hread => ?_,
    isUnknown_readBack _ _ v, fun hknown => isWhollyKnown_readBack hknown v.ty,
    by rw [identical_readBack hwell],
    comesBack_of_settled Json.keepsTypes_echo hwell hportable.capsuleFree hty hplain.noDynamic
      hty.same_refl⟩⟩
  · exact Json.readBytes_compact (hj.readable havoids hplain.noDynamic) hnesting
  · have hdepth : 0 + j.nesting ≤ Limits.default.maxDepth := by
      show 0 + j.nesting ≤ 500
      omega
    simp only [decodeJson, hread, hj.read 0 hdepth, Except.mapError]

/-- A half and an unknown number come back together, the one as a literal and the other with its
bound. -/
theorem decodeJson_encodeJson_exampleUnknown :
    exampleUnknown.Reachable ∧ ∃ text w, exampleUnknown.encodeJson exampleUnknown.ty = .ok text ∧
      decodeJson .default exampleUnknown.ty (Text.Utf8.ofString text) = .ok w ∧
      w.identical exampleUnknown.withoutMarks := by
  obtain ⟨j, hj, htext, hdecoded⟩ :=
    decodeJson_encodeJson reachable_exampleUnknown plain_exampleUnknown
      (fun w hw => (within_exampleUnknown hw).1) (fun w hw => (within_exampleUnknown hw).2)
      (avoids_exampleUnknown _)
  obtain ⟨hread, hdecoded, -, -, hsame, hback⟩ := hdecoded (nesting_le_of_toJson_exampleUnknown hj)
  exact ⟨reachable_exampleUnknown, _, _, htext, hdecoded (hread (avoids_exampleUnknown _)),
    hsame.mpr (hback settled_exampleUnknown)⟩

/-- A set of tuples comes back in another order. -/
theorem decodeJson_encodeJson_exampleTurned :
    exampleTurned.Reachable ∧ ∃ text w, exampleTurned.encodeJson exampleTurned.ty = .ok text ∧
      decodeJson .default exampleTurned.ty (Text.Utf8.ofString text) = .ok w ∧
      w.identical exampleTurned.withoutMarks = false := by
  have hkeys (key : String) : exampleTurned.Avoids key := by
    intro w hw es hes
    obtain rfl | ⟨n, -, rfl | rfl⟩ := eq_of_contains_exampleTurned hw <;> cases hes
  obtain ⟨j, hj, htext, hdecoded⟩ :=
    decodeJson_encodeJson reachable_exampleTurned plain_exampleTurned
      (fun w hw n hn => within_exampleTurned hw hn)
      (fun w hw r hr => absurd ((refinement?_exampleTurned hw).symm.trans hr) nofun) (hkeys _)
  have hwritten : exampleTurned.toJson exampleTurned.ty = .ok (.array [
      .array [.number (Decimal.plain ⟨5000000000, 0⟩)], .array [.number longDouble.plain]]) := rfl
  obtain rfl := Except.ok.inj (hj.symm.trans hwritten)
  obtain ⟨hread, hdecoded, -, -, hsame, -⟩ := hdecoded (by decide)
  refine ⟨reachable_exampleTurned, _, _, htext, hdecoded (hread (hkeys _)), ?_⟩
  rw [Bool.eq_false_iff, Ne, hsame, comesBack_exampleTurned (by decide +kernel) rfl]
  exact Bool.false_ne_true

end TypedData.Value
