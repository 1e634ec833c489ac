import TypedData.Proofs.Msgpack.Reader
import TypedData.Proofs.Wire.OfMsgpack
import TypedData.Proofs.Wire.Received

/-!
# Values received as MessagePack

## Main results

* `Value.received_decodeMsgpack` — what is decoded is a received value
-/

namespace TypedData

open Value

namespace Msgpack

variable {limits : Limits} {depth : Nat} {ty : Ty} {m : Msgpack} {w : Value}

/-! ### Refinements -/

theorem Fits.of_mem_children {c : Msgpack} (h : m.Fits) (hc : c ∈ m.children) : c.Fits := by
  cases h with
  | array _ hs => exact hs c hc
  | map _ hkeys hvalues =>
    obtain ⟨e, he, hc⟩ := List.mem_flatMap.mp hc
    simp only [List.mem_cons, List.not_mem_nil, or_false] at hc
    rcases hc with rfl | rfl
    · exact hkeys e he
    · exact hvalues e he
  | _ => cases hc

theorem asNat?_lt {n : Nat} (h : m.Fits) (hn : m.asNat? = some n) : n < Word.unsignedBound := by
  unfold asNat? at hn
  split at hn
  · split at hn
    · obtain rfl := Option.some.inj hn
      have hword : Word.unsignedBound = 0x10000000000000000 := by decide
      cases h with
      | int _ hupper => omega
    · cases hn
  · cases hn

/-- One more entry leaves a refinement that can be written. -/
theorem writable_of_refine {limit : Nat} {r q : Refinement} {key value : Msgpack}
    (hr : r.Writable limit) (hvalue : value.Fits) (h : refine limit r key value = .ok q) :
    q.Writable limit := by
  obtain ⟨hlower, hupper, hlengthLower, hlengthUpper⟩ := hr
  -- A field sets one bound or one length, which was read within its limit.
  unfold refine at h
  repeat' split at h
  all_goals cases h
  · exact ⟨hlower, hupper, hlengthLower, hlengthUpper⟩
  · exact ⟨hlower, hupper, hlengthLower, hlengthUpper⟩
  · exact ⟨hlower, hupper, hlengthLower, hlengthUpper⟩
  · rename_i b hb
    refine ⟨fun b' hb' => ?_, hupper, hlengthLower, hlengthUpper⟩
    obtain rfl := Option.some.inj hb'
    exact within_of_asBound? hb
  · rename_i b hb
    refine ⟨hlower, fun b' hb' => ?_, hlengthLower, hlengthUpper⟩
    obtain rfl := Option.some.inj hb'
    exact within_of_asBound? hb
  · rename_i n hn
    refine ⟨hlower, hupper, fun n' hn' => ?_, hlengthUpper⟩
    obtain rfl := Option.some.inj hn'
    exact asNat?_lt hvalue hn
  · rename_i n hn
    refine ⟨hlower, hupper, hlengthLower, fun n' hn' => ?_⟩
    obtain rfl := Option.some.inj hn'
    exact asNat?_lt hvalue hn
  · exact ⟨hlower, hupper, hlengthLower, hlengthUpper⟩

theorem writable_of_refineAll {limit : Nat} {r q : Refinement}
    {entries : List (Msgpack × Msgpack)} (hr : r.Writable limit)
    (hentries : ∀ e ∈ entries, e.2.Fits) (h : refineAll limit r entries = .ok q) :
    q.Writable limit := by
  induction entries generalizing r with
  | nil =>
    obtain rfl := Except.ok.inj h
    exact hr
  | cons e rest ih =>
    rw [List.forall_mem_cons] at hentries
    rw [refineAll] at h
    split at h
    · cases h
    · rename_i hq
      exact ih (writable_of_refine hr hentries.1 hq) hentries.2 h

/-- A refinement that is read can be written. -/
theorem writable_of_readRefinement {limit : Nat} {bytes : List UInt8} {r : Refinement}
    (h : readRefinement limit bytes = .ok r) : r.Writable limit := by
  rw [readRefinement] at h
  split at h
  · cases h
  · rename_i entries rest hread
    have hfits := gives_readValue _ _ _ _ hread
    cases hfits with
    | map _ _ hvalues =>
      exact writable_of_refineAll (Refinement.writable_none limit) hvalues h
  · cases h

/-! ### Values -/

theorem received_of_toScalar (h : toScalar limits ty m = .ok w) :
    w.Received limits.maxNumberExponent := by
  unfold toScalar at h
  repeat' split at h
  all_goals first
    | cases h
      first
        | exact received_bool _
        | exact received_string _
        | exact received_number (within_of_asNumber? ‹_›)
    | simp only [unexpected, failAt, reduceCtorEq] at h

theorem hasCapsule_attrType {attrs : List (Attr Ty)} (h : (Ty.object attrs).hasCapsule = false)
    (key : String) : (Wire.attrType attrs key).hasCapsule = false := by
  rw [Wire.attrType]
  cases hfind : Attr.find? attrs key with
  | none => rfl
  | some a =>
    exact Ty.hasCapsule_of_mem_parts h (List.mem_map_of_mem (Attr.mem_of_find? hfind))

/-- Each way of decoding gives a received value if what is inside decodes to such. -/
theorem DecodingStep.received (hstep : DecodingStep limits depth ty m w) (hm : m.Fits)
    (hty : ty.hasCapsule = false)
    (ih : ∀ c ∈ m.children, ∀ t v, t.hasCapsule = false →
      toValue limits (depth + 1) t c = .ok v → v.Received limits.maxNumberExponent) :
    w.Received limits.maxNumberExponent := by
  have hword : 0x100000000 ≤ Word.unsignedBound := by decide
  cases hstep with
  | nil => exact received_null hty
  | refined hr => exact received_unknown hty ((writable_of_readRefinement hr).retainFor ty)
  | unknown _ => exact received_plainUnknown hty
  | wrapped hdynamic ht hw =>
    exact ih _ (by simp [children]) _ _ (describable_wrappedType ht).noCapsule hw
  | items hslots hvs =>
    have hchecks := forall₂_itemsToValues (length_of_slots? hslots) hvs
    cases hm with
    | array hlength _ =>
      refine received_sequence hty (fun _ => ?_) fun v hv => ?_
      · have := hchecks.length_eq
        have := length_of_slots? hslots
        omega
      · obtain ⟨t, ht, c, hc, hv⟩ := hchecks.exists_of_mem_left hv
        exact ih c hc t v (Ty.hasCapsule_of_mem_parts hty (mem_parts_of_slots? hslots ht)) hv
  | @map t entries keys _ htype hkeys hw =>
    subst htype
    obtain ⟨es, rfl, hsorted, hmem⟩ := Wire.exists_of_mapOf hw
    cases hm with
    | map hlength _ _ =>
      refine received_mapping hty (fun _ _ => ?_) fun e he => ?_
      · have hcount := congrArg List.length hsorted
        have hmembers := congrArg List.length
          (@keys_entriesToMembers limits (depth + 1) (fun _ => t) _ _ (length_keysOf hkeys))
        have := length_keysOf hkeys
        simp only [List.length_map, Wire.sortMembers, List.length_mergeSort] at hcount hmembers
        omega
      · obtain ⟨p, hp, -, hok⟩ := hmem e he
        obtain ⟨c, hc, heq⟩ := exists_of_mem_entriesToMembers hp
        exact ih c.2 (value_mem_children hc) t e.2 hty (heq ▸ hok)
  | object htype _ _ hw =>
    subst htype
    obtain ⟨es, rfl, hmem⟩ := Wire.exists_of_objectOf hw
    refine received_mapping hty (fun h => by cases h) fun e he => ?_
    rcases hmem e he with ⟨p, hp, -, hok⟩ | ⟨a, ha, heq⟩
    · obtain ⟨c, hc, heq⟩ := exists_of_mem_entriesToMembers hp
      exact ih c.2 (value_mem_children hc) _ e.2 (hasCapsule_attrType hty p.1) (heq ▸ hok)
    · rw [heq]
      exact received_null (Ty.hasCapsule_of_mem_parts hty (List.mem_map_of_mem ha))
  | scalar hw => exact received_of_toScalar hw

/-- What is decoded was received. -/
theorem received_toValue (hm : m.Fits) (hty : ty.hasCapsule = false)
    (h : toValue limits depth ty m = .ok w) : w.Received limits.maxNumberExponent := by
  induction m using Msgpack.induction_children generalizing depth ty w with
  | h m ih =>
    exact (decodingStep_of_toValue h).received hm hty fun c hc _ _ ht hv =>
      ih c hc (hm.of_mem_children hc) ht hv

end Msgpack

/-- What is decoded was received. -/
theorem Value.received_decodeMsgpack {limits : Limits} {ty : Ty} {bytes : List UInt8} {v : Value}
    (hty : ty.hasCapsule = false) (h : decodeMsgpack limits ty bytes = .ok v) :
    v.Received limits.maxNumberExponent := by
  rw [decodeMsgpack] at h
  simp only at h
  split at h
  · obtain rfl := Except.ok.inj h
    exact received_null hty
  split at h
  · cases h
  · rename_i m hread
    rw [Except.mapError_eq_ok_iff] at h
    exact Msgpack.received_toValue (Msgpack.gives_readValue _ _ _ _ hread) hty h
  · cases h

end TypedData
