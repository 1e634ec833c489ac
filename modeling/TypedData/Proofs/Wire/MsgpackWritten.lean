import TypedData.Proofs.Wire.MsgpackRoundTrip

/-!
# What values are written as

In a slot that is not `dynamic` the document that a value was written as shows what it contains:
its shape is that of the contents, and its members are what the members were written as. So a value
in a slot without `dynamic` costs at most two units for each container around its innermost parts,
and four where a type may stand beside each of them.

## Main definitions

* `Msgpack.WrittenAs` — what contents are written as

## Main results

* `Msgpack.writtenAs_of_toMsgpack` — what was written, by the contents of the value
* `Msgpack.cost_le_of_toMsgpack`, `Msgpack.cost_le_of_wellFormed` — what a value costs its reader,
  without and with types beside its parts
-/

namespace TypedData

namespace Msgpack

open Value

variable {slot s : Ty} {m : Msgpack} {v : Value} {c : Content Value}

/-! ### Contents -/

/-- Elements were written into the places of their slot. -/
theorem exists_of_toMsgpack_items {own : Ty} {vs : List Value} {marks : Marks}
    (hs : s.isDynamic = false) (h : toMsgpack s ⟨own, .items vs, marks⟩ = .ok m) :
    ∃ ss ms, slots? s vs.length = some ss ∧ itemsToMsgpack 0 ss vs = .ok ms ∧ m = .array ms := by
  have hsome {ss : List Ty} (hss : slots? s vs.length = some ss) :
      ∃ ss ms, slots? s vs.length = some ss ∧ itemsToMsgpack 0 ss vs = .ok ms ∧
        m = .array ms := by
    rw [toMsgpack_items hss] at h
    obtain ⟨ms, hms, rfl⟩ := Except.map_eq_ok_iff.mp h
    exact ⟨ss, ms, hss, hms, rfl⟩
  cases s with
  | list u => exact hsome rfl
  | set u => exact hsome rfl
  | tuple us =>
    by_cases hlength : vs.length = us.length
    · exact hsome (if_pos hlength)
    · simp [toMsgpack, wrapMsgpack, unfitMsgpack, Ty.isDynamic, Ty.slotType, hlength] at h
  | dynamic => cases hs
  | _ => cases h

/-- Entries were written into the slots of their keys. -/
theorem exists_of_toMsgpack_entries {own : Ty} {es : Entries Value} {marks : Marks}
    (hs : s.isDynamic = false) (h : toMsgpack s ⟨own, .entries es, marks⟩ = .ok m) :
    ∃ ms, entriesToMsgpack (slotOf? s) es = .ok ms ∧ m = .map ms := by
  cases s with
  | map u =>
    obtain ⟨ms, hms, rfl⟩ := Except.map_eq_ok_iff.mp h
    exact ⟨ms, hms, rfl⟩
  | object attrs =>
    obtain ⟨ms, hms, rfl⟩ := Except.map_eq_ok_iff.mp h
    exact ⟨ms, hms, rfl⟩
  | dynamic => cases hs
  | _ => cases h

/-- What contents are written as in a slot that is not `dynamic`. -/
inductive WrittenAs (slot : Ty) (m : Msgpack) : Content Value → Prop
  | null (h : m = .nil) : WrittenAs slot m .null
  | unknown {r : Refinement} (h : m = .ofUnknown r) : WrittenAs slot m (.unknown r)
  | bool {b : Bool} (h : m = .bool b) : WrittenAs slot m (.bool b)
  | number {n : Decimal} (h : m = .ofNumber n) : WrittenAs slot m (.number n)
  | string {x : String} (h : m = .ofText x) : WrittenAs slot m (.string x)
  | items {vs : List Value} {ss : List Ty} {ms : List Msgpack}
      (hss : slots? slot vs.length = some ss) (hms : itemsToMsgpack 0 ss vs = .ok ms)
      (h : m = .array ms) : WrittenAs slot m (.items vs)
  | entries {es : Entries Value} {ms : List (Msgpack × Msgpack)}
      (hms : entriesToMsgpack (slotOf? slot) es = .ok ms) (h : m = .map ms) :
      WrittenAs slot m (.entries es)

theorem writtenAs_of_toMsgpack (hslot : slot.isDynamic = false) (h : v.toMsgpack slot = .ok m) :
    WrittenAs slot m v.content := by
  obtain ⟨own, c, marks⟩ := v
  cases c with
  | null => exact .null (Except.ok.inj h).symm
  | unknown r => exact .unknown (Except.ok.inj h).symm
  | bool b =>
    cases slot <;> first | cases h | cases hslot
    exact .bool rfl
  | number n =>
    cases slot <;> first | cases h | cases hslot
    exact .number rfl
  | string x =>
    cases slot <;> first | cases h | cases hslot
    exact .string rfl
  | items vs =>
    obtain ⟨ss, ms, hss, hms, hm⟩ := exists_of_toMsgpack_items hslot h
    exact .items hss hms hm
  | entries es =>
    obtain ⟨ms, hms, hm⟩ := exists_of_toMsgpack_entries hslot h
    exact .entries hms hm
  | capsule handle => cases slot <;> first | cases h | cases hslot

/-- The shape of what contents are written as. -/
def shapeOf : Content Value → WireShape
  | .null => .null
  | .unknown _ => .extension
  | .items _ => .list
  | .entries _ => .dict
  | _ => .scalar

theorem WrittenAs.shape_eq (h : WrittenAs slot m c) : m.shape = shapeOf c := by
  cases h with
  | unknown h =>
    rw [h, ofUnknown]
    split <;> rfl
  | number h =>
    rw [h, shape_ofNumber]
    rfl
  | null h | bool h | string h | items _ _ h | entries _ h => rw [h]; rfl

/-- A known value was written into a `dynamic` slot beside the text of its type. -/
theorem exists_of_toMsgpack_of_isDynamic (hslot : slot.isDynamic) (hknown : v.isKnown)
    (hown : v.ty.isDynamic = false) (h : v.toMsgpack slot = .ok m) :
    ∃ inner j, v.toMsgpack v.ty = .ok inner ∧ v.ty.toJson = .ok j ∧
      m = .array [.bin (Text.Utf8.ofString j.compact), inner] := by
  rw [toMsgpack_of_isDynamic hslot hknown hown, wrapMsgpack, if_pos hslot] at h
  split at h
  · cases h
  · rename_i j hj
    obtain ⟨inner, hinner, rfl⟩ := Except.map_eq_ok_iff.mp h
    exact ⟨inner, j, hinner, hj, rfl⟩

/-! ### Members -/

theorem exists_of_itemsToMsgpack_cons {i : Nat} {ss : List Ty} {vs : List Value} {ms : List Msgpack}
    (h : itemsToMsgpack i (s :: ss) (v :: vs) = .ok ms) :
    ∃ m ms', v.toMsgpack s = .ok m ∧ itemsToMsgpack (i + 1) ss vs = .ok ms' ∧ ms = m :: ms' := by
  rw [itemsToMsgpack, List.headD_cons, List.tail_cons] at h
  split at h
  · cases h
  · rename_i m hm
    obtain ⟨ms', hms, rfl⟩ := Except.map_eq_ok_iff.mp h
    exact ⟨m, ms', hm, hms, rfl⟩

theorem exists_of_entriesToMsgpack_cons {slotOf : String → Option Ty} {k : String}
    {es : Entries Value} {ms : List (Msgpack × Msgpack)}
    (h : entriesToMsgpack slotOf ((k, v) :: es) = .ok ms) :
    ∃ s m ms', slotOf k = some s ∧ v.toMsgpack s = .ok m ∧ entriesToMsgpack slotOf es = .ok ms' ∧
      ms = (ofText k, m) :: ms' := by
  rw [entriesToMsgpack] at h
  split at h
  · cases h
  rename_i s hs
  split at h
  · cases h
  · rename_i m hm
    obtain ⟨ms', hms, rfl⟩ := Except.map_eq_ok_iff.mp h
    exact ⟨s, m, ms', hs, hm, hms, rfl⟩

/-- The keys of entries are written as texts. -/
theorem keys_of_entriesToMsgpack {slotOf : String → Option Ty} {es : Entries Value}
    {ms : List (Msgpack × Msgpack)} (h : entriesToMsgpack slotOf es = .ok ms) :
    ms.map (·.1) = es.map fun e => ofText e.1 := by
  induction es generalizing ms with
  | nil =>
    obtain rfl := Except.ok.inj h
    rfl
  | cons e es ih =>
    obtain ⟨_, m, ms', -, -, hms, rfl⟩ := exists_of_entriesToMsgpack_cons h
    rw [List.map_cons, List.map_cons, ih hms]

/-- They are read as they were. -/
theorem keysOf_of_entriesToMsgpack {own : Ty} {es : Entries Value} {marks : Marks}
    {slotOf : String → Option Ty} {ms : List (Msgpack × Msgpack)}
    (hv : WellFormed ⟨own, .entries es, marks⟩) (hms : entriesToMsgpack slotOf es = .ok ms) :
    keysOf ms = .ok (es.map (·.1)) :=
  keysOf_eq (keys_of_entriesToMsgpack hms) hv.nodup_keys hv.entries_keys.2

theorem length_of_itemsToMsgpack {i : Nat} {ss : List Ty} {vs : List Value} {ms : List Msgpack}
    (hlength : vs.length = ss.length) (h : itemsToMsgpack i ss vs = .ok ms) :
    ms.length = vs.length := by
  induction vs generalizing i ss ms with
  | nil =>
    obtain rfl := Except.ok.inj h
    rfl
  | cons v vs ih =>
    cases ss with
    | nil => cases hlength
    | cons s ss =>
      obtain ⟨m, ms', -, hms, rfl⟩ := exists_of_itemsToMsgpack_cons h
      rw [List.length_cons, List.length_cons, ih (by simpa using hlength) hms]

/-! ### Costs -/

theorem costOfItems_le_of_written {vs : List Value} {ss : List Ty} {i n : Nat}
    {ms : List Msgpack} (hlength : vs.length = ss.length)
    (h : ∀ v ∈ vs, ∀ s ∈ ss, ∀ m, v.toMsgpack s = .ok m → m.cost ≤ n)
    (hms : itemsToMsgpack i ss vs = .ok ms) : costOfItems ms ≤ n := by
  induction vs generalizing ss i ms with
  | nil =>
    obtain rfl := Except.ok.inj hms
    exact Nat.zero_le n
  | cons v vs ih =>
    cases ss with
    | nil => cases hlength
    | cons s ss =>
      obtain ⟨m, ms, hm, hrest, rfl⟩ := exists_of_itemsToMsgpack_cons hms
      have hfirst := h v (by simp) s (by simp) m hm
      have hrest := ih (by simpa using hlength)
        (fun w hw t ht => h w (by simp [hw]) t (by simp [ht])) hrest
      rw [costOfItems]
      omega

theorem costOfEntries_le_of_written {es : Entries Value} {slotOf : String → Option Ty} {n : Nat}
    {ms : List (Msgpack × Msgpack)}
    (h : ∀ e ∈ es, ∀ s, slotOf e.1 = some s → ∀ m, e.2.toMsgpack s = .ok m → m.cost ≤ n)
    (hn : 3 ≤ n) (hms : entriesToMsgpack slotOf es = .ok ms) : costOfEntries ms ≤ n := by
  induction es generalizing ms with
  | nil =>
    obtain rfl := Except.ok.inj hms
    exact Nat.zero_le n
  | cons e es ih =>
    rw [List.forall_mem_cons] at h
    obtain ⟨s, m, ms, hs, hm, hrest, rfl⟩ := exists_of_entriesToMsgpack_cons hms
    have hfirst := h.1 s hs m hm
    have hrest := ih h.2 hrest
    have hkey : (ofText e.1).cost = 3 := rfl
    rw [costOfEntries]
    omega

/-- A container costs two units more than its members and their keys, and a value without members at
most three. -/
theorem WrittenAs.cost_le {n k : Nat} (h : WrittenAs slot m v.content) (hk : 3 ≤ k)
    (hkn : k ≤ n + 1) (hmembers : ∀ w ∈ parts v.content, ∀ s ∈ slot.parts, ∀ m',
      w.toMsgpack s = .ok m' → m'.cost ≤ n * w.nesting + k) : m.cost ≤ n * v.nesting + 3 := by
  obtain ⟨own, content, marks⟩ := v
  -- What a member costs, by the nesting of the container.
  have hbound {w : Value} {m' : Msgpack} {s : Ty} (hw : w ∈ parts content) (hs : s ∈ slot.parts)
      (hm' : w.toMsgpack s = .ok m') : m'.cost + n ≤ n * nesting ⟨own, content, marks⟩ + k := by
    have hcost := hmembers w hw s hs m' hm'
    have hnesting := Nat.mul_le_mul_left n (nesting_lt_of_mem_parts (v := ⟨own, content, marks⟩) hw)
    rw [Nat.mul_succ] at hnesting
    omega
  cases h with
  | null h | bool h | string h =>
    rw [h]
    simp [ofText, cost]
  | unknown h =>
    rw [h, ofUnknown]
    split <;> simp [cost]
  | number h =>
    rw [h]
    exact (cost_ofNumber_le _).trans (Nat.le_add_left _ _)
  | @items vs ss ms hss hms h =>
    have hpositive : n ≤ n * nesting ⟨own, .items vs, marks⟩ :=
      Nat.le_mul_of_pos_right n (by simp [nesting])
    have hitems := costOfItems_le_of_written (length_of_slots? hss)
      (fun w hw s hs m' hm' =>
        Nat.le_sub_of_add_le (hbound hw (mem_parts_of_slots? hss hs) hm')) hms
    rw [h, cost]
    omega
  | @entries es ms hms h =>
    have hpositive : n ≤ n * nesting ⟨own, .entries es, marks⟩ :=
      Nat.le_mul_of_pos_right n (by simp [nesting])
    have hentries := costOfEntries_le_of_written
      (fun e he s hs m' hm' => Nat.le_sub_of_add_le
        (hbound (List.mem_map_of_mem he) (mem_parts_of_slotOf? hs) hm')) (by omega) hms
    rw [h, cost]
    omega

/-- Without `dynamic` slots a container costs two units, and a value without members at most
three. -/
theorem cost_le_of_toMsgpack (hs : s.hasDynamic = false) (h : v.toMsgpack s = .ok m) :
    m.cost ≤ 2 * v.nesting + 3 := by
  induction hn : v.nesting using Nat.strong_induction_on generalizing v s m with
  | _ n ih =>
    subst hn
    refine (writtenAs_of_toMsgpack (Ty.isDynamic_of_hasDynamic hs) h).cost_le le_rfl le_rfl
      fun w hw t ht m' hm' => ?_
    exact ih _ (nesting_lt_of_mem_parts hw) (Ty.hasDynamic_of_mem_parts hs ht) hm' rfl

/-- Where slots may be `dynamic`, a container costs four units at most: two for itself, and two for
the array in which it stands beside its type. -/
theorem cost_le_of_wellFormed (hv : v.WellFormed) (h : v.toMsgpack s = .ok m) :
    m.cost ≤ 4 * v.nesting + 5 := by
  induction hn : v.nesting using Nat.strong_induction_on generalizing v s m with
  | _ n ih =>
    subst hn
    have hown {t : Ty} {m' : Msgpack} (ht : t.isDynamic = false) (hm' : v.toMsgpack t = .ok m') :
        m'.cost ≤ 4 * v.nesting + 3 :=
      (writtenAs_of_toMsgpack ht hm').cost_le (by omega) le_rfl fun w hw t ht m' hm' =>
        ih _ (nesting_lt_of_mem_parts hw) (hv.of_mem_parts hw) hm' rfl
    cases hs : s.isDynamic with
    | false => exact (hown hs h).trans (by omega)
    | true =>
      by_cases hknown : v.isKnown
      · have hconcrete := hv.isDynamic_eq_false hknown
        obtain ⟨inner, j, hinner, -, rfl⟩ := exists_of_toMsgpack_of_isDynamic hs hknown hconcrete h
        have hcost := hown hconcrete hinner
        simp only [cost, costOfItems]
        omega
      · -- Without a type beside it, a value is written alike into every slot.
        have hanywhere : v.toMsgpack s = v.toMsgpack .bool := by
          obtain ⟨own, content, marks⟩ := v
          cases content <;> first | rfl | exact absurd rfl hknown
        exact (hown rfl (hanywhere ▸ h)).trans (by omega)

end Msgpack

end TypedData
