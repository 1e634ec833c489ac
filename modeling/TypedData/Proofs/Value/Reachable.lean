import TypedData.Proofs.Conversion
import TypedData.Proofs.Path
import TypedData.Proofs.Validation
import TypedData.Proofs.Wire.OfJson
import TypedData.Proofs.Wire.OfMsgpack

/-!
# Values that can be had

Values are made by hand, by validating native data, by conversion and by decoding; they are
taken from inside other values, and marked and unmarked. Nothing else makes a value. All of
these ways keep the invariant of values, whatever limits they work under.

## Main definitions

* `Value.Reachable` — values that some sequence of operations gives
* `Value.Coherent` — what the type of a value says of its contents

## Main results

* `Value.Reachable.wellFormed` — every such value is well-formed
* `Value.coherent_of_reachable` — everything inside such a value goes with its type
-/

namespace TypedData.Value

/-- A value that some sequence of operations gives. Types are such as their constructors make
them, and native data may hold values had before. -/
inductive Reachable : Value → Prop
  | null {ty : Ty} (hty : ty.WellFormed) : Reachable (.null ty)
  | unknown {ty : Ty} (hty : ty.WellFormed) : Reachable (.unknown ty)
  | unknownRefined {ty : Ty} {r : Refinement} (hty : ty.WellFormed)
      (hr : r.Built fun _ => True) : Reachable (.unknownRefined ty r)
  | bool (b : Bool) : Reachable (.bool b)
  | number (n : Decimal) : Reachable (.number n)
  | string (s : String) : Reachable (.string s)
  | capsule (h : CapsuleHandle) : Reachable (.capsule h)
  | validate {limits : Limits} {ty : Ty} {raw : Native} {w : Value} (hty : ty.WellFormed)
      (hraw : ∀ v ∈ raw.values, Reachable v) (h : raw.validate limits ty = .ok w) : Reachable w
  | convert {limits : Limits} {target : Ty} {v w : Value} (hv : Reachable v)
      (htarget : target.WellFormed) (h : v.convert limits target = .ok w) : Reachable w
  | decodeJson {limits : Limits} {ty : Ty} {bytes : List UInt8} {w : Value}
      (hty : ty.WellFormed) (h : decodeJson limits ty bytes = .ok w) : Reachable w
  | decodeMsgpack {limits : Limits} {ty : Ty} {bytes : List UInt8} {w : Value}
      (hty : ty.WellFormed) (h : decodeMsgpack limits ty bytes = .ok w) : Reachable w
  | follow {path : Path} {v w : Value} (hv : Reachable v) (h : v.follow path = .ok w) :
      Reachable w
  | mark {v : Value} (hv : Reachable v) (tag : String) : Reachable (v.mark tag)
  | withMarks {v : Value} (hv : Reachable v) (marks : Marks) : Reachable (v.withMarks marks)
  | unmark {v : Value} (hv : Reachable v) : Reachable v.unmark.1
  | unmarkDeep {v : Value} (hv : Reachable v) : Reachable v.unmarkDeep.1

/-! ### Decoding from bytes -/

variable {limits : Limits} {ty : Ty} {bytes : List UInt8} {w : Value}

theorem wellFormed_decodeJson (hty : ty.WellFormed) (h : decodeJson limits ty bytes = .ok w) :
    w.WellFormed ∧ w.InSlot ty := by
  simp only [decodeJson] at h
  split at h
  · cases h
  · rw [Except.mapError_eq_ok_iff] at h
    exact Json.wellFormed_toValue hty h

theorem wellFormed_decodeMsgpack (hty : ty.WellFormed)
    (h : decodeMsgpack limits ty bytes = .ok w) : w.WellFormed ∧ w.InSlot ty := by
  simp only [decodeMsgpack] at h
  split at h
  · obtain rfl := Except.ok.inj h
    exact ⟨.null hty, .of_ty_eq hty rfl⟩
  split at h
  · cases h
  · rw [Except.mapError_eq_ok_iff] at h
    exact Msgpack.wellFormed_toValue hty h
  · cases h

/-! ### The invariant -/

/-- Every value that can be had is well-formed. -/
theorem Reachable.wellFormed {v : Value} (h : v.Reachable) : v.WellFormed := by
  induction h with
  | null hty => exact .null hty
  | unknown hty => exact .plainUnknown hty
  | unknownRefined hty hr => exact .unknownRefined hty hr.startKept
  | bool => exact .bool
  | number => exact .number
  | string => exact .string
  | capsule => exact .capsule
  | validate hty _ h ih => exact (Native.wellFormed_validateAt hty ih h).1
  | convert _ htarget h ih => exact (ih.convertAt htarget h).1
  | decodeJson hty h => exact (wellFormed_decodeJson hty h).1
  | decodeMsgpack hty h => exact (wellFormed_decodeMsgpack hty h).1
  | follow _ h ih => exact ih.follow h
  | mark _ tag ih => exact ih.of_sameData ⟨rfl, rfl⟩
  | withMarks _ marks ih => exact ih.withMarks marks
  | unmark _ ih => exact ih.of_sameData ⟨rfl, rfl⟩
  | unmarkDeep _ ih => exact ih.withoutMarks

/-! ### What the invariant says at every depth -/

/-- Whether known contents are of the kind that a type asks for. -/
def kindFits : Ty → Content Value → Bool
  | .bool, .bool _ | .number, .number _ | .string, .string _ => true
  | .list _, .items _ | .set _, .items _ | .tuple _, .items _ => true
  | .map _, .entries _ | .object _, .entries _ => true
  | .capsule kind, .capsule h => kind == h.kind
  | _, _ => false

/-- What the type of a value says of its contents and of the values directly inside. -/
structure Coherent (v : Value) : Prop where
  /-- Known contents have a type that is not `dynamic`, and are of its kind. -/
  kind : v.isKnown → v.ty.isDynamic = false ∧ kindFits v.ty v.content
  /-- Elements of lists, sets and maps have the type of their slot and are not unknown. -/
  elements : ∀ t, v.ty.element? = some t → ∀ w ∈ parts v.content,
    w.InSlot t ∧ w.isUnknown = false
  /-- Tuples have an element for each place, of the type of that place. -/
  places : ∀ ts, v.ty = .tuple ts → ∀ ws, v.elements? = some ws → List.Forall₂ InSlot ws ts
  /-- The keys of an object are the declared names, each with a value of the declared type. -/
  attributes : ∀ attrs, v.ty = .object attrs → ∀ es, v.entries? = some es →
    es.map (·.1) = Attr.sortedNames attrs ∧
      ∀ e ∈ es, ∀ a, Attr.find? attrs e.1 = some a → e.2.InSlot a.ty
  /-- Keys are in composed form. -/
  keys : ∀ es, v.entries? = some es → ∀ e ∈ es, Text.nfc e.1 = e.1
  /-- A refinement speaks only of what the type has. -/
  refinement : ∀ r, v.refinement? = some r → r.retainFor v.ty = r

/-- The contents of a well-formed value go with its type. -/
theorem WellFormed.coherent {v : Value} (h : v.WellFormed) : v.Coherent where
  kind hknown := by
    refine ⟨h.isDynamic_eq_false hknown, ?_⟩
    cases h <;> first | rfl | simp [isKnown, isNull, isUnknown] at hknown
    exact beq_self_eq_true _
  elements t ht w hw := by
    cases h <;> simp only [parts, List.not_mem_nil, Ty.element?, reduceCtorEq,
      Option.some.injEq] at ht hw
    case list slots known => exact ⟨ht ▸ slots w hw, known w hw⟩
    case set slots known _ => exact ⟨ht ▸ slots w hw, known w hw⟩
    case map slots known _ _ =>
      obtain ⟨e, he, rfl⟩ := List.mem_map.mp hw
      exact ⟨ht ▸ slots e he, known e he⟩
  places ts hty ws hws := by
    cases h <;> simp only [elements?, reduceCtorEq, Option.some.injEq, Ty.tuple.injEq]
      at hty hws
    case tuple slots => exact hty ▸ hws ▸ slots
  attributes attrs hty es hes := by
    cases h <;> simp only [entries?, reduceCtorEq, Option.some.injEq, Ty.object.injEq]
      at hty hes
    case object keys slots =>
      subst hty hes
      exact ⟨keys, slots⟩
  keys es hes := by
    obtain ⟨ty, content, marks⟩ := v
    cases content <;> simp only [entries?, reduceCtorEq, Option.some.injEq] at hes
    exact hes ▸ h.entries_keys.2
  refinement r hr := by
    cases h <;> simp only [refinement?, reduceCtorEq, Option.some.injEq] at hr
    case unknown retained _ => exact hr ▸ retained

/-- Everything that stands inside a value that can be had goes with its type. -/
theorem coherent_of_reachable {v w : Value} (hv : v.Reachable) (hw : v.Contains w) :
    w.Coherent :=
  (hv.wellFormed.of_contains hw).coherent

/-! ### An example -/

/-- Attributes with containers of every kind. The note may be left out. -/
def exampleAttrs : List (Attr Ty) :=
  [⟨"id", .string, false⟩, ⟨"note", .string, true⟩,
    ⟨"pair", .tuple [.set .bool, .dynamic], false⟩, ⟨"sizes", .map (.list .number), false⟩]

def exampleType : Ty := .object exampleAttrs

/-- A text of which only the beginning is certain. -/
def exampleStart : Value := .unknownRefined .string (Refinement.none.withStart "n-")

/-- Data of that type, without a note. -/
def exampleData : Native :=
  .map [(.string "sizes", .map [(.string "a", .list [.int 1, .int 2])]),
    (.string "pair", .tuple [.set [.bool true, .bool false, .bool true], .string "x"]),
    (.string "id", .value exampleStart)]

/-- The containers in the value of that data. -/
def exampleSet : Value := ⟨.set .bool, .items [.bool false, .bool true], .empty⟩

def exampleTuple : Value :=
  ⟨.tuple [.set .bool, .dynamic], .items [exampleSet, .string "x"], .empty⟩

def exampleList : Value :=
  ⟨.list .number, .items [.number (Decimal.ofInt 1), .number (Decimal.ofInt 2)], .empty⟩

def exampleMap : Value := ⟨.map (.list .number), .entries [("a", exampleList)], .empty⟩

/-- The value of that data, with a null for the note. -/
def exampleValue : Value :=
  ⟨exampleType, .entries [("id", exampleStart), ("note", .null .string), ("pair", exampleTuple),
    ("sizes", exampleMap)], .empty⟩

theorem wellFormed_exampleType : exampleType.WellFormed := by
  refine .object (by decide) ?_ ?_ <;> simp only [exampleAttrs, List.forall_mem_cons]
  · exact ⟨by decide +kernel, by decide +kernel, by decide +kernel, by decide +kernel, nofun⟩
  · exact ⟨.string, .string, .tuple (List.forall_mem_pair.mpr ⟨.set .bool, .dynamic⟩),
      .map (.list .number), nofun⟩

theorem canonicalSet_exampleSet : canonicalSet [.bool true, .bool false, .bool true] =
    [.bool false, .bool true] := by
  have hgt : (bool true).compare (bool false) = .gt := rfl
  have hlt : (bool false).compare (bool true) = .lt := rfl
  have hsorted : [bool true, bool false, bool true].mergeSort (fun a b => (a.compare b).isLE) =
      [bool false, bool true, bool true] := by
    simp [List.mergeSort, List.MergeSort.Internal.splitInTwo, List.cons_merge_cons, hgt, hlt]
  rw [canonicalSet, hsorted]
  rfl

theorem validate_exampleSet :
    (Native.set [.bool true, .bool false, .bool true]).validateAt .default 2 (.set .bool) =
      .ok exampleSet := by
  refine congrArg Except.ok (?_ : sequence (.set .bool) [_, _, _] = exampleSet)
  rw [sequence, canonicalSet_exampleSet]
  rfl

theorem validate_exampleTuple :
    (Native.tuple [.set [.bool true, .bool false, .bool true], .string "x"]).validateAt .default 1
      (.tuple [.set .bool, .dynamic]) = .ok exampleTuple := by
  have hitems : Native.validateItems .default 2 0 [.set .bool, .dynamic]
      [.set [.bool true, .bool false, .bool true], .string "x"] =
        .ok [exampleSet, .string "x"] := by
    rw [Native.validateItems, List.headD_cons, validate_exampleSet]
    rfl
  exact congrArg (·.map (sequence (.tuple [.set .bool, .dynamic]))) hitems

theorem validate_exampleMap :
    (Native.map [(.string "a", .list [.int 1, .int 2])]).validateAt .default 1
      (.map (.list .number)) = .ok exampleMap := by
  refine congrArg Except.ok
    (?_ : mapping (.map (.list .number)) (sortEntries [("a", _)]) = exampleMap)
  rw [sortEntries, List.mergeSort_singleton]
  rfl

/-- The members come in any order, and the value has them in key order. -/
theorem objectOf_exampleData :
    Native.objectOf exampleType exampleAttrs [(.string "sizes", .ok exampleMap),
      (.string "pair", .ok exampleTuple), (.string "id", .ok exampleStart)] =
        .ok exampleValue := by
  have hnames : Native.gatherNames [] [(.string "sizes", .ok exampleMap),
      (.string "pair", .ok exampleTuple), (.string "id", .ok exampleStart)] =
        .ok [("sizes", .ok exampleMap), ("pair", .ok exampleTuple), ("id", .ok exampleStart)] := by
    rfl
  have hdeclared : Wire.undeclared? exampleAttrs ["sizes", "pair", "id"] = none :=
    Wire.undeclared?_eq_none_iff.mpr (by decide)
  have hmembers : Ty.firstError (Native.declaredMembers exampleAttrs
      [("sizes", .ok exampleMap), ("pair", .ok exampleTuple), ("id", .ok exampleStart)]) =
        .ok [("id", exampleStart), ("note", .null .string), ("pair", exampleTuple),
          ("sizes", exampleMap)] := rfl
  have hsorted : sortEntries [("id", exampleStart), ("note", .null .string),
      ("pair", exampleTuple), ("sizes", exampleMap)] = _ :=
    List.mergeSort_of_pairwise (by decide)
  simp only [Native.objectOf, hnames, List.map, hdeclared, hmembers, Except.map, hsorted]
  rfl

theorem validate_exampleData : exampleData.validate .default exampleType = .ok exampleValue := by
  refine (?_ : Native.objectOf exampleType _
    [(.string "sizes", Native.validateAt _ 1 (.map (.list .number)) _),
      (.string "pair", Native.validateAt _ 1 (.tuple [.set .bool, .dynamic]) _),
      (.string "id", .ok exampleStart)] = _)
  rw [validate_exampleMap, validate_exampleTuple]
  exact objectOf_exampleData

theorem reachable_exampleValue : exampleValue.Reachable := by
  refine .validate wellFormed_exampleType (List.forall_mem_singleton.mpr ?_) validate_exampleData
  exact .unknownRefined .string (.start .none "n-")

/-- The object itself goes with its type, and so do the containers, the null and the unknown text
inside. -/
theorem coherent_of_reachable_nested :
    exampleData.validate .default exampleType = .ok exampleValue ∧ exampleValue.Reachable ∧
      ∀ w ∈ [exampleValue, .null .string, exampleStart, exampleTuple, exampleSet, exampleMap,
        exampleList], exampleValue.Contains w ∧ w.Coherent := by
  have htuple : exampleValue.Contains exampleTuple :=
    .inside .self (.tail _ (.tail _ (.head _)))
  have hmap : exampleValue.Contains exampleMap :=
    .inside .self (.tail _ (.tail _ (.tail _ (.head _))))
  have hinside : ∀ w ∈ [exampleValue, .null .string, exampleStart, exampleTuple, exampleSet,
      exampleMap, exampleList], exampleValue.Contains w := by
    simp only [List.forall_mem_cons]
    exact ⟨.self, .inside .self (.tail _ (.head _)), .inside .self (.head _), htuple,
      .inside htuple (.head _), hmap, .inside hmap (.head _), nofun⟩
  refine ⟨validate_exampleData, reachable_exampleValue, fun w hw => ⟨hinside w hw, ?_⟩⟩
  exact coherent_of_reachable reachable_exampleValue (hinside w hw)

end TypedData.Value
