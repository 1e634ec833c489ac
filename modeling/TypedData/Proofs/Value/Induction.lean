import TypedData.Value.Equality

/-!
# Induction on values

Values hold lists of values and entries of values, so the induction principle that belongs to
the type speaks of several kinds of data at once. The one here speaks of values only.

## Main results

* `Value.induction` — what holds of a value whenever it holds of the values inside
-/

namespace TypedData.Value

/-- What holds of a value whenever it holds of the values directly inside holds of every
value. -/
@[elab_as_elim]
theorem induction {P : Value → Prop}
    (null : ∀ ty m, P ⟨ty, .null, m⟩)
    (unknown : ∀ ty r m, P ⟨ty, .unknown r, m⟩)
    (bool : ∀ ty b m, P ⟨ty, .bool b, m⟩)
    (number : ∀ ty n m, P ⟨ty, .number n, m⟩)
    (string : ∀ ty s m, P ⟨ty, .string s, m⟩)
    (items : ∀ ty vs m, (∀ v ∈ vs, P v) → P ⟨ty, .items vs, m⟩)
    (entries : ∀ ty (es : Entries Value) m, (∀ e ∈ es, P e.2) → P ⟨ty, .entries es, m⟩)
    (capsule : ∀ ty h m, P ⟨ty, .capsule h, m⟩) (v : Value) : P v :=
  @Value.rec P (fun c => ∀ ty m, P ⟨ty, c, m⟩) (fun vs => ∀ v ∈ vs, P v)
    (fun es => ∀ e ∈ es, P e.2) (fun e => P e.2)
    (fun ty _ m h => h ty m) null (fun r ty m => unknown ty r m) (fun b ty m => bool ty b m)
    (fun n ty m => number ty n m) (fun s ty m => string ty s m)
    (fun vs h ty m => items ty vs m h) (fun es h ty m => entries ty es m h)
    (fun h ty m => capsule ty h m)
    (fun _ h => absurd h List.not_mem_nil) (fun _ _ h hs => List.forall_mem_cons.mpr ⟨h, hs⟩)
    (fun _ h => absurd h List.not_mem_nil) (fun _ _ h hs => List.forall_mem_cons.mpr ⟨h, hs⟩)
    (fun _ _ h => h) v

/-! ### Lists of values -/

theorem withoutMarksEach_eq_map (vs : List Value) :
    withoutMarksEach vs = vs.map withoutMarks := by
  induction vs with
  | nil => rfl
  | cons v vs ih => rw [withoutMarksEach, ih, List.map_cons]

theorem withoutMarksEntries_eq_map (es : Entries Value) :
    withoutMarksEntries es = es.map fun e => (e.1, e.2.withoutMarks) := by
  induction es with
  | nil => rfl
  | cons e es ih => rw [withoutMarksEntries, ih, List.map_cons]

end TypedData.Value
