import TypedData.Msgpack.Basic

/-!
# Induction on MessagePack values

## Main results

* `Msgpack.induction` — what holds of a value whenever it holds of the values inside
-/

namespace TypedData.Msgpack

/-- What holds of a MessagePack value whenever it holds of the items, keys and values directly
inside holds of every one. -/
@[elab_as_elim]
theorem induction {P : Msgpack → Prop} (nil : P nil) (bool : ∀ b, P (bool b))
    (int : ∀ n, P (int n)) (float32 : ∀ bits, P (float32 bits)) (float64 : ∀ f, P (float64 f))
    (str : ∀ bytes, P (str bytes)) (bin : ∀ bytes, P (bin bytes))
    (array : ∀ ms, (∀ m ∈ ms, P m) → P (array ms))
    (map : ∀ es : List (Msgpack × Msgpack), (∀ e ∈ es, P e.1 ∧ P e.2) → P (map es))
    (ext : ∀ tag bytes, P (ext tag bytes)) (m : Msgpack) : P m :=
  @Msgpack.rec P (fun ms => ∀ m ∈ ms, P m) (fun es => ∀ e ∈ es, P e.1 ∧ P e.2)
    (fun e => P e.1 ∧ P e.2)
    nil bool int float32 float64 str bin array map ext
    (fun _ h => absurd h List.not_mem_nil) (fun _ _ h hs => List.forall_mem_cons.mpr ⟨h, hs⟩)
    (fun _ h => absurd h List.not_mem_nil) (fun _ _ h hs => List.forall_mem_cons.mpr ⟨h, hs⟩)
    (fun _ _ hk hv => ⟨hk, hv⟩) m

/-- The items, keys and values directly inside. -/
def children : Msgpack → List Msgpack
  | array ms => ms
  | map es => es.flatMap fun e => [e.1, e.2]
  | _ => []

/-- The same principle without a look at the shape. -/
@[elab_as_elim]
theorem induction_children {P : Msgpack → Prop} (h : ∀ m : Msgpack, (∀ c ∈ m.children, P c) → P m)
    (m : Msgpack) : P m := by
  induction m using Msgpack.induction with
  | array ms ih => exact h _ ih
  | map es ih =>
    refine h _ fun c hc => ?_
    obtain ⟨e, he, hc⟩ := List.mem_flatMap.mp hc
    simp only [List.mem_cons, List.not_mem_nil, or_false] at hc
    rcases hc with rfl | rfl
    · exact (ih e he).1
    · exact (ih e he).2
  | _ => exact h _ nofun

theorem value_mem_children {es : List (Msgpack × Msgpack)} {e : Msgpack × Msgpack} (he : e ∈ es) :
    e.2 ∈ (map es).children :=
  List.mem_flatMap.mpr ⟨e, he, by simp⟩

end TypedData.Msgpack
