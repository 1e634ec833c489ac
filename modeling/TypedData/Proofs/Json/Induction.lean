import TypedData.Json.Basic

/-!
# Induction on JSON values

## Main definitions

* `Json.children` — the values directly inside

## Main results

* `Json.induction` — what holds of a value whenever it holds of the values inside
-/

namespace TypedData.Json

/-- What holds of a JSON value whenever it holds of the values directly inside holds of every
one. -/
@[elab_as_elim]
theorem induction {P : Json → Prop} (null : P null) (bool : ∀ b, P (bool b))
    (number : ∀ t, P (number t)) (string : ∀ s, P (string s))
    (array : ∀ js, (∀ j ∈ js, P j) → P (array js))
    (object : ∀ fs, (∀ f ∈ fs, P f.2) → P (object fs)) (j : Json) : P j :=
  @Json.rec P (fun js => ∀ j ∈ js, P j) (fun fs => ∀ f ∈ fs, P f.2) (fun f => P f.2)
    null bool number string array object
    (fun _ h => absurd h List.not_mem_nil) (fun _ _ h hs => List.forall_mem_cons.mpr ⟨h, hs⟩)
    (fun _ h => absurd h List.not_mem_nil) (fun _ _ h hs => List.forall_mem_cons.mpr ⟨h, hs⟩)
    (fun _ _ h => h) j

/-- The values directly inside. -/
def children : Json → List Json
  | array js => js
  | object fs => fs.map (·.2)
  | _ => []

/-- The same principle without a look at the shape. -/
@[elab_as_elim]
theorem induction_children {P : Json → Prop} (h : ∀ j : Json, (∀ c ∈ j.children, P c) → P j)
    (j : Json) : P j := by
  induction j using Json.induction with
  | array js ih => exact h _ ih
  | object fs ih =>
    refine h _ fun c hc => ?_
    obtain ⟨f, hf, rfl⟩ := List.mem_map.mp hc
    exact ih f hf
  | _ => exact h _ nofun

end TypedData.Json
