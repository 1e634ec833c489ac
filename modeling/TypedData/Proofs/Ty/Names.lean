import TypedData.Proofs.Json.Lexing
import TypedData.Proofs.Ty.WellFormed
import TypedData.Ty.Name

/-!
# Names tell types apart

The name of a type is made from the names of the types inside it, set between words, brackets and
commas. It can be read back: no name of another type starts with it, whatever follows, as long as
no capsule type is inside, whose names are free. The order in which attributes are declared is part
of the name.

## Main definitions

* `Ty.EndsItself` — texts that tell where they end
* `Ty.joined` — several texts with commas between them

## Main results

* `Json.quoteChars_append_inj` — a quoted string tells where it ends
* `Ty.joined_append_inj` — so do several texts in brackets, if each of them does
* `Ty.endsItself_nameChars` — so does the name of a type
* `Ty.eq_of_name_eq` — types without capsules that have one name are one type
-/

namespace TypedData

/-- A quoted string tells where it ends. -/
theorem Json.quoteChars_append_inj {s s' : String} {cs cs' : List Char}
    (h : quoteChars s ++ cs = quoteChars s' ++ cs') : s = s' ∧ cs = cs' := by
  have hnext := congrArg Token.next? h
  rw [Token.next?_quoteChars, Token.next?_quoteChars] at hnext
  simpa using hnext

namespace Ty

/-! ### Texts that tell where they end -/

section Joined

variable {α : Type} {f : α → List Char} {P : α → Prop} {close : Char} {xs ys : List α}
  {cs cs' : List Char}

/-- Whether the text of `x` starts no text of anything else with the property `P`. -/
def EndsItself (f : α → List Char) (P : α → Prop) (x : α) : Prop :=
  ∀ y cs cs', P y → f x ++ cs = f y ++ cs' → x = y ∧ cs = cs'

theorem EndsItself.behind {x : α} {word : List Char} (hx : EndsItself f P x) (y : α) (hy : P y)
    (h : word ++ f x ++ cs = word ++ f y ++ cs') : x = y ∧ cs = cs' := by
  rw [List.append_assoc, List.append_assoc] at h
  exact hx y cs cs' hy (List.append_cancel_left h)

/-- Several texts with commas between them. -/
def joined (f : α → List Char) : List α → List Char
  | [] => []
  | x :: xs => f x ++ xs.flatMap fun y => ',' :: f y

/-- The texts after the first one, each behind a comma, up to the closing bracket. -/
theorem flatMap_comma_append_inj (hclose : close ≠ ',') (hxs : ∀ x ∈ xs, EndsItself f P x)
    (hys : ∀ y ∈ ys, P y)
    (h : (xs.flatMap fun x => ',' :: f x) ++ close :: cs =
      (ys.flatMap fun y => ',' :: f y) ++ close :: cs') : xs = ys ∧ cs = cs' := by
  induction xs generalizing ys with
  | nil =>
    cases ys with
    | nil => exact ⟨rfl, (List.cons.inj h).2⟩
    | cons y ys => exact absurd (List.cons.inj h).1 hclose
  | cons x xs ih =>
    rw [List.forall_mem_cons] at hxs
    cases ys with
    | nil => exact absurd (List.cons.inj h).1.symm hclose
    | cons y ys =>
      rw [List.forall_mem_cons] at hys
      simp only [List.flatMap_cons, List.cons_append, List.append_assoc] at h
      obtain ⟨rfl, hrest⟩ := hxs.1 y _ _ hys.1 (List.cons.inj h).2
      obtain ⟨rfl, rfl⟩ := ih hxs.2 hys.2 hrest
      exact ⟨rfl, rfl⟩

/-- Several texts in brackets tell where they end, if none of them starts with the closing one. -/
theorem joined_append_inj (hclose : close ≠ ',') (hstart : ∀ x cs cs', f x ++ cs ≠ close :: cs')
    (hxs : ∀ x ∈ xs, EndsItself f P x) (hys : ∀ y ∈ ys, P y)
    (h : joined f xs ++ close :: cs = joined f ys ++ close :: cs') : xs = ys ∧ cs = cs' := by
  cases xs with
  | nil =>
    cases ys with
    | nil => exact ⟨rfl, (List.cons.inj h).2⟩
    | cons y ys =>
      rw [joined, joined, List.append_assoc] at h
      exact absurd h.symm (hstart y _ _)
  | cons x xs =>
    cases ys with
    | nil =>
      rw [joined, joined, List.append_assoc] at h
      exact absurd h (hstart x _ _)
    | cons y ys =>
      rw [List.forall_mem_cons] at hxs hys
      rw [joined, joined, List.append_assoc, List.append_assoc] at h
      obtain ⟨rfl, hrest⟩ := hxs.1 y _ _ hys.1 h
      obtain ⟨rfl, rfl⟩ := flatMap_comma_append_inj hclose hxs.2 hys.2 hrest
      exact ⟨rfl, rfl⟩

end Joined

/-! ### Names -/

theorem namesOfElems_eq_joined (ts : List Ty) : namesOfElems ts = joined nameChars ts := by
  cases ts with
  | nil => rfl
  | cons t ts =>
    induction ts generalizing t with
    | nil => rw [namesOfElems, joined, List.flatMap_nil, List.append_nil]
    | cons u ts ih => rw [namesOfElems, ih, joined, joined, List.flatMap_cons, List.cons_append]

theorem namesOfAttrs_eq_joined (as : List (Attr Ty)) :
    namesOfAttrs as = joined namesOfAttr as := by
  cases as with
  | nil => rfl
  | cons a as =>
    induction as generalizing a with
    | nil => rw [namesOfAttrs, joined, List.flatMap_nil, List.append_nil]
    | cons b as ih => rw [namesOfAttrs, ih, joined, joined, List.flatMap_cons, List.cons_append]

/-- No name starts with a closing bracket. -/
theorem nameChars_append_ne_bracket (t : Ty) (cs cs' : List Char) :
    t.nameChars ++ cs ≠ ']' :: cs' := by
  cases t <;> simp [nameChars]

/-- No name starts like the mark of an optional attribute. -/
theorem nameChars_append_ne_optional (t : Ty) (cs cs' : List Char) :
    t.nameChars ++ cs ≠ 'o' :: 'p' :: cs' := by
  cases t <;> simp [nameChars]

/-- An attribute starts with its quoted name. -/
theorem namesOfAttr_append_ne_brace (a : Attr Ty) (cs cs' : List Char) :
    namesOfAttr a ++ cs ≠ '\x7d' :: cs' := by
  obtain ⟨name, t, o⟩ := a
  cases o <;> simp [namesOfAttr, Json.quoteChars]

/-- An attribute tells where it ends, if its type does. -/
theorem endsItself_namesOfAttr {a : Attr Ty}
    (ha : EndsItself nameChars (fun t => t.hasCapsule = false) a.ty) :
    EndsItself namesOfAttr (fun b => b.ty.hasCapsule = false) a := by
  obtain ⟨name, t, o⟩ := a
  rintro ⟨name', u, o'⟩ cs cs' hu h
  cases o <;> cases o' <;>
    simp only [namesOfAttr, List.append_assoc, List.cons_append, List.nil_append] at h <;>
    obtain ⟨rfl, htypes⟩ := Json.quoteChars_append_inj h <;>
    rw [List.cons.injEq] at htypes
  case false.false =>
    obtain ⟨rfl, rfl⟩ := ha u _ _ hu htypes.2
    exact ⟨rfl, rfl⟩
  case false.true => exact absurd htypes.2 (nameChars_append_ne_optional t _ _)
  case true.false => exact absurd htypes.2.symm (nameChars_append_ne_optional u _ _)
  case true.true =>
    simp only [List.cons.injEq, true_and] at htypes
    obtain ⟨rfl, hrest⟩ := ha u _ _ hu htypes
    exact ⟨rfl, (List.cons.inj hrest).2⟩

/-- What holds of a type whenever it holds of the types directly inside holds of every one. -/
@[elab_as_elim]
theorem induction {P : Ty → Prop} (bool : P bool) (number : P number) (string : P string)
    (dynamic : P dynamic) (list : ∀ t, P t → P (list t)) (set : ∀ t, P t → P (set t))
    (map : ∀ t, P t → P (map t)) (tuple : ∀ ts, (∀ t ∈ ts, P t) → P (tuple ts))
    (object : ∀ as, (∀ a ∈ as, P a.ty) → P (object as)) (capsule : ∀ c, P (capsule c))
    (t : Ty) : P t :=
  @Ty.rec P (fun ts => ∀ t ∈ ts, P t) (fun as => ∀ a ∈ as, P a.ty) (fun a => P a.ty)
    bool number string dynamic list set map tuple object capsule
    (fun _ h => absurd h List.not_mem_nil) (fun _ _ h hs => List.forall_mem_cons.mpr ⟨h, hs⟩)
    (fun _ h => absurd h List.not_mem_nil) (fun _ _ h hs => List.forall_mem_cons.mpr ⟨h, hs⟩)
    (fun _ _ _ h => h) t

/-- The name of a type tells where it ends, among those of types without capsules. -/
theorem endsItself_nameChars (t : Ty) :
    EndsItself nameChars (fun u => u.hasCapsule = false) t := by
  -- The first two letters of a name tell which sort of type it is.
  induction t using Ty.induction with
  | bool | number | string | dynamic =>
    intro u cs cs' _ h
    cases u <;> simp [nameChars] at h ⊢
    exact h
  | list t ih =>
    intro u cs cs' hu h
    cases u with
    | list u =>
      obtain ⟨rfl, rfl⟩ := ih.behind u hu h
      exact ⟨rfl, rfl⟩
    | _ => simp [nameChars] at h
  | set t ih =>
    intro u cs cs' hu h
    cases u with
    | set u =>
      obtain ⟨rfl, rfl⟩ := ih.behind u hu h
      exact ⟨rfl, rfl⟩
    | _ => simp [nameChars] at h
  | map t ih =>
    intro u cs cs' hu h
    cases u with
    | map u =>
      obtain ⟨rfl, rfl⟩ := ih.behind u hu h
      exact ⟨rfl, rfl⟩
    | _ => simp [nameChars] at h
  | tuple ts ih =>
    intro u cs cs' hu h
    cases u with
    | tuple us =>
      rw [hasCapsule, anyCapsule_eq_any, List.any_eq_false] at hu
      simp only [nameChars, namesOfElems_eq_joined, List.append_assoc] at h
      obtain ⟨rfl, hrest⟩ := joined_append_inj (by decide) nameChars_append_ne_bracket ih
        (fun u hmem => eq_false_of_ne_true (hu u hmem)) (List.append_cancel_left h)
      exact ⟨rfl, (List.cons.inj hrest).2⟩
    | _ => simp [nameChars] at h
  | object as ih =>
    intro u cs cs' hu h
    cases u with
    | object bs =>
      rw [hasCapsule, anyCapsuleAttr_eq_any, List.any_eq_false] at hu
      simp only [nameChars, namesOfAttrs_eq_joined, List.append_assoc] at h
      obtain ⟨rfl, hrest⟩ := joined_append_inj (by decide) namesOfAttr_append_ne_brace
        (fun a ha => endsItself_namesOfAttr (ih a ha))
        (fun b hmem => eq_false_of_ne_true (hu b hmem)) (List.append_cancel_left h)
      exact ⟨rfl, (List.cons.inj hrest).2⟩
    | _ => simp [nameChars] at h
  | capsule c =>
    intro u cs cs' hu h
    cases u with
    | capsule => cases hu
    | _ => simp [nameChars] at h

/-- No other type has the name of a type without capsules. The same attributes declared in another
order make another type, though an equal one. -/
theorem eq_of_name_eq {t u : Ty} (hu : u.hasCapsule = false) (h : t.name = u.name) :
    t = u ∧ (u.WellFormed → t == u) := by
  have hchars : t.nameChars ++ [] = u.nameChars ++ [] :=
    congrArg (· ++ []) (String.ofList_injective h)
  obtain ⟨rfl, -⟩ := endsItself_nameChars t u [] [] hu hchars
  exact ⟨rfl, fun hself => hself.same_refl⟩

/-- An attribute that is declared again keeps its place and takes the new type. -/
theorem eq_of_name_eq_declared_again :
    ofAttributes [("a", string), ("b", list bool), ("a", number)] =
        object [⟨"a", number, false⟩, ⟨"b", list bool, false⟩] ∧
      ofAttributes [("a", string), ("b", list bool), ("a", number)] ==
        object [⟨"a", number, false⟩, ⟨"b", list bool, false⟩] := by
  have hname : (ofAttributes [("a", string), ("b", list bool), ("a", number)]).name =
      (object [⟨"a", number, false⟩, ⟨"b", list bool, false⟩]).name := by rfl
  have hself : (object [⟨"a", number, false⟩, ⟨"b", list bool, false⟩]).WellFormed := by
    refine .object (by decide) ?_ ?_ <;>
      simp only [List.forall_mem_cons, List.not_mem_nil, false_implies, implies_true, and_true]
    · exact ⟨by decide, by decide⟩
    · exact ⟨.number, .list .bool⟩
  obtain ⟨heq, hsame⟩ := eq_of_name_eq rfl hname
  exact ⟨heq, hsame hself⟩

/-- The order of declaration is part of the name, though not of equality. -/
example : (object [⟨"a", bool, false⟩, ⟨"b", number, false⟩] ==
      object [⟨"b", number, false⟩, ⟨"a", bool, false⟩]) ∧
    (object [⟨"a", bool, false⟩, ⟨"b", number, false⟩]).name ≠
      (object [⟨"b", number, false⟩, ⟨"a", bool, false⟩]).name := by decide

end Ty

end TypedData
