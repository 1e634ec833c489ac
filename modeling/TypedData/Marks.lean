import TypedData.Text.Quoted

/-!
# Marks

A mark is a tag that travels with a value, such as `sensitive`. A value has a set of marks;
the set is kept as its members in order, so that equal sets are equal lists.

## Main definitions

* `Marks` — sets of tags
* `Marks.insert`, `Marks.union` — adding tags

## Main results

* `Marks.mem_insert`, `Marks.mem_union` — membership after adding tags
-/

namespace TypedData

/-- A set of tags, in strictly increasing order. -/
structure Marks where
  toList : List String
  sorted : toList.Pairwise (· < ·)
deriving DecidableEq

namespace Marks

instance : Inhabited Marks := ⟨⟨[], .nil⟩⟩

/-- No marks. -/
def empty : Marks := ⟨[], .nil⟩

/-- Whether there are no marks. -/
def isEmpty (m : Marks) : Bool := m.toList.isEmpty

/-- Whether a tag is present. -/
def contains (m : Marks) (tag : String) : Bool := m.toList.contains tag

instance : Membership String Marks := ⟨fun m tag => tag ∈ m.toList⟩

theorem mem_iff {m : Marks} {tag : String} : tag ∈ m ↔ tag ∈ m.toList := Iff.rfl

/-- Puts a tag at its place in an increasing list. -/
def insertTag (tag : String) : List String → List String
  | [] => [tag]
  | t :: ts =>
    if tag < t then tag :: t :: ts
    else if tag = t then t :: ts
    else t :: insertTag tag ts

theorem mem_insertTag {tag x : String} {ts : List String} :
    x ∈ insertTag tag ts ↔ x = tag ∨ x ∈ ts := by
  induction ts with
  | nil => simp [insertTag]
  | cons t ts ih =>
    unfold insertTag
    split
    · simp
    · split
      · rename_i h
        subst h
        simp
      · simp only [List.mem_cons, ih]
        constructor
        · rintro (h | h | h) <;> simp [h]
        · rintro (h | h | h) <;> simp [h]

theorem pairwise_insertTag {tag : String} {ts : List String} (h : ts.Pairwise (· < ·)) :
    (insertTag tag ts).Pairwise (· < ·) := by
  induction ts with
  | nil => simp [insertTag]
  | cons t ts ih =>
    rw [List.pairwise_cons] at h
    unfold insertTag
    split
    · rename_i hlt
      refine List.pairwise_cons.mpr ⟨fun x hx => ?_, List.pairwise_cons.mpr h⟩
      rcases List.mem_cons.mp hx with rfl | hx
      · exact hlt
      · exact String.lt_trans hlt (h.1 x hx)
    · split
      · exact List.pairwise_cons.mpr h
      · rename_i hlt hne
        refine List.pairwise_cons.mpr ⟨fun x hx => ?_, ih h.2⟩
        rcases mem_insertTag.mp hx with rfl | hx
        · exact Std.lt_of_le_of_ne (Std.not_lt.mp hlt) (fun h => hne h.symm)
        · exact h.1 x hx

/-- Adds a tag. -/
def insert (tag : String) (m : Marks) : Marks :=
  ⟨insertTag tag m.toList, pairwise_insertTag m.sorted⟩

/-- The tags of either set. -/
def union (a b : Marks) : Marks := a.toList.foldr insert b

/-- The set of the tags in a list. -/
def ofList (tags : List String) : Marks := tags.foldr insert empty

instance : Union Marks := ⟨union⟩

@[simp] theorem not_mem_empty {tag : String} : ¬ tag ∈ empty := List.not_mem_nil

@[simp] theorem mem_insert {tag x : String} {m : Marks} : x ∈ insert tag m ↔ x = tag ∨ x ∈ m :=
  mem_insertTag

theorem mem_foldr_insert {tags : List String} {x : String} {m : Marks} :
    x ∈ tags.foldr insert m ↔ x ∈ tags ∨ x ∈ m := by
  induction tags with
  | nil => simp
  | cons t ts ih => simp [ih, or_assoc]

@[simp] theorem mem_union {x : String} {a b : Marks} : x ∈ a ∪ b ↔ x ∈ a ∨ x ∈ b :=
  mem_foldr_insert

@[simp] theorem mem_ofList {x : String} {tags : List String} : x ∈ ofList tags ↔ x ∈ tags := by
  simp [ofList, mem_foldr_insert]

/-- A mark for diagnostics. -/
def describe (tag : String) : String := "Mark(" ++ Text.quoted tag ++ ")"

end Marks

end TypedData
