import Mathlib.Data.List.Basic
import TypedData.Proofs.Decimal.Plain
import TypedData.Proofs.Json.Lexing

/-!
# Numbers as JSON

Positional notation has no needless zeros in front and no bare sign or point, so that it is the
text of a JSON number.

## Main results

* `Json.Token.isNumber_plain` — positional notation is the text of a number
* `Json.Token.isNumber_repr` — so are the digits of a natural number
-/

namespace TypedData.Json.Token

open Decimal

/-- Only zero has a zero in front. -/
theorem eq_zero_of_head_toDigits {n : Nat} (h : (Nat.toDigits 10 n).head? = some '0') : n = 0 := by
  induction n using Nat.strongRecOn with
  | ind n ih =>
    by_cases hn : n < 10
    · rw [Nat.toDigits_of_lt_base hn, List.head?_cons, Option.some.injEq] at h
      exact Nat.digitChar_eq_zero.mp h
    · rw [Nat.toDigits_of_base_le (by decide) (by omega),
        List.head?_append_of_ne_nil _ Nat.toDigits_ne_nil] at h
      have := ih (n / 10) (by omega) h
      omega

/-- A zero in front of the digits before the point is the only one of them. -/
theorem head_plainDigits {n : Nat} {scale : Int} (hzero : n = 0 → scale ≤ 0 → scale = 0)
    (h : (plainDigits n scale).1.head? = some '0') : (plainDigits n scale).1 = ['0'] ∧
      (n = 0 ∨ (plainDigits n scale).2 ≠ none) := by
  simp only [plainDigits] at h ⊢
  split at h
  · rename_i hscale
    rw [List.head?_append_of_ne_nil _ Nat.toDigits_ne_nil] at h
    obtain rfl := eq_zero_of_head_toDigits h
    rw [if_pos hscale, hzero rfl hscale]
    exact ⟨rfl, .inl rfl⟩
  · rename_i hscale
    rw [if_neg hscale]
    split at h
    · rename_i hplaces
      have hdigits : (Nat.toDigits 10 n).head? = some '0' := by
        rw [List.head?_take] at h
        split at h
        · cases h
        · exact h
      obtain rfl := eq_zero_of_head_toDigits hdigits
      have hlength : (Nat.toDigits 10 0).length = 1 := by decide
      omega
    · rename_i hplaces
      rw [if_neg hplaces]
      exact ⟨rfl, .inr (Option.some_ne_none _)⟩

/-- There are digits after every point. -/
theorem fraction_plainDigits {n : Nat} {scale : Int} {ds : List Char}
    (h : (plainDigits n scale).2 = some ds) : ds ≠ [] := by
  simp only [plainDigits] at h
  split at h
  · cases h
  · split at h
    · obtain rfl := Option.some.inj h
      rw [ne_eq, List.drop_eq_nil_iff]
      omega
    · obtain rfl := Option.some.inj h
      exact fun hnil => Nat.toDigits_ne_nil (List.append_eq_nil_iff.mp hnil).2

/-- Positional notation is the text of a number. -/
theorem isNumber_plain (d : Decimal) : IsNumber d.plain.toList := by
  obtain ⟨hne, hwhole, hfraction⟩ :=
    isDigit_plainDigits d.normalize.digits.natAbs d.normalize.scale
  have hnormal (hdigits : d.normalize.digits.natAbs = 0) (_ : d.normalize.scale ≤ 0) :
      d.normalize.scale = 0 := by
    have hzero : d.digits = 0 := normalize_digits_eq_zero_iff.mp (Int.natAbs_eq_zero.mp hdigits)
    rw [normalize_of_digits_eq_zero hzero]
  have htext : d.plain.toList = (if decide (d.normalize.digits < 0) then ['-'] else []) ++
      ((plainDigits d.normalize.digits.natAbs d.normalize.scale).1 ++
        Literal.fractionText (plainDigits d.normalize.digits.natAbs d.normalize.scale).2) := by
    rw [toList_plain, Literal.text_eq]
    simp only [plainLiteral, Literal.exponentText, List.append_nil, decide_eq_true_eq]
    split <;> simp [Sign.textOf]
  rw [htext]
  refine isNumber_of_parts hne hwhole (fun hhead => ?_)
    (fun ds hds => ⟨fraction_plainDigits hds, hfraction ds hds⟩) fun hneg hzero => ?_
  · rw [(head_plainDigits hnormal hhead).1]
    decide
  · -- A negative number has a digit other than zero.
    rw [decide_eq_true_eq] at hneg
    exact (head_plainDigits hnormal (hzero ▸ rfl)).2.resolve_left (by omega)

/-- So are the digits of a natural number. -/
theorem isNumber_repr (n : Nat) : IsNumber (Nat.repr n).toList := by
  have hdigits : ∀ c ∈ Nat.toDigits 10 n, c.isDigit := fun _ => isDigit_of_mem_toDigits
  have := @isNumber_of_parts false (Nat.toDigits 10 n) none Nat.toDigits_ne_nil hdigits
    (fun hhead => by rw [eq_zero_of_head_toDigits hhead]; decide) nofun nofun
  rw [Nat.repr, String.toList_ofList]
  simpa [Literal.fractionText] using this

end TypedData.Json.Token
