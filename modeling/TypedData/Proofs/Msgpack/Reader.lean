import TypedData.Proofs.Msgpack.RoundTrip

/-!
# What is read

Lengths on the wire take up at most four bytes and integers at most eight, so whatever is read
fits the format.

## Main definitions

* `Msgpack.Reading.Gives` — what holds of everything that a step takes

## Main results

* `Msgpack.gives_readValue` — what is read fits the format
-/

namespace TypedData.Msgpack

/-! ### Steps of a reader -/

namespace Reading

variable {α β : Type} {P Q : α → Prop} {R : β → Prop}

/-- Whatever a step takes satisfies `P`. -/
def Gives (r : Reading α) (P : α → Prop) : Prop :=
  ∀ bytes a rest, r bytes = .ok (a, rest) → P a

theorem gives_pure {a : α} (h : P a) : Gives (Reading.pure a) P := by
  intro bytes b rest hb
  obtain ⟨rfl, -⟩ := Prod.mk.inj (Except.ok.inj hb)
  exact h

theorem gives_fail (e : ReadError) : Gives (Reading.fail e) P := nofun

theorem Gives.bind {r : Reading α} {f : α → Reading β} (hr : Gives r P)
    (hf : ∀ a, P a → Gives (f a) R) : Gives (r >>= f) R := by
  intro bytes b rest hb
  cases ha : r bytes with
  | error e =>
    rw [bind_of_error ha] at hb
    cases hb
  | ok p =>
    obtain ⟨a, rest'⟩ := p
    rw [bind_of_ok ha] at hb
    exact hf a (hr _ _ _ ha) _ _ _ hb

theorem Gives.imp {r : Reading α} (hr : Gives r P) (h : ∀ a, P a → Q a) : Gives r Q :=
  fun bytes a rest ha => h a (hr bytes a rest ha)

end Reading

open Reading

theorem length_of_splitBytes? {n : Nat} {bytes front rest : List UInt8}
    (h : splitBytes? n bytes = some (front, rest)) : front.length = n := by
  induction n generalizing bytes front rest with
  | zero =>
    obtain ⟨rfl, -⟩ := Prod.mk.inj (Option.some.inj h)
    rfl
  | succ n ih =>
    cases bytes with
    | nil => cases h
    | cons b bytes =>
      obtain ⟨⟨front', rest'⟩, hfront, heq⟩ := Option.map_eq_some_iff.mp h
      obtain ⟨rfl, rfl⟩ := Prod.mk.inj heq
      rw [List.length_cons, ih hfront]

theorem gives_takeBytes (n : Nat) : Gives (takeBytes n) fun bytes => bytes.length = n := by
  intro bytes front rest h
  rw [takeBytes] at h
  split at h
  · obtain rfl := Except.ok.inj h
    exact length_of_splitBytes? ‹_›
  · cases h

/-- Each byte more multiplies the bound by 256. -/
theorem foldl_bytes_lt (bytes : List UInt8) (n : Nat) :
    bytes.foldl (fun n b => n * 256 + b.toNat) n < (n + 1) * Nat.pow 256 bytes.length := by
  induction bytes generalizing n with
  | nil => simp
  | cons b bytes ih =>
    have hb : b.toNat < 256 := b.toNat_lt
    have hpow : Nat.pow 256 (bytes.length + 1) = Nat.pow 256 bytes.length * 256 := rfl
    calc (b :: bytes).foldl (fun n b => n * 256 + b.toNat) n
        < (n * 256 + b.toNat + 1) * Nat.pow 256 bytes.length := ih _
      _ ≤ ((n + 1) * 256) * Nat.pow 256 bytes.length := Nat.mul_le_mul_right _ (by omega)
      _ = (n + 1) * Nat.pow 256 (b :: bytes).length := by
        rw [List.length_cons, hpow, Nat.mul_assoc, Nat.mul_comm 256]

theorem gives_takeNat (n : Nat) : Gives (takeNat n) (· < Nat.pow 256 n) := by
  refine (gives_takeBytes n).bind fun bytes hbytes => gives_pure ?_
  have := foldl_bytes_lt bytes 0
  rwa [hbytes, Nat.zero_add, Nat.one_mul] at this

theorem gives_takeInt {n : Nat} (hn : 0 < n) : Gives (takeInt n) fun i =>
    -(Nat.pow 2 (8 * n - 1) : Int) ≤ i ∧ i < Nat.pow 2 (8 * n - 1) := by
  refine (gives_takeNat n).bind fun value hvalue => gives_pure ?_
  have hbytes : Nat.pow 256 n = Nat.pow 2 (8 * n) := by
    show 256 ^ n = 2 ^ (8 * n)
    rw [Nat.pow_mul]
  have hhalf : Nat.pow 2 (8 * n) = Nat.pow 2 (8 * n - 1) * 2 := by
    show 2 ^ (8 * n) = 2 ^ (8 * n - 1) * 2
    rw [← Nat.pow_succ, Nat.succ_eq_add_one, Nat.sub_add_cancel (by omega)]
  split <;> omega

/-! ### Markers -/

/-- A marker announces a length of at most four bytes or an integer of at most eight. -/
def Shape.Sized : Shape → Prop
  | value m => m.Fits
  | nat size => size ≤ 8
  | int size => 0 < size ∧ size ≤ 8
  | str n | bin n | array n | map n | ext n => n < 0x100000000
  | float32 | float64 => True

/-- A length in up to four bytes. -/
theorem gives_length {n : Nat} {f : Nat → Shape} (hn : n ≤ 4)
    (hf : ∀ k < 0x100000000, (f k).Sized) :
    Gives (do return f (← takeNat n)) Shape.Sized := by
  refine (gives_takeNat n).bind fun k hk => gives_pure (hf k ?_)
  exact Nat.lt_of_lt_of_le hk (Nat.pow_le_pow_right (n := 256) (by decide) hn)

theorem gives_takeShape {marker : Nat} (hmarker : marker < 0x100) :
    Gives (takeShape marker) Shape.Sized := by
  unfold takeShape
  split
  · exact gives_pure (.int (by omega) (by omega))
  split
  · exact gives_pure (show marker - 0x80 < 0x100000000 by omega)
  split
  · exact gives_pure (show marker - 0x90 < 0x100000000 by omega)
  split
  · exact gives_pure (show marker - 0xA0 < 0x100000000 by omega)
  split
  · exact gives_pure (.int (by omega) (by omega))
  split
  all_goals first
    | exact gives_length (by decide) fun _ hk => hk
    | refine gives_pure ?_
  all_goals first
    | exact Fits.bool _
    | exact Fits.nil
    | simp [Shape.Sized]

/-! ### Values -/

theorem gives_takeBin (budget n : Nat) :
    Gives (takeBin budget n) fun bytes => bytes.length = n := by
  rw [takeBin]
  split
  · exact gives_fail _
  · exact gives_takeBytes n

theorem gives_takeLeaf (budget : Nat) {shape : Shape} (h : shape.Sized) :
    Gives (takeLeaf budget shape) Fits := by
  cases shape with
  | value m => exact gives_pure h
  | nat size =>
    refine (gives_takeNat size).bind fun n hn => gives_pure (.int (by omega) ?_)
    have hword : Nat.pow 256 size ≤ 0x10000000000000000 :=
      Nat.pow_le_pow_right (n := 256) (by decide) (show size ≤ 8 from h)
    omega
  | int size =>
    have hword : Nat.pow 2 (8 * size - 1) ≤ 0x8000000000000000 :=
      Nat.pow_le_pow_right (n := 2) (by decide) (show 8 * size - 1 ≤ 63 by have := h.2; omega)
    exact (gives_takeInt h.1).bind fun i hi => gives_pure (.int (by omega) (by omega))
  | float32 => exact (gives_takeNat 4).bind fun _ _ => gives_pure (.float32 _)
  | float64 => exact (gives_takeNat 8).bind fun _ _ => gives_pure (.float64 _)
  | str size =>
    rw [takeLeaf, takeStr]
    split
    · exact gives_fail _
    · exact (gives_takeBin _ size).bind fun bytes hbytes => gives_pure (.str (hbytes ▸ h))
  | bin size =>
    exact (gives_takeBin _ size).bind fun bytes hbytes => gives_pure (.bin (hbytes ▸ h))
  | ext size =>
    rw [takeLeaf, takeExt]
    split
    · exact gives_fail _
    · refine (gives_takeInt (n := 1) (by decide)).bind fun tag htag =>
        (gives_takeBin _ size).bind fun bytes hbytes => gives_pure ?_
      exact .ext htag.1 htag.2 (hbytes ▸ h)
  | array size | map size => exact gives_fail _

theorem gives_takeItems {read : Reading Msgpack} (h : Gives read Fits) (n : Nat) :
    Gives (takeItems read n) fun ms => ms.length = n ∧ ∀ m ∈ ms, m.Fits := by
  induction n with
  | zero => exact gives_pure ⟨rfl, nofun⟩
  | succ n ih =>
    refine h.bind fun m hm => ih.bind fun ms hms => gives_pure ⟨by simp [hms.1], ?_⟩
    exact List.forall_mem_cons.mpr ⟨hm, hms.2⟩

theorem gives_takeEntries {read : Reading Msgpack} (h : Gives read Fits) (n : Nat) :
    Gives (takeEntries read n) fun es => es.length = n ∧ ∀ e ∈ es, e.1.Fits ∧ e.2.Fits := by
  induction n with
  | zero => exact gives_pure ⟨rfl, nofun⟩
  | succ n ih =>
    refine h.bind fun k hk => h.bind fun v hv => ih.bind fun es hes =>
      gives_pure ⟨by simp [hes.1], ?_⟩
    exact List.forall_mem_cons.mpr ⟨⟨hk, hv⟩, hes.2⟩

/-- What is read fits the format. -/
theorem gives_readValue (budget : Nat) : Gives (readValue budget) Fits := by
  induction budget using readValue.induct with
  | case1 => exact gives_fail _
  | case2 =>
    rw [readValue]
    exact (gives_takeNat 1).bind fun marker hmarker =>
      (gives_takeShape hmarker).bind fun shape hshape => gives_takeLeaf 0 hshape
  | case3 budget ih =>
    rw [readValue]
    refine (gives_takeNat 1).bind fun marker hmarker =>
      (gives_takeShape hmarker).bind fun shape hshape => ?_
    split
    · exact (gives_takeItems ih _).bind fun ms hms =>
        gives_pure (.array (hms.1 ▸ hshape) hms.2)
    · exact (gives_takeEntries ih _).bind fun es hes =>
        gives_pure (.map (hes.1 ▸ hshape) (fun e he => (hes.2 e he).1) fun e he => (hes.2 e he).2)
    · exact gives_takeLeaf _ hshape

end TypedData.Msgpack
