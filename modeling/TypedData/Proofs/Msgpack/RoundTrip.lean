import TypedData.Msgpack.Reader
import TypedData.Proofs.Msgpack.Induction

/-!
# Reading what was written

A value that fits the format is read back as it was written, whatever follows it, if the budget
pays for it; and under a smaller budget it is refused.

## Main definitions

* `Msgpack.Fits` — values with lengths below `2 ^ 32` and integers of a machine word
* `Msgpack.cost` — the least budget under which a value is read

## Main results

* `Msgpack.readValue_write` — reading undoes writing exactly where the budget suffices
-/

namespace TypedData.Msgpack

/-! ### Values that fit the format -/

/-- A value that the format has room for. -/
inductive Fits : Msgpack → Prop
  | nil : Fits nil
  | bool (b : Bool) : Fits (bool b)
  | int {n : Int} (hlower : -0x8000000000000000 ≤ n) (hupper : n < 0x10000000000000000) :
      Fits (int n)
  | float32 (bits : UInt32) : Fits (float32 bits)
  | float64 (f : Binary64) : Fits (float64 f)
  | str {bytes : List UInt8} (h : bytes.length < 0x100000000) : Fits (str bytes)
  | bin {bytes : List UInt8} (h : bytes.length < 0x100000000) : Fits (bin bytes)
  | array {items : List Msgpack} (h : items.length < 0x100000000) (hs : ∀ m ∈ items, Fits m) :
      Fits (array items)
  | map {entries : List (Msgpack × Msgpack)} (h : entries.length < 0x100000000)
      (hkeys : ∀ e ∈ entries, Fits e.1) (hvalues : ∀ e ∈ entries, Fits e.2) : Fits (map entries)
  | ext {tag : Int} {bytes : List UInt8} (hlower : -0x80 ≤ tag) (hupper : tag < 0x80)
      (h : bytes.length < 0x100000000) : Fits (ext tag bytes)

mutual

/-- The least budget under which a value is read. -/
def cost : Msgpack → Nat
  | str _ | ext _ _ => 3
  | bin _ => 2
  | array items => costOfItems items + 2
  | map entries => costOfEntries entries + 2
  | nil | bool _ | int _ | float32 _ | float64 _ => 1

/-- The greatest cost of several values. -/
def costOfItems : List Msgpack → Nat
  | [] => 0
  | m :: ms => max m.cost (costOfItems ms)

/-- The greatest cost of the keys and values of several entries. -/
def costOfEntries : List (Msgpack × Msgpack) → Nat
  | [] => 0
  | (k, v) :: rest => max (max k.cost v.cost) (costOfEntries rest)

end

theorem cost_pos (m : Msgpack) : 0 < m.cost := by
  cases m <;> simp [cost]

/-! ### Steps of a reader -/

namespace Reading

variable {α β : Type} {bytes rest : List UInt8} {a : α}

theorem bind_of_ok {r : Reading α} (h : r bytes = .ok (a, rest)) (f : α → Reading β) :
    (r >>= f) bytes = f a rest := by
  show bind r f bytes = _
  rw [bind, h]

theorem bind_of_error {r : Reading α} {e : ReadError} (h : r bytes = .error e)
    (f : α → Reading β) : (r >>= f) bytes = .error e := by
  show bind r f bytes = _
  rw [bind, h]

@[simp] theorem pure_apply (a : α) : (Pure.pure a : Reading α) bytes = .ok (a, bytes) := rfl

end Reading

theorem splitBytes?_append (bytes rest : List UInt8) :
    splitBytes? bytes.length (bytes ++ rest) = some (bytes, rest) := by
  induction bytes with
  | nil => rfl
  | cons b bytes ih => simp [splitBytes?, ih]

theorem takeBytes_append {n : Nat} {bytes : List UInt8} (h : bytes.length = n)
    (rest : List UInt8) : takeBytes n (bytes ++ rest) = .ok (bytes, rest) := by
  rw [takeBytes, ← h, splitBytes?_append]

@[simp] theorem length_bigEndian (count n : Nat) : (bigEndian count n).length = count := by
  induction count generalizing n with
  | zero => rfl
  | succ count ih => simp [bigEndian, ih]

theorem natOfBytes_bigEndian {count n : Nat} (h : n < Nat.pow 256 count) :
    natOfBytes (bigEndian count n) = n := by
  induction count generalizing n with
  | zero => exact (Nat.lt_one_iff.mp h).symm
  | succ count ih =>
    have hpow : Nat.pow 256 (count + 1) = Nat.pow 256 count * 256 := rfl
    have hdiv : n / 256 < Nat.pow 256 count := Nat.div_lt_of_lt_mul (by omega)
    have := ih hdiv
    rw [natOfBytes] at this
    rw [bigEndian, natOfBytes, List.foldl_append, this]
    simp only [List.foldl_cons, List.foldl_nil, UInt8.toNat_ofNat']
    omega

theorem takeNat_bigEndian {count n : Nat} (h : n < Nat.pow 256 count) (rest : List UInt8) :
    takeNat count (bigEndian count n ++ rest) = .ok (n, rest) := by
  rw [takeNat, Reading.bind_of_ok (takeBytes_append (length_bigEndian count n) rest),
    natOfBytes_bigEndian h]
  rfl

theorem takeNat_one (b : UInt8) (rest : List UInt8) :
    takeNat 1 (b :: rest) = .ok (b.toNat, rest) := by
  have htake : takeBytes 1 (b :: rest) = .ok ([b], rest) := rfl
  rw [takeNat, Reading.bind_of_ok htake]
  simp [natOfBytes]

/-- A number in two's complement. -/
theorem takeInt_bigEndian {count : Nat} {n : Int} (hcount : 0 < count)
    (hlower : -(Nat.pow 2 (8 * count - 1) : Int) ≤ n) (hupper : n < 0) (rest : List UInt8) :
    takeInt count (bigEndian count (n + Nat.pow 2 (8 * count)).toNat ++ rest) = .ok (n, rest) := by
  have hpow : Nat.pow 2 (8 * count) = Nat.pow 2 (8 * count - 1) * 2 := by
    show 2 ^ (8 * count) = 2 ^ (8 * count - 1) * 2
    rw [← Nat.pow_succ, Nat.succ_eq_add_one, Nat.sub_add_cancel (by omega)]
  have hbytes : Nat.pow 256 count = Nat.pow 2 (8 * count) := by
    show 256 ^ count = 2 ^ (8 * count)
    rw [Nat.pow_mul]
  rw [takeInt, Reading.bind_of_ok (takeNat_bigEndian (by omega) rest)]
  simp only [Reading.pure_apply]
  rw [if_neg (by omega)]
  congr 2
  omega

/-! ### Markers -/

/-- A marker with what it announces. -/
def takeHeader : Reading Shape := do takeShape (← takeNat 1)

theorem takeHeader_cons (b : UInt8) (rest : List UInt8) :
    takeHeader (b :: rest) = takeShape b.toNat rest := by
  rw [takeHeader, Reading.bind_of_ok (takeNat_one b rest)]

/-- A marker that a number follows. -/
theorem takeHeader_marked {marker : UInt8} {count n : Nat} {f : Nat → Shape}
    (hshape : takeShape marker.toNat = do return f (← takeNat count))
    (h : n < Nat.pow 256 count) (rest : List UInt8) :
    takeHeader (marked marker count n ++ rest) = .ok (f n, rest) := by
  rw [marked, List.cons_append, takeHeader_cons, hshape,
    Reading.bind_of_ok (takeNat_bigEndian h rest)]
  rfl

theorem takeHeader_strHeader {n : Nat} (h : n < 0x100000000) (rest : List UInt8) :
    takeHeader (strHeader n ++ rest) = .ok (.str n, rest) := by
  rw [strHeader]
  split
  · have hlead : (UInt8.ofNat (0xA0 + n)).toNat = 0xA0 + n := by
      rw [UInt8.toNat_ofNat']
      omega
    rw [List.singleton_append, takeHeader_cons, hlead]
    unfold takeShape
    rw [if_neg (by omega),
      if_neg (by omega), if_neg (by omega), if_pos (by omega), Nat.add_sub_cancel_left]
    rfl
  split
  · exact takeHeader_marked rfl ‹_› rest
  split
  · exact takeHeader_marked rfl ‹_› rest
  · exact takeHeader_marked rfl h rest

theorem takeHeader_binHeader {n : Nat} (h : n < 0x100000000) (rest : List UInt8) :
    takeHeader (binHeader n ++ rest) = .ok (.bin n, rest) := by
  rw [binHeader]
  split
  · exact takeHeader_marked rfl ‹_› rest
  split
  · exact takeHeader_marked rfl ‹_› rest
  · exact takeHeader_marked rfl h rest

theorem takeHeader_arrayHeader {n : Nat} (h : n < 0x100000000) (rest : List UInt8) :
    takeHeader (arrayHeader n ++ rest) = .ok (.array n, rest) := by
  rw [arrayHeader]
  split
  · have hlead : (UInt8.ofNat (0x90 + n)).toNat = 0x90 + n := by
      rw [UInt8.toNat_ofNat']
      omega
    rw [List.singleton_append, takeHeader_cons, hlead]
    unfold takeShape
    rw [if_neg (by omega),
      if_neg (by omega), if_pos (by omega), Nat.add_sub_cancel_left]
    rfl
  split
  · exact takeHeader_marked rfl ‹_› rest
  · exact takeHeader_marked rfl h rest

theorem takeHeader_mapHeader {n : Nat} (h : n < 0x100000000) (rest : List UInt8) :
    takeHeader (mapHeader n ++ rest) = .ok (.map n, rest) := by
  rw [mapHeader]
  split
  · have hlead : (UInt8.ofNat (0x80 + n)).toNat = 0x80 + n := by
      rw [UInt8.toNat_ofNat']
      omega
    rw [List.singleton_append, takeHeader_cons, hlead]
    unfold takeShape
    rw [if_neg (by omega),
      if_pos (by omega), Nat.add_sub_cancel_left]
    rfl
  split
  · exact takeHeader_marked rfl ‹_› rest
  · exact takeHeader_marked rfl h rest

theorem takeHeader_extHeader {n : Nat} (h : n < 0x100000000) (rest : List UInt8) :
    takeHeader (extHeader n ++ rest) = .ok (.ext n, rest) := by
  rw [extHeader]
  iterate 5
    split
    · rename_i hn
      rw [hn]
      rfl
  split
  · exact takeHeader_marked rfl ‹_› rest
  split
  · exact takeHeader_marked rfl ‹_› rest
  · exact takeHeader_marked rfl h rest

/-! ### Values without children -/

theorem takeHeader_bind {β : Type} {shape : Shape} {bytes rest : List UInt8}
    (h : takeHeader bytes = .ok (shape, rest)) (f : Shape → Reading β) :
    (takeNat 1 >>= fun marker => takeShape marker >>= f) bytes = f shape rest := by
  cases hmarker : takeNat 1 bytes with
  | error e =>
    rw [takeHeader, Reading.bind_of_error hmarker] at h
    cases h
  | ok marker =>
    rw [takeHeader, Reading.bind_of_ok hmarker] at h
    rw [Reading.bind_of_ok hmarker, Reading.bind_of_ok h]

variable {bytes rest : List UInt8} {budget : Nat}

/-- A value whose shape has no children. -/
theorem readValue_leaf {shape : Shape} (hheader : takeHeader bytes = .ok (shape, rest))
    (hshape : ∀ n, shape ≠ .array n ∧ shape ≠ .map n) :
    readValue (budget + 1) bytes = takeLeaf budget shape rest := by
  cases budget with
  | zero =>
    rw [readValue]
    exact takeHeader_bind hheader (takeLeaf 0)
  | succ budget =>
    rw [readValue]
    refine (takeHeader_bind hheader _).trans ?_
    cases shape with
    | array n => exact absurd rfl (hshape n).1
    | map n => exact absurd rfl (hshape n).2
    | _ => rfl

theorem readValue_value {m : Msgpack} (h : takeHeader bytes = .ok (.value m, rest)) :
    readValue (budget + 1) bytes = .ok (m, rest) := by
  rw [readValue_leaf h (by simp)]
  rfl

theorem readValue_nat {marker : UInt8} {size n : Nat}
    (hshape : takeShape marker.toNat = .pure (.nat size)) (h : n < Nat.pow 256 size) :
    readValue (budget + 1) (marked marker size n ++ rest) = .ok (int n, rest) := by
  have hheader : takeHeader (marked marker size n ++ rest) =
      .ok (.nat size, bigEndian size n ++ rest) := by
    rw [marked, List.cons_append, takeHeader_cons, hshape]
    rfl
  rw [readValue_leaf hheader (by simp), takeLeaf, Reading.bind_of_ok (takeNat_bigEndian h rest)]
  rfl

theorem readValue_int {marker : UInt8} {n : Int} (size : Nat)
    (hshape : takeShape marker.toNat = .pure (.int size)) (hsize : 0 < size)
    (hlower : -(Nat.pow 2 (8 * size - 1) : Int) ≤ n) (hupper : n < 0) :
    readValue (budget + 1) (marked marker size (n + Nat.pow 2 (8 * size)).toNat ++ rest) =
      .ok (int n, rest) := by
  have hheader : takeHeader (marked marker size (n + Nat.pow 2 (8 * size)).toNat ++ rest) =
      .ok (.int size, bigEndian size (n + Nat.pow 2 (8 * size)).toNat ++ rest) := by
    rw [marked, List.cons_append, takeHeader_cons, hshape]
    rfl
  rw [readValue_leaf hheader (by simp), takeLeaf,
    Reading.bind_of_ok (takeInt_bigEndian hsize hlower hupper rest)]
  rfl

/-- An integer of a machine word. -/
theorem readValue_writeInt {n : Int} (hlower : -0x8000000000000000 ≤ n)
    (hupper : n < 0x10000000000000000) :
    readValue (budget + 1) (writeInt n ++ rest) = .ok (int n, rest) := by
  rw [writeInt]
  split
  · rename_i hn
    obtain ⟨n, rfl⟩ := Int.eq_ofNat_of_zero_le hn
    simp only [Int.toNat_natCast]
    split
    · -- Small numbers are the leading byte itself.
      rename_i h
      have hlead : (UInt8.ofNat n).toNat = n := by
        rw [UInt8.toNat_ofNat']
        omega
      refine readValue_value ?_
      rw [List.singleton_append, takeHeader_cons, hlead]
      unfold takeShape
      rw [if_pos h]
      rfl
    split
    · exact readValue_nat rfl ‹_›
    split
    · exact readValue_nat rfl ‹_›
    split
    · exact readValue_nat rfl ‹_›
    · exact readValue_nat rfl (show n < 0x10000000000000000 by omega)
  rename_i hn
  split
  · rename_i h
    -- So are small negative numbers, as a two's complement.
    have hlead : (UInt8.ofNat (n + 0x100).toNat).toNat = (n + 0x100).toNat := by
      rw [UInt8.toNat_ofNat']
      omega
    refine readValue_value ?_
    rw [List.singleton_append, takeHeader_cons, hlead]
    unfold takeShape
    rw [if_neg (by omega), if_neg (by omega), if_neg (by omega), if_neg (by omega),
      if_pos (by omega)]
    have hcode : (((n + 0x100).toNat : Nat) : Int) - 0x100 = n := by omega
    rw [hcode]
    rfl
  split
  · exact readValue_int 1 rfl (by decide) ‹_› (by omega)
  split
  · exact readValue_int 2 rfl (by decide) ‹_› (by omega)
  split
  · exact readValue_int 4 rfl (by decide) ‹_› (by omega)
  · exact readValue_int 8 rfl (by decide) hlower (by omega)

theorem takeBin_append (hbudget : 0 < budget) :
    takeBin budget bytes.length (bytes ++ rest) = .ok (bytes, rest) := by
  rw [takeBin, if_neg (by omega)]
  exact takeBytes_append rfl rest

/-! ### Whole values -/

/-- The outcome of reading something that costs so much. -/
def outcome {α : Type} (cost budget : Nat) (a : α) (rest : List UInt8) :
    Except ReadError (α × List UInt8) :=
  if cost ≤ budget then .ok (a, rest) else .error .tooDeep

theorem outcome_of_le {α : Type} {cost budget : Nat} (h : cost ≤ budget) (a : α)
    (rest : List UInt8) : outcome cost budget a rest = .ok (a, rest) := if_pos h

theorem outcome_of_lt {α : Type} {cost budget : Nat} (h : budget < cost) (a : α)
    (rest : List UInt8) : outcome cost budget a rest = .error .tooDeep := if_neg (by omega)

theorem readValue_str (h : bytes.length < 0x100000000) :
    readValue budget ((str bytes).write ++ rest) = outcome 3 budget (str bytes) rest := by
  rw [write, List.append_assoc]
  match budget with
  | 0 => rfl
  | 1 =>
    rw [readValue_leaf (takeHeader_strHeader h _) (by simp)]
    rfl
  | 2 =>
    rw [readValue_leaf (takeHeader_strHeader h _) (by simp)]
    rfl
  | budget + 3 =>
    rw [readValue_leaf (takeHeader_strHeader h _) (by simp), takeLeaf, takeStr,
      if_neg (by omega), outcome_of_le (by omega), Reading.bind_of_ok (takeBin_append (by omega))]
    rfl

theorem readValue_bin (h : bytes.length < 0x100000000) :
    readValue budget ((bin bytes).write ++ rest) = outcome 2 budget (bin bytes) rest := by
  rw [write, List.append_assoc]
  match budget with
  | 0 => rfl
  | 1 =>
    rw [readValue_leaf (takeHeader_binHeader h _) (by simp)]
    rfl
  | budget + 2 =>
    rw [readValue_leaf (takeHeader_binHeader h _) (by simp), takeLeaf,
      outcome_of_le (by omega), Reading.bind_of_ok (takeBin_append (by omega))]
    rfl

theorem readValue_ext {tag : Int} (hlower : -0x80 ≤ tag) (hupper : tag < 0x80)
    (h : bytes.length < 0x100000000) :
    readValue budget ((ext tag bytes).write ++ rest) = outcome 3 budget (ext tag bytes) rest := by
  have htag : takeInt 1 (UInt8.ofNat (tag % 0x100).toNat :: (bytes ++ rest)) =
      .ok (tag, bytes ++ rest) := by
    have hlead : (UInt8.ofNat (tag % 0x100).toNat).toNat = (tag % 0x100).toNat := by
      rw [UInt8.toNat_ofNat']
      omega
    rw [takeInt, Reading.bind_of_ok (takeNat_one _ _), hlead]
    simp only [Reading.pure_apply]
    have hpow : Nat.pow 2 (8 * 1 - 1) = 0x80 ∧ Nat.pow 2 (8 * 1) = 0x100 := by decide
    rw [hpow.1, hpow.2]
    congr 2
    split <;> omega
  rw [write, List.append_assoc, List.cons_append]
  match budget with
  | 0 => rfl
  | 1 =>
    rw [readValue_leaf (takeHeader_extHeader h _) (by simp)]
    rfl
  | 2 =>
    rw [readValue_leaf (takeHeader_extHeader h _) (by simp), takeLeaf, takeExt,
      if_neg (by omega), Reading.bind_of_ok htag]
    rfl
  | budget + 3 =>
    rw [readValue_leaf (takeHeader_extHeader h _) (by simp), takeLeaf, takeExt,
      if_neg (by omega), Reading.bind_of_ok htag, outcome_of_le (by omega),
      Reading.bind_of_ok (takeBin_append (by omega))]
    rfl

theorem takeItems_writeItems {items : List Msgpack} {read : Reading Msgpack}
    (h : ∀ m ∈ items, ∀ rest, read (m.write ++ rest) = outcome m.cost budget m rest) :
    takeItems read items.length (writeItems items ++ rest) =
      outcome (costOfItems items) budget items rest := by
  induction items with
  | nil => rfl
  | cons m ms ih =>
    rw [List.forall_mem_cons] at h
    rw [writeItems, List.append_assoc, List.length_cons, takeItems, costOfItems]
    have hm := h.1 (writeItems ms ++ rest)
    by_cases hcost : m.cost ≤ budget
    · rw [outcome_of_le hcost] at hm
      rw [Reading.bind_of_ok hm]
      have hms := ih h.2
      by_cases hcosts : costOfItems ms ≤ budget
      · rw [outcome_of_le hcosts] at hms
        rw [Reading.bind_of_ok hms, outcome_of_le (by omega)]
        rfl
      · rw [outcome_of_lt (by omega)] at hms
        rw [Reading.bind_of_error hms, outcome_of_lt (by omega)]
    · rw [outcome_of_lt (by omega)] at hm
      rw [Reading.bind_of_error hm, outcome_of_lt (by omega)]

theorem takeEntries_writeEntries {entries : List (Msgpack × Msgpack)} {read : Reading Msgpack}
    (hkeys : ∀ e ∈ entries, ∀ rest, read (e.1.write ++ rest) = outcome e.1.cost budget e.1 rest)
    (hvalues : ∀ e ∈ entries, ∀ rest, read (e.2.write ++ rest) =
      outcome e.2.cost budget e.2 rest) :
    takeEntries read entries.length (writeEntries entries ++ rest) =
      outcome (costOfEntries entries) budget entries rest := by
  induction entries with
  | nil => rfl
  | cons e es ih =>
    obtain ⟨k, v⟩ := e
    rw [List.forall_mem_cons] at hkeys hvalues
    simp only [writeEntries, List.append_assoc, List.length_cons, takeEntries, costOfEntries]
    have hk := hkeys.1 (v.write ++ (writeEntries es ++ rest))
    have hv := hvalues.1 (writeEntries es ++ rest)
    have hes := ih hkeys.2 hvalues.2
    simp only at hk hv
    -- The first part that costs too much is refused, and then so are all entries.
    by_cases hkey : k.cost ≤ budget
    · rw [outcome_of_le hkey] at hk
      rw [Reading.bind_of_ok hk]
      by_cases hvalue : v.cost ≤ budget
      · rw [outcome_of_le hvalue] at hv
        rw [Reading.bind_of_ok hv]
        by_cases hcosts : costOfEntries es ≤ budget
        · rw [outcome_of_le hcosts] at hes
          rw [Reading.bind_of_ok hes, outcome_of_le (by omega)]
          rfl
        · rw [outcome_of_lt (by omega)] at hes
          rw [Reading.bind_of_error hes, outcome_of_lt (by omega)]
      · rw [outcome_of_lt (by omega)] at hv
        rw [Reading.bind_of_error hv, outcome_of_lt (by omega)]
    · rw [outcome_of_lt (by omega)] at hk
      rw [Reading.bind_of_error hk, outcome_of_lt (by omega)]

/-- An array pays for itself, and its items share what is left. -/
theorem readValue_array {items : List Msgpack} (hlength : items.length < 0x100000000)
    (h : ∀ m ∈ items, ∀ budget rest, readValue budget (m.write ++ rest) =
      outcome m.cost budget m rest) :
    readValue budget ((array items).write ++ rest) =
      outcome (array items).cost budget (array items) rest := by
  rw [write, List.append_assoc, cost]
  match budget with
  | 0 => rfl
  | 1 =>
    rw [readValue]
    exact takeHeader_bind (takeHeader_arrayHeader hlength _) (takeLeaf 0)
  | budget + 2 =>
    have hitems := @takeItems_writeItems rest budget items _ fun m hm => h m hm budget
    rw [readValue]
    refine (takeHeader_bind (takeHeader_arrayHeader hlength _) _).trans ?_
    by_cases hcost : costOfItems items ≤ budget
    · rw [outcome_of_le hcost] at hitems
      rw [outcome_of_le (by omega)]
      exact Reading.bind_of_ok hitems _
    · rw [outcome_of_lt (by omega)] at hitems
      rw [outcome_of_lt (by omega)]
      exact Reading.bind_of_error hitems _

/-- A map pays for itself, and its keys and values share what is left. -/
theorem readValue_map {entries : List (Msgpack × Msgpack)}
    (hlength : entries.length < 0x100000000)
    (hkeys : ∀ e ∈ entries, ∀ budget rest, readValue budget (e.1.write ++ rest) =
      outcome e.1.cost budget e.1 rest)
    (hvalues : ∀ e ∈ entries, ∀ budget rest, readValue budget (e.2.write ++ rest) =
      outcome e.2.cost budget e.2 rest) :
    readValue budget ((map entries).write ++ rest) =
      outcome (map entries).cost budget (map entries) rest := by
  rw [write, List.append_assoc, cost]
  match budget with
  | 0 => rfl
  | 1 =>
    rw [readValue]
    exact takeHeader_bind (takeHeader_mapHeader hlength _) (takeLeaf 0)
  | budget + 2 =>
    have hentries := @takeEntries_writeEntries rest budget entries _
      (fun e he => hkeys e he budget) fun e he => hvalues e he budget
    rw [readValue]
    refine (takeHeader_bind (takeHeader_mapHeader hlength _) _).trans ?_
    by_cases hcost : costOfEntries entries ≤ budget
    · rw [outcome_of_le hcost] at hentries
      rw [outcome_of_le (by omega)]
      exact Reading.bind_of_ok hentries _
    · rw [outcome_of_lt (by omega)] at hentries
      rw [outcome_of_lt (by omega)]
      exact Reading.bind_of_error hentries _

/-- What was written is read back exactly where the budget suffices, and is refused as too deep
elsewhere. -/
theorem readValue_write {m : Msgpack} (h : m.Fits) (budget : Nat) (rest : List UInt8) :
    readValue budget (m.write ++ rest) = outcome m.cost budget m rest := by
  -- Everything costs at least one, so a budget of zero refuses all of them.
  induction h generalizing budget rest with
  | str h => exact readValue_str h
  | bin h => exact readValue_bin h
  | ext hlower hupper h => exact readValue_ext hlower hupper h
  | array h _ ih => exact readValue_array h ih
  | map h _ _ ihk ihv => exact readValue_map h ihk ihv
  | int hlower hupper =>
    cases budget with
    | zero => rfl
    | succ budget => exact readValue_writeInt hlower hupper
  | float32 bits =>
    cases budget with
    | zero => rfl
    | succ budget =>
      have hheader : takeHeader ((float32 bits).write ++ rest) =
        .ok (.float32, bigEndian 4 bits.toNat ++ rest) := takeHeader_cons _ _
      rw [readValue_leaf hheader (by simp), takeLeaf,
        Reading.bind_of_ok (takeNat_bigEndian bits.toNat_lt rest)]
      simp [outcome, cost]
  | float64 f =>
    cases budget with
    | zero => rfl
    | succ budget =>
      have hheader : takeHeader ((float64 f).write ++ rest) =
        .ok (.float64, bigEndian 8 f.bits.toNat ++ rest) := takeHeader_cons _ _
      rw [readValue_leaf hheader (by simp), takeLeaf,
        Reading.bind_of_ok (takeNat_bigEndian f.bits.toNat_lt rest)]
      simp [outcome, cost]
  | nil =>
    cases budget with
    | zero => rfl
    | succ budget => exact readValue_value (takeHeader_cons _ _)
  | bool b =>
    cases budget with
    | zero => rfl
    | succ budget => cases b <;> exact readValue_value (takeHeader_cons _ _)

end TypedData.Msgpack
