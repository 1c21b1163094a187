import GroupingSets.Proofs.Encoding
import Mathlib.Data.List.Forall2
import GroupingSets.Batch

/-! The values of one record: where they stand, and that reading them never fails while every slot
holds a value of its type. -/
namespace GroupingSets

/-- Failures need not be told apart to see that there is none. -/
theorem ok_of_toOption {ε α : Type} {result : Except ε α} {a : α} (h : result.toOption = some a) :
    result = .ok a := by
  cases result with
  | error e => cases h
  | ok b =>
    cases h
    rfl

theorem error_of_toOption {ε α : Type} {result : Except ε α} (h : result.toOption = none) :
    ∃ e, result = .error e := by
  cases result with
  | error e => exact ⟨e, rfl⟩
  | ok a => cases h

/-- A list is worked off without an error exactly if each element is. -/
theorem mapM_eq_ok_iff {ε α β : Type} {f : α → Except ε β} {xs : List α} {ys : List β} :
    xs.mapM f = .ok ys ↔ List.Forall₂ (fun x y => f x = .ok y) xs ys := by
  induction xs generalizing ys with
  | nil =>
    rw [List.mapM_nil, List.forall₂_nil_left_iff]
    exact ⟨fun h => by cases h; rfl, fun h => by rw [h]; rfl⟩
  | cons x xs ih =>
    rw [List.mapM_cons]
    cases hx : f x with
    | error e =>
      constructor
      · intro h
        cases h
      · intro h
        cases h with
        | cons hy _ => rw [hx] at hy; cases hy
    | ok y =>
      cases hs : xs.mapM f with
      | error e =>
        constructor
        · intro h
          cases h
        · intro h
          cases h with
          | cons _ hr => rw [ih.mpr hr] at hs; cases hs
      | ok zs =>
        constructor
        · intro h
          cases h
          exact .cons hx (ih.mp hs)
        · intro h
          cases h with
          | cons hy hr =>
            rw [ih.mpr hr] at hs
            rw [hx] at hy
            cases hs
            cases hy
            rfl

/-- The same for the numbers below a bound, element by element. -/
theorem mapM_range_eq_ok_iff {ε β : Type} {f : Nat → Except ε β} {n : Nat} {ys : List β} :
    (List.range n).mapM f = .ok ys ↔ ys.length = n ∧ ∀ i y, ys[i]? = some y → f i = .ok y := by
  rw [mapM_eq_ok_iff, List.forall₂_iff_get]
  constructor
  · rintro ⟨hl, hf⟩
    rw [List.length_range] at hl
    refine ⟨hl.symm, fun i y hy => ?_⟩
    obtain ⟨hi, rfl⟩ := List.getElem?_eq_some_iff.mp hy
    simpa using hf i (by rw [List.length_range]; omega) hi
  · rintro ⟨hl, hf⟩
    refine ⟨by rw [List.length_range, hl], fun i hi hy => ?_⟩
    simpa using hf i _ (List.getElem?_eq_getElem hy)

theorem exists_mapM_range {ε β : Type} {f : Nat → Except ε β} {n : Nat}
    (h : ∀ i, i < n → ∃ y, f i = .ok y) : ∃ ys, (List.range n).mapM f = .ok ys := by
  induction n with
  | zero => exact ⟨[], rfl⟩
  | succ n ih =>
    obtain ⟨ys, hys⟩ := ih fun i hi => h i (Nat.lt_succ_of_lt hi)
    obtain ⟨y, hy⟩ := h n (Nat.lt_succ_self n)
    refine ⟨ys ++ [y], ?_⟩
    rw [List.range_succ, List.mapM_append, hys, List.mapM_cons, hy]
    rfl

namespace Layout

private theorem offset_le_succ (l : Layout) (i : Nat) : l.offset i ≤ l.offset (i + 1) := by
  cases h : l.slots[i]? with
  | some slot => rw [l.offset_succ h]; omega
  | none =>
    have hl := List.getElem?_eq_none_iff.mp h
    have he : l.offset i = l.offset (i + 1) := by
      rw [offset, offset, List.take_of_length_le hl, List.take_of_length_le (Nat.le_succ_of_le hl)]
    exact Nat.le_of_eq he

theorem offset_mono (l : Layout) {i k : Nat} (h : i ≤ k) : l.offset i ≤ l.offset k := by
  induction h with
  | refl => exact Nat.le_refl _
  | step _ ih => exact Nat.le_trans ih (l.offset_le_succ _)

theorem nullWidth_le_offset (l : Layout) (i : Nat) : l.nullWidth ≤ l.offset i :=
  l.offset_zero ▸ l.offset_mono (Nat.zero_le i)

/-- The value of a slot ends before that of every later slot starts. -/
private theorem offset_add_width_le (l : Layout) {i k : Nat} {slot : Slot} (h : l.slots[i]? = some slot)
    (hk : i < k) : l.offset i + slot.datatype.width ≤ l.offset k := by
  rw [← l.offset_succ h]
  exact l.offset_mono hk

theorem offset_add_width_le_recordWidth (l : Layout) {i : Nat} {slot : Slot}
    (h : l.slots[i]? = some slot) : l.offset i + slot.datatype.width ≤ l.recordWidth := by
  rw [← l.offset_numSlots]
  exact l.offset_add_width_le h (List.getElem?_eq_some_iff.mp h).1

theorem values_apart (l : Layout) {i k : Nat} {a b : Slot} (ha : l.slots[i]? = some a)
    (hb : l.slots[k]? = some b) (h : i ≠ k) :
    l.offset k + b.datatype.width ≤ l.offset i ∨ l.offset i + a.datatype.width ≤ l.offset k := by
  rcases Nat.lt_or_gt_of_ne h with hlt | hgt
  · exact Or.inr (l.offset_add_width_le ha hlt)
  · exact Or.inl (l.offset_add_width_le hb hgt)

theorem nullWidth_le_recordWidth (l : Layout) : l.nullWidth ≤ l.recordWidth := by
  rw [recordWidth]
  omega

/-- Every slot has its null bit. -/
private theorem bit_lt_nullWidth (l : Layout) {i : Nat} (h : i < l.numSlots) : i / 8 < l.nullWidth := by
  have := l.numSlots_le_nullBits
  omega

theorem bit_lt_of_slot (l : Layout) {i : Nat} {slot : Slot} (h : l.slots[i]? = some slot) : i / 8 < l.nullWidth :=
  l.bit_lt_nullWidth (List.getElem?_eq_some_iff.mp h).1

end Layout

namespace Row

def place (r : Row) (i : Nat) (slot : Slot) : List UInt8 :=
  (r.record.drop (r.layout.offset i)).take slot.datatype.width

/-- Every slot, null or not, holds a value of its type. -/
structure Sound (r : Row) : Prop where
  width : r.record.length = r.layout.recordWidth
  stored : ∀ i slot, r.layout.slots[i]? = some slot →
    ∃ v, Encoding.decode slot.datatype (r.place i slot) r.heap = .ok v

variable {r : Row}

theorem isNull_eq (hw : r.record.length = r.layout.recordWidth) (i : Nat) :
    r.isNull i =
      if i / 8 < r.layout.nullWidth then .ok (Bits.test (r.record.take r.layout.nullWidth).toArray i)
      else .error .span := by
  have := r.layout.nullWidth_le_recordWidth
  rw [isNull, Bits.get, List.size_toArray, List.length_take, Nat.min_eq_left (by omega)]

theorem value_eq {i : Nat} {slot : Slot} (hi : r.layout.slots[i]? = some slot) {null : Bool}
    (hn : r.isNull i = .ok null) :
    r.value i = if null then .ok .null else Encoding.decode slot.datatype (r.place i slot) r.heap := by
  rw [value, hi]
  dsimp only
  rw [hn]
  cases null <;> rfl

namespace Sound

theorem exists_isNull (h : r.Sound) {i : Nat} (hi : i < r.layout.numSlots) :
    ∃ null, r.isNull i = .ok null := by
  rw [isNull_eq h.width, if_pos (r.layout.bit_lt_nullWidth hi)]
  exact ⟨_, rfl⟩

/-- A slot reads as null or as a value of its type. -/
theorem exists_value (h : r.Sound) {i : Nat} {slot : Slot} (hi : r.layout.slots[i]? = some slot) :
    ∃ v, r.value i = .ok v ∧ (v = .null ∨ v.datatype? = some slot.datatype) := by
  obtain ⟨null, hn⟩ := h.exists_isNull (List.getElem?_eq_some_iff.mp hi).1
  obtain ⟨v, hv⟩ := h.stored i slot hi
  rw [value_eq hi hn]
  cases null with
  | true => exact ⟨.null, rfl, Or.inl rfl⟩
  | false => exact ⟨v, hv, Or.inr (Encoding.datatype?_decode hv)⟩

/-- The place of a slot of varying length, null or not, refers to the bytes of a value of its
type. -/
theorem exists_ref (h : r.Sound) {i : Nat} {slot : Slot} (hi : r.layout.slots[i]? = some slot)
    (ht : slot.datatype.isVarlen = true) :
    ∃ (ref : HeapRef) (v : Scalar), HeapRef.decode? (r.place i slot) = some ref ∧
      v.datatype? = some slot.datatype ∧ ref.resolve? r.heap = some v.payload := by
  obtain ⟨v, hv⟩ := h.stored i slot hi
  obtain ⟨ref, hd, hr⟩ := Encoding.exists_ref_of_decode ht hv
  exact ⟨ref, v, hd, Encoding.datatype?_decode hv, hr⟩

theorem exists_values (h : r.Sound) : ∃ vs, r.values = .ok vs :=
  exists_mapM_range fun i hi => by
    obtain ⟨v, hv, _⟩ := h.exists_value (List.getElem?_eq_getElem hi)
    exact ⟨v, hv⟩

/-- A longer heap changes no value. -/
theorem value_longer (h : r.Sound) {longer : Array UInt8} (hp : r.heap.toList <+: longer.toList)
    (i : Nat) : ({ r with heap := longer } : Row).value i = r.value i := by
  cases hi : r.layout.slots[i]? with
  | none => rw [value, value]; simp only [hi]
  | some slot =>
    obtain ⟨null, hn⟩ := h.exists_isNull (List.getElem?_eq_some_iff.mp hi).1
    obtain ⟨v, hv⟩ := h.stored i slot hi
    rw [value_eq hi hn, value_eq (r := { r with heap := longer }) hi hn]
    cases null with
    | true => rfl
    | false => exact (Encoding.decode_longer hv hp).trans hv.symm

theorem longer (h : r.Sound) {longer : Array UInt8} (hp : r.heap.toList <+: longer.toList) :
    ({ r with heap := longer } : Row).Sound where
  width := h.width
  stored i slot hi := by
    obtain ⟨v, hv⟩ := h.stored i slot hi
    exact ⟨v, Encoding.decode_longer hv hp⟩

end Sound

/-- The values of a row, slot by slot. -/
theorem values_eq_ok_iff {vs : List Scalar} :
    r.values = .ok vs ↔ vs.length = r.layout.numSlots ∧ ∀ i v, vs[i]? = some v → r.value i = .ok v :=
  mapM_range_eq_ok_iff

/-- A record of zeros is sound. -/
theorem sound_zeros (l : Layout) (heap : Array UInt8) :
    (⟨l, List.replicate l.recordWidth 0, heap⟩ : Row).Sound where
  width := List.length_replicate
  stored i slot hi := by
    have hw : slot.datatype.width ≤ l.recordWidth - l.offset i := by
      have := l.offset_add_width_le_recordWidth hi
      omega
    rw [place, List.drop_replicate, List.take_replicate, Nat.min_eq_left hw]
    exact Encoding.exists_decode_zeros slot.datatype heap

end Row

end GroupingSets
