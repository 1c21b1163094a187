import GroupingSets.Batch
import GroupingSets.Proofs.Arena
import GroupingSets.Proofs.Row

/-! What each write does to a draft. A write to a slot, whether it succeeds or fails, leaves the other
slots of the record and every other record, and extends the heap at most. -/
namespace GroupingSets.Draft

def row (d : Draft) : Row :=
  ⟨d.layout, Region.slice d.batch.arena.fixed (d.index * d.batch.arena.stride) d.batch.arena.stride,
    d.batch.arena.heap⟩

/-- The record that is written is the last one, and as wide as the layout wants it. -/
structure Valid (d : Draft) : Prop where
  arena : d.batch.arena.Valid
  stride : d.batch.arena.stride = d.layout.recordWidth
  last : d.index + 1 = d.batch.arena.len

structure Grown (d e : Draft) : Prop where
  index : e.index = d.index
  layout : e.batch.layout = d.batch.layout
  capacity : e.batch.capacity = d.batch.capacity
  arena : d.batch.arena.Grown e.batch.arena

theorem Grown.refl (d : Draft) : Grown d d := ⟨rfl, rfl, rfl, .refl _⟩

private theorem Grown.trans {a b c : Draft} (hab : Grown a b) (hbc : Grown b c) : Grown a c where
  index := hbc.index.trans hab.index
  layout := hbc.layout.trans hab.layout
  capacity := hbc.capacity.trans hab.capacity
  arena := hab.arena.trans hbc.arena

variable {d e : Draft}

theorem Grown.slot (h : Grown d e) (i : Nat) : e.layout.slots[i]? = d.layout.slots[i]? := by
  rw [Draft.layout, h.layout]
  rfl

theorem Valid.index_lt (h : d.Valid) : d.index < d.batch.arena.len := by
  have := h.last
  omega

theorem Valid.record (h : d.Valid) : d.batch.arena.record d.index = .ok d.row.record :=
  Arena.record_of_lt h.index_lt

theorem Valid.width (h : d.Valid) : d.row.record.length = d.row.layout.recordWidth := by
  rw [row, Region.length_slice (h.arena.record_end h.index_lt)]
  exact h.stride

/-- The slot at `i` may have been written, and nothing else of the record. -/
structure Writes (i : Nat) (d e : Draft) : Prop where
  valid : e.Valid
  grown : Grown d e
  isNull : ∀ k, k ≠ i → e.row.isNull k = d.row.isNull k
  place : ∀ k slot, k ≠ i → d.layout.slots[k]? = some slot → e.row.place k slot = d.row.place k slot

private theorem Writes.refl (h : d.Valid) (i : Nat) : Writes i d d :=
  ⟨h, .refl d, fun _ _ => rfl, fun _ _ _ _ => rfl⟩

private theorem Writes.trans {i : Nat} {f : Draft} (hde : Writes i d e) (hef : Writes i e f) :
    Writes i d f where
  valid := hef.valid
  grown := hde.grown.trans hef.grown
  isNull k hk := (hef.isNull k hk).trans (hde.isNull k hk)
  place k slot hk hs :=
    (hef.place k slot hk ((hde.grown.slot k).trans hs)).trans (hde.place k slot hk hs)

theorem Grown.heap (h : Grown d e) : d.row.heap.toList <+: e.row.heap.toList := h.arena.heap

theorem Grown.row_layout (h : Grown d e) : e.row.layout = d.row.layout := h.layout

/-- A write leaves the values of the other slots. -/
theorem Writes.value {i k : Nat} (h : Writes i d e) (hs : d.row.Sound) (hk : k ≠ i) :
    e.row.value k = d.row.value k := by
  cases hi : d.layout.slots[k]? with
  | none =>
    have hd : d.row.layout.slots[k]? = none := hi
    rw [Row.value, Row.value, h.grown.row_layout, hd]
  | some slot =>
    have hd : d.row.layout.slots[k]? = some slot := hi
    have he : e.row.layout.slots[k]? = some slot := by rw [h.grown.row_layout]; exact hd
    obtain ⟨null, hn⟩ := hs.exists_isNull (List.getElem?_eq_some_iff.mp hd).1
    obtain ⟨v, hv⟩ := hs.stored k slot hd
    rw [Row.value_eq hd hn, Row.value_eq he ((h.isNull k hk).trans hn), h.place k slot hk hi]
    cases null with
    | true => rfl
    | false => exact (Encoding.decode_longer hv h.grown.heap).trans hv.symm

/-- A record stays sound if the slot that was written holds a value of its type. -/
private theorem Writes.sound {i : Nat} (h : Writes i d e) (hs : d.row.Sound)
    (hi : ∀ slot, d.layout.slots[i]? = some slot →
      ∃ v, Encoding.decode slot.datatype (e.row.place i slot) e.row.heap = .ok v) : e.row.Sound where
  width := h.valid.width
  stored k slot hk := by
    rw [h.grown.row_layout] at hk
    by_cases hki : k = i
    · subst hki
      exact hi slot hk
    · obtain ⟨v, hv⟩ := hs.stored k slot hk
      rw [h.place k slot hki hk]
      exact ⟨v, Encoding.decode_longer hv h.grown.heap⟩

/-! Writing bytes and null bits. -/

theorem Valid.put (h : d.Valid) (offset : Nat) (bytes : List UInt8)
    (hb : offset + bytes.length ≤ d.layout.recordWidth) :
    ∃ e, d.put offset bytes = (.ok (), e) ∧ e.Valid ∧ Grown d e ∧
      e.row = { d.row with record := Region.splice d.row.record offset bytes } := by
  obtain ⟨a, ha⟩ : ∃ a, d.batch.arena.write d.index offset bytes = .ok a :=
    ⟨_, Arena.write_of_le h.index_lt (by rw [h.stride]; exact hb)⟩
  have hg := h.arena.grown_write h.last ha
  have hv : (d.withArena a).Valid := ⟨h.arena.write ha, hg.stride.trans h.stride, h.last.trans hg.len.symm⟩
  have hh : a.heap = d.batch.arena.heap := by
    obtain ⟨_, _, rfl⟩ := Arena.write_ok ha
    rfl
  have hr : (d.withArena a).row.record = Region.splice d.row.record offset bytes := by
    have he := hv.record.symm.trans (h.arena.record_write_self ha h.record)
    exact Except.ok.inj he
  refine ⟨d.withArena a, by rw [Draft.put, ha], hv, ⟨rfl, rfl, rfl, hg⟩, ?_⟩
  calc
    (d.withArena a).row = ⟨d.layout, (d.withArena a).row.record, a.heap⟩ := rfl
    _ = { d.row with record := Region.splice d.row.record offset bytes } := by rw [hr, hh]; rfl

/-- Bytes written at the place of a slot. -/
private theorem Valid.put_place (h : d.Valid) {i : Nat} {slot : Slot} {bytes : List UInt8}
    (hi : d.layout.slots[i]? = some slot) (hb : bytes.length = slot.datatype.width) :
    ∃ e, d.put (d.layout.offset i) bytes = (.ok (), e) ∧ Writes i d e ∧ e.row.place i slot = bytes ∧
      (∀ k, e.row.isNull k = d.row.isNull k) ∧ e.row.heap = d.row.heap := by
  have hle := d.layout.offset_add_width_le_recordWidth hi
  have hnw := d.layout.nullWidth_le_offset i
  obtain ⟨e, he, hv, hg, hr⟩ := h.put (d.layout.offset i) bytes (by omega)
  have hf : d.layout.offset i + bytes.length ≤ d.row.record.length := by
    rw [h.width]
    exact hb ▸ hle
  have hn (k : Nat) : e.row.isNull k = d.row.isNull k := by
    rw [Row.isNull, Row.isNull, hr]
    have ht : ((Region.splice d.row.record (d.layout.offset i) bytes).drop 0).take d.layout.nullWidth =
        (d.row.record.drop 0).take d.layout.nullWidth := Region.take_drop_splice_other hf (by omega)
    simp only [List.drop_zero] at ht
    exact congrArg (fun nulls => Bits.get (List.toArray nulls) k) ht
  refine ⟨e, he, ⟨hv, hg, fun k _ => hn k, fun k other hk ho => ?_⟩, ?_, hn, by rw [hr]⟩
  · rw [Row.place, Row.place, hr]
    exact Region.take_drop_splice_other hf (by rw [hb]; exact d.layout.values_apart hi ho (Ne.symm hk))
  · rw [Row.place, hr, ← hb]
    exact Region.take_drop_splice_same hf

/-- Bytes written over the null bits leave the values. -/
private theorem Valid.put_nulls (h : d.Valid) (bytes : List UInt8) (hb : bytes.length = d.layout.nullWidth) :
    ∃ e, d.put 0 bytes = (.ok (), e) ∧ e.Valid ∧ Grown d e ∧
      (∀ k slot, d.layout.slots[k]? = some slot → e.row.place k slot = d.row.place k slot) ∧
      (∀ k, e.row.isNull k = Bits.get bytes.toArray k) ∧ e.row.heap = d.row.heap := by
  have hnw := d.layout.nullWidth_le_recordWidth
  obtain ⟨e, he, hv, hg, hr⟩ := h.put 0 bytes (by omega)
  have hf : 0 + bytes.length ≤ d.row.record.length := by
    rw [h.width, Nat.zero_add, hb]
    exact hnw
  refine ⟨e, he, hv, hg, fun k slot _ => ?_, fun k => ?_, by rw [hr]⟩
  · have := d.layout.nullWidth_le_offset k
    rw [Row.place, Row.place, hr]
    exact Region.take_drop_splice_other hf (Or.inr (by rw [Nat.zero_add, hb]; exact this))
  · have ht := Region.take_drop_splice_same hf
    rw [List.drop_zero, hb] at ht
    rw [Row.isNull, hr]
    exact congrArg (fun nulls => Bits.get (List.toArray nulls) k) ht

/-! The null bits. -/

theorem Valid.putNull (h : d.Valid) {i : Nat} (hi : i / 8 < d.layout.nullWidth) (null : Bool) :
    ∃ e, d.putNull i null = (.ok (), e) ∧ Writes i d e ∧ e.row.isNull i = .ok null ∧
      (∀ k slot, d.layout.slots[k]? = some slot → e.row.place k slot = d.row.place k slot) ∧
      e.row.heap = d.row.heap := by
  have hw : (d.row.record.take d.layout.nullWidth).length = d.layout.nullWidth := by
    have := d.layout.nullWidth_le_recordWidth
    have hl : d.row.record.length = d.layout.recordWidth := h.width
    rw [List.length_take]
    omega
  have hs : (d.row.record.take d.layout.nullWidth).toArray.size = d.layout.nullWidth := hw
  obtain ⟨bits, hb⟩ :
      ∃ bits, Bits.set (d.row.record.take d.layout.nullWidth).toArray i null = .ok bits :=
    ⟨_, dif_pos (by rw [hs]; exact hi)⟩
  have hbs := Bits.size_set hb
  obtain ⟨e, he, hv, hg, hp, hn, hh⟩ := h.put_nulls bits.toList (by
    rw [Array.length_toList, hbs, hs])
  have hk (k : Nat) : e.row.isNull k = if k = i then .ok null else d.row.isNull k := by
    rw [hn, Row.isNull_eq h.width, Bits.get, Array.toArray_toList, hbs, hs]
    by_cases hki : k = i
    · rw [if_pos hki, hki, if_pos hi, Bits.test_set hb, if_pos rfl]
    · rw [if_neg hki, Bits.test_set hb, if_neg hki]
      rfl
  refine ⟨e, ?_, ⟨hv, hg, fun k hne => by rw [hk, if_neg hne], fun k slot _ hs => hp k slot hs⟩,
    by rw [hk, if_pos rfl], hp, hh⟩
  rw [Draft.putNull, h.record]
  dsimp only
  rw [hb]
  exact he

/-- Behind the null bits there is no bit to write. -/
private theorem Valid.putNull_fault (h : d.Valid) {i : Nat} (hi : ¬ i / 8 < d.layout.nullWidth) (null : Bool) :
    d.putNull i null = (.error (.fault .span), d) := by
  have hw : (d.row.record.take d.layout.nullWidth).toArray.size ≤ d.layout.nullWidth := by
    rw [List.size_toArray, List.length_take]
    omega
  rw [Draft.putNull, h.record]
  dsimp only
  rw [Bits.set, dif_neg (by omega)]

theorem Valid.putNull_writes (h : d.Valid) (hs : d.row.Sound) {i : Nat} {null : Bool}
    {result : Except Failure Unit} (hw : d.putNull i null = (result, e)) :
    Writes i d e ∧ e.row.Sound := by
  by_cases hi : i / 8 < d.layout.nullWidth
  · obtain ⟨f, hf, hwr, _, hp, hh⟩ := h.putNull hi null
    rw [hf] at hw
    cases hw
    refine ⟨hwr, hwr.sound hs fun slot hslot => ?_⟩
    rw [hp i slot hslot, hh]
    exact hs.stored i slot hslot
  · rw [h.putNull_fault hi] at hw
    cases hw
    exact ⟨.refl h i, hs⟩

theorem Valid.clearNulls (h : d.Valid) :
    ∃ e, d.clearNulls = (.ok (), e) ∧ e.Valid ∧ Grown d e ∧
      (∀ k slot, d.layout.slots[k]? = some slot → e.row.place k slot = d.row.place k slot) ∧
      e.row.heap = d.row.heap := by
  obtain ⟨e, he, hv, hg, hp, _, hh⟩ :=
    h.put_nulls (List.replicate d.layout.nullWidth 0) List.length_replicate
  exact ⟨e, he, hv, hg, hp, hh⟩

theorem Valid.clearNulls_sound (h : d.Valid) (hs : d.row.Sound) {result : Except Failure Unit}
    (hw : d.clearNulls = (result, e)) : e.Valid ∧ Grown d e ∧ e.row.Sound ∧ e.row.heap = d.row.heap := by
  obtain ⟨f, hf, hv, hg, hp, hh⟩ := h.clearNulls
  rw [hf] at hw
  cases hw
  refine ⟨hv, hg, ⟨hv.width, fun k slot hk => ?_⟩, hh⟩
  rw [hg.row_layout] at hk
  rw [hp k slot hk, hh]
  exact hs.stored k slot hk

/-! Values. -/

inductive Refused (slot : Slot) (v : Scalar) : Error → Prop
  | null : v = .null → slot.nullable = false → Refused slot v (.nullForNonNullable slot.id)
  | mismatch {e : Error} : v ≠ .null → v.datatype? ≠ some slot.datatype → Refused slot v e
  | overflow (wanted : Nat) : v.datatype? = some slot.datatype → Refused slot v (.heapOverflow wanted)
  | limit (wanted available limit : Nat) : v.datatype? = some slot.datatype →
    Refused slot v (.heapLimit wanted available limit)

/-- The value of the slot at `i` is in its place, its bytes of varying length are at the end of the
heap, and no null bit changed. -/
structure Placed (i : Nat) (slot : Slot) (v : Scalar) (d e : Draft) : Prop where
  writes : Writes i d e
  isNull : ∀ k, e.row.isNull k = d.row.isNull k
  datatype : v.datatype? = some slot.datatype
  decode : Encoding.decode slot.datatype (e.row.place i slot) e.row.heap = .ok v
  heap : e.row.heap.toList = d.row.heap.toList ++ v.payload

theorem Valid.putFixed (h : d.Valid) {i : Nat} {slot : Slot} {v : Scalar} {bytes : List UInt8}
    (hi : d.layout.slots[i]? = some slot) (hb : Encoding.fixedBytes slot.datatype v = .ok bytes) :
    ∃ e, d.put (d.layout.offset i) bytes = (.ok (), e) ∧ Placed i slot v d e := by
  obtain ⟨e, he, hw, hp, hn, hh⟩ := h.put_place hi (Encoding.length_fixedBytes hb)
  refine ⟨e, he, hw, hn, (Encoding.exists_fixedBytes_iff.mp ⟨bytes, hb⟩).1, ?_, ?_⟩
  · have hd := Encoding.decode_fixedBytes hb [] e.row.heap
    rwa [List.append_nil, ← hp] at hd
  · rw [hh, Encoding.payload_of_fixedBytes hb, List.append_nil]

theorem Valid.putVarlen (h : d.Valid) {i : Nat} {slot : Slot} {v : Scalar} {bytes : List UInt8}
    {ref : HeapRef} {arena : Arena} (hi : d.layout.slots[i]? = some slot)
    (hb : Encoding.varlenBytes slot.datatype v = .ok bytes)
    (ha : d.batch.arena.pushHeap bytes = (.ok ref, arena)) :
    ∃ e, (d.withArena arena).put (d.layout.offset i) ref.encode = (.ok (), e) ∧ Placed i slot v d e := by
  have hg := Arena.grown_pushHeap ha
  have hv : (d.withArena arena).Valid :=
    ⟨h.arena.pushHeap ha, hg.stride.trans h.stride, h.last.trans hg.len.symm⟩
  have hf : arena.fixed = d.batch.arena.fixed := by
    obtain ⟨_, _, _, _, rfl⟩ := Arena.pushHeap_ok ha
    rfl
  have hr : (d.withArena arena).row = { d.row with heap := arena.heap } := by
    have hrw : (d.withArena arena).row =
        ⟨d.layout, Region.slice arena.fixed (d.index * arena.stride) arena.stride, arena.heap⟩ := rfl
    rw [hrw, hf, hg.stride]
    rfl
  obtain ⟨hdt, ht⟩ := Encoding.exists_varlenBytes_iff.mp ⟨bytes, hb⟩
  have hl : ref.encode.length = slot.datatype.width := by
    rw [HeapRef.length_encode]
    cases hs : slot.datatype <;> rw [hs] at ht <;> first | rfl | cases ht
  have hw : Writes i d (d.withArena arena) := by
    refine ⟨hv, ⟨rfl, rfl, rfl, hg⟩, fun k _ => ?_, fun k other _ _ => ?_⟩ <;> rw [hr] <;> rfl
  obtain ⟨e, he, hwe, hp, hn, hh⟩ := hv.put_place (i := i) hi hl
  refine ⟨e, he, hw.trans hwe, fun k => (hn k).trans (by rw [hr]; rfl), hdt, ?_, ?_⟩
  · have hd := Encoding.decode_encode_ref hb (Arena.resolve?_pushHeap ha) []
    rw [List.append_nil, ← hp] at hd
    rw [hh, hr]
    exact hd
  · rw [hh, hr, Encoding.payload_of_varlenBytes hb]
    exact Arena.toList_heap_pushHeap ha

theorem Valid.putValue_cases (h : d.Valid) {i : Nat} {slot : Slot}
    (hi : d.layout.slots[i]? = some slot) {v : Scalar} (hv : v ≠ .null) :
    (∃ err, d.putValue i slot v = (.error (.error err), d) ∧ Refused slot v err) ∨
      ∃ e, d.putValue i slot v = (.ok (), e) ∧ Placed i slot v d e := by
  unfold putValue
  split
  · next ht =>
    split
    · next err hb =>
      refine Or.inl ⟨err, rfl, .mismatch hv fun hd => ?_⟩
      obtain ⟨bytes, hb'⟩ := Encoding.exists_varlenBytes_iff.mpr ⟨hd, ht⟩
      rw [hb'] at hb
      cases hb
    · next bytes hb =>
      have hd := (Encoding.exists_varlenBytes_iff.mp ⟨bytes, hb⟩).1
      split
      · next err arena ha =>
        have hsame : arena = d.batch.arena := Arena.pushHeap_error ha
        refine Or.inl ⟨err, by rw [hsame]; rfl, ?_⟩
        rcases Arena.pushHeap_error_cases ha with ⟨w, rfl⟩ | ⟨w, a, l, rfl⟩
        · exact .overflow w hd
        · exact .limit w a l hd
      · next ref arena ha => exact Or.inr (h.putVarlen hi hb ha)
  · next ht =>
    split
    · next err hb =>
      refine Or.inl ⟨err, rfl, .mismatch hv fun hd => ?_⟩
      obtain ⟨bytes, hb'⟩ := Encoding.exists_fixedBytes_iff.mpr ⟨hd, by simpa using ht⟩
      rw [hb'] at hb
      cases hb
    · next bytes hb => exact Or.inr (h.putFixed hi hb)

structure Stored (i : Nat) (v : Scalar) (d e : Draft) : Prop where
  writes : Writes i d e
  sound : e.row.Sound
  value : e.row.value i = .ok v
  heap : e.row.heap.toList = d.row.heap.toList ++ v.payload

/-- Every slot can be made null. -/
theorem Valid.putNull_stored (h : d.Valid) (hs : d.row.Sound) {i : Nat} {slot : Slot}
    (hi : d.layout.slots[i]? = some slot) : ∃ e, d.putNull i true = (.ok (), e) ∧ Stored i .null d e := by
  obtain ⟨e, he, hw, hn, _, hh⟩ := h.putNull (d.layout.bit_lt_of_slot hi) true
  have hi' : e.row.layout.slots[i]? = some slot := (hw.grown.slot i).trans hi
  refine ⟨e, he, hw, (h.putNull_writes hs he).2, Row.value_eq hi' hn, ?_⟩
  rw [hh]
  exact (List.append_nil _).symm

theorem writeValue_null {i : Nat} {slot : Slot} (hi : d.layout.slots[i]? = some slot) :
    d.writeValue i .null =
      if slot.nullable then d.putNull i true else (.error (.error (.nullForNonNullable slot.id)), d) := by
  rw [writeValue, hi]
  rfl

/-- A value other than null is written once the slot has lost its null bit. -/
theorem writeValue_of_ne_null {i : Nat} {slot : Slot} (hi : d.layout.slots[i]? = some slot) {v : Scalar}
    (hv : v ≠ .null) (he : d.putNull i false = (.ok (), e)) : d.writeValue i v = e.putValue i slot v := by
  rw [writeValue, hi]
  dsimp only
  rw [if_neg fun hn => hv (Scalar.isNull_iff.mp hn), he]

/-- What writing a value into a slot can come to. -/
theorem Valid.writeValue_cases (h : d.Valid) (hs : d.row.Sound) {i : Nat} {slot : Slot}
    (hi : d.layout.slots[i]? = some slot) (v : Scalar) :
    (∃ err e, d.writeValue i v = (.error (.error err), e) ∧ Refused slot v err ∧ Writes i d e ∧
        e.row.Sound) ∨
      ∃ e, d.writeValue i v = (.ok (), e) ∧ Stored i v d e := by
  by_cases hv : v = .null
  · subst hv
    rw [writeValue_null hi]
    split
    · exact Or.inr (h.putNull_stored hs hi)
    · next hnull => exact Or.inl ⟨_, d, rfl, .null rfl (by simpa using hnull), .refl h i, hs⟩
  · obtain ⟨e, he, hw, hn, _, hh⟩ := h.putNull (d.layout.bit_lt_of_slot hi) false
    have hs' := (h.putNull_writes hs he).2
    have hi' : e.layout.slots[i]? = some slot := (hw.grown.slot i).trans hi
    rw [writeValue_of_ne_null hi hv he]
    rcases hw.valid.putValue_cases hi' hv with ⟨err, hr, href⟩ | ⟨f, hr, hp⟩
    · exact Or.inl ⟨err, e, hr, href, hw, hs'⟩
    · have hif : f.row.layout.slots[i]? = some slot := (hp.writes.grown.slot i).trans hi'
      refine Or.inr ⟨f, hr, hw.trans hp.writes, hp.writes.sound hs' fun other ho => ?_, ?_, ?_⟩
      · rw [hi'] at ho
        cases ho
        exact ⟨v, hp.decode⟩
      · rw [Row.value_eq hif ((hp.isNull i).trans hn)]
        exact hp.decode
      · rw [hp.heap, hh]

theorem Valid.stored_writeValue (h : d.Valid) (hs : d.row.Sound) {i : Nat} {slot : Slot}
    (hi : d.layout.slots[i]? = some slot) {v : Scalar} (hw : d.writeValue i v = (.ok (), e)) :
    Stored i v d e := by
  rcases h.writeValue_cases hs hi v with ⟨_, f, hf, _⟩ | ⟨f, hf, hst⟩
  · rw [hf] at hw
    cases hw
  · rw [hf] at hw
    cases hw
    exact hst

/-- Only a nullable slot takes null as its value. -/
theorem nullable_of_writeValue {i : Nat} {slot : Slot} (hi : d.layout.slots[i]? = some slot)
    (h : d.writeValue i .null = (.ok (), e)) : slot.nullable = true := by
  rw [writeValue_null hi] at h
  split at h
  · assumption
  · cases h

/-- A number is written once the slot has lost its null bit. -/
private theorem writeInteger_of_putNull {i : Nat} {slot : Slot} (hi : e.layout.slots[i]? = some slot)
    (he : d.putNull i false = (.ok (), e)) (n : Int64) :
    d.writeInteger i n =
      match Encoding.integerBytes slot.datatype n with
      | .error err => (.error (.error err), e)
      | .ok bytes => e.put (e.layout.offset i) bytes := by
  cases hb : Encoding.integerBytes slot.datatype n <;> simp only [writeInteger, he, hi, hb]

/-- A number that does not fit has cost its slot the null bit and nothing else. -/
theorem Valid.writeInteger_of_error (h : d.Valid) {i : Nat} {slot : Slot} (hi : d.layout.slots[i]? = some slot)
    {n : Int64} {err : Error} (hb : Encoding.integerBytes slot.datatype n = .error err) :
    ∃ e, d.putNull i false = (.ok (), e) ∧ d.writeInteger i n = (.error (.error err), e) := by
  obtain ⟨e, he, hw, _⟩ := h.putNull (d.layout.bit_lt_of_slot hi) false
  have hi' : e.layout.slots[i]? = some slot := (hw.grown.slot i).trans hi
  exact ⟨e, he, by simp only [writeInteger_of_putNull hi' he, hb]⟩

/-- A number that fits takes the place of its slot. -/
theorem Valid.writeInteger_of_bytes (h : d.Valid) {i : Nat} {slot : Slot} (hi : d.layout.slots[i]? = some slot)
    {n : Int64} {bytes : List UInt8} (hb : Encoding.integerBytes slot.datatype n = .ok bytes) :
    ∃ e, d.writeInteger i n = (.ok (), e) ∧ Writes i d e ∧ e.row.place i slot = bytes ∧
      e.row.isNull i = .ok false ∧ e.row.heap = d.row.heap := by
  obtain ⟨e, he, hw, hn, _, hh⟩ := h.putNull (d.layout.bit_lt_of_slot hi) false
  have hi' : e.layout.slots[i]? = some slot := (hw.grown.slot i).trans hi
  obtain ⟨f, hf, hwf, hplace, hnf, hhf⟩ := hw.valid.put_place hi' (Encoding.length_integerBytes hb)
  refine ⟨f, ?_, hw.trans hwf, hplace, (hnf i).trans hn, hhf.trans hh⟩
  simp only [writeInteger_of_putNull hi' he, hb, hf]

/-- What writing a number into a slot can come to. -/
theorem Valid.writeInteger_cases (h : d.Valid) (hs : d.row.Sound) {i : Nat} {slot : Slot}
    (hi : d.layout.slots[i]? = some slot) (n : Int64) :
    (∃ err e, d.writeInteger i n = (.error (.error err), e) ∧
        Encoding.integerFits slot.datatype n = false ∧ Writes i d e ∧ e.row.Sound) ∨
      ∃ e, d.writeInteger i n = (.ok (), e) ∧ Encoding.integerFits slot.datatype n = true ∧
        Stored i (.ofInteger slot.datatype n) d e := by
  have hfits := Encoding.exists_integerBytes_iff (t := slot.datatype) (n := n)
  cases hb : Encoding.integerBytes slot.datatype n with
  | error err =>
    obtain ⟨e, he, hr⟩ := h.writeInteger_of_error hi hb
    obtain ⟨hw, hs'⟩ := h.putNull_writes hs he
    have hnot : ¬ Encoding.integerFits slot.datatype n = true := by
      rw [← hfits, hb]
      rintro ⟨_, hbytes⟩
      cases hbytes
    exact Or.inl ⟨err, e, hr, by simpa using hnot, hw, hs'⟩
  | ok bytes =>
    obtain ⟨e, hr, hw, hp, hn, hh⟩ := h.writeInteger_of_bytes hi hb
    have hd : Encoding.decode slot.datatype (e.row.place i slot) e.row.heap =
        .ok (.ofInteger slot.datatype n) := by
      have := Encoding.decode_integerBytes hb [] e.row.heap
      rwa [List.append_nil, ← hp] at this
    have hie : e.row.layout.slots[i]? = some slot := (hw.grown.slot i).trans hi
    refine Or.inr ⟨e, hr, hfits.mp ⟨bytes, hb⟩, hw, hw.sound hs fun other ho => ?_, ?_, ?_⟩
    · rw [hi] at ho
      cases ho
      exact ⟨_, hd⟩
    · rw [Row.value_eq hie hn]
      exact hd
    · rw [hh, Scalar.payload_ofInteger, List.append_nil]

theorem Valid.stored_writeInteger (h : d.Valid) (hs : d.row.Sound) {i : Nat} {slot : Slot}
    (hi : d.layout.slots[i]? = some slot) {n : Int64} (hw : d.writeInteger i n = (.ok (), e)) :
    Encoding.integerFits slot.datatype n = true ∧ Stored i (.ofInteger slot.datatype n) d e := by
  rcases h.writeInteger_cases hs hi n with ⟨_, f, hf, _⟩ | ⟨f, hf, hst⟩
  · rw [hf] at hw
    cases hw
  · rw [hf] at hw
    cases hw
    exact hst

/-! Any writes. -/

structure Kept (d e : Draft) : Prop where
  valid : e.Valid
  grown : Grown d e
  sound : e.row.Sound

theorem Kept.refl (h : d.Valid) (hs : d.row.Sound) : Kept d d := ⟨h, .refl d, hs⟩

theorem Kept.trans {f : Draft} (hde : Kept d e) (hef : Kept e f) : Kept d f :=
  ⟨hef.valid, hde.grown.trans hef.grown, hef.sound⟩

private theorem Writes.kept {i : Nat} (h : Writes i d e) (hs : e.row.Sound) : Kept d e := ⟨h.valid, h.grown, hs⟩

private theorem Stored.kept {i : Nat} {v : Scalar} (h : Stored i v d e) : Kept d e := h.writes.kept h.sound

theorem Valid.kept_writeValue (h : d.Valid) (hs : d.row.Sound) (i : Nat) (v : Scalar) :
    Kept d (d.writeValue i v).2 := by
  cases hi : d.layout.slots[i]? with
  | none =>
    rw [writeValue, hi]
    exact .refl h hs
  | some slot =>
    rcases h.writeValue_cases hs hi v with ⟨_, e, he, _, hw, hse⟩ | ⟨e, he, hst⟩
    · rw [he]
      exact hw.kept hse
    · rw [he]
      exact hst.kept

private theorem Valid.kept_putNull (h : d.Valid) (hs : d.row.Sound) (i : Nat) (null : Bool) :
    Kept d (d.putNull i null).2 := by
  obtain ⟨hw, hse⟩ := h.putNull_writes (e := (d.putNull i null).2) hs rfl
  exact hw.kept hse

private theorem Valid.kept_clearNulls (h : d.Valid) (hs : d.row.Sound) : Kept d d.clearNulls.2 := by
  obtain ⟨hv, hg, hse, _⟩ := h.clearNulls_sound (e := d.clearNulls.2) hs rfl
  exact ⟨hv, hg, hse⟩

private theorem Valid.kept_writeInteger (h : d.Valid) (hs : d.row.Sound) (i : Nat) (n : Int64) :
    Kept d (d.writeInteger i n).2 := by
  cases hi : d.layout.slots[i]? with
  | none =>
    have hk := h.kept_putNull hs i false
    unfold writeInteger
    split
    · next hr => rwa [hr] at hk
    · next u e hr =>
      rw [hr] at hk
      have hl : e.layout.slots[i]? = none := (hk.grown.slot i).trans hi
      rw [hl]
      exact hk
  | some slot =>
    rcases h.writeInteger_cases hs hi n with ⟨_, e, he, _, hw, hse⟩ | ⟨e, he, _, hst⟩
    · rw [he]
      exact hw.kept hse
    · rw [he]
      exact hst.kept

/-- A value is written into its slot, also when it is refused. -/
theorem Valid.writes_writeValue (h : d.Valid) (hs : d.row.Sound) (i : Nat) (v : Scalar) :
    Writes i d (d.writeValue i v).2 := by
  cases hi : d.layout.slots[i]? with
  | none =>
    rw [writeValue, hi]
    exact .refl h i
  | some slot =>
    rcases h.writeValue_cases hs hi v with ⟨_, e, he, _, hw, _⟩ | ⟨e, he, hst⟩
    · rw [he]
      exact hw
    · rw [he]
      exact hst.writes

theorem Valid.writes_writeInteger (h : d.Valid) (hs : d.row.Sound) (i : Nat) (n : Int64) :
    Writes i d (d.writeInteger i n).2 := by
  cases hi : d.layout.slots[i]? with
  | none =>
    obtain ⟨hw, _⟩ := h.putNull_writes (e := (d.putNull i false).2) hs rfl
    unfold writeInteger
    split
    · next hr => rwa [hr] at hw
    · next u e hr =>
      rw [hr] at hw
      have hl : e.layout.slots[i]? = none := (hw.grown.slot i).trans hi
      rw [hl]
      exact hw
  | some slot =>
    rcases h.writeInteger_cases hs hi n with ⟨_, e, he, _, hw, _⟩ | ⟨e, he, _, hst⟩
    · rw [he]
      exact hw
    · rw [he]
      exact hst.writes

/-- Null bits are not among the bytes of the values. -/
theorem Valid.place_putNull (h : d.Valid) (i : Nat) (null : Bool) {k : Nat} {slot : Slot}
    (hk : d.layout.slots[k]? = some slot) :
    (d.putNull i null).2.row.place k slot = d.row.place k slot := by
  by_cases hi : i / 8 < d.layout.nullWidth
  · obtain ⟨e, he, _, _, hp, _⟩ := h.putNull hi null
    rw [he]
    exact hp k slot hk
  · rw [h.putNull_fault hi]

/-- Whatever is written, and whether or not it succeeds, the record stays sound. -/
theorem Valid.kept_write (h : d.Valid) (hs : d.row.Sound) (w : Write) : Kept d (d.write w).2 := by
  cases w with
  | value i v => exact h.kept_writeValue hs i v
  | integer i n => exact h.kept_writeInteger hs i n
  | null i => exact h.kept_putNull hs i true
  | notNull i => exact h.kept_putNull hs i false
  | clearNulls => exact h.kept_clearNulls hs

/-! Values in a row. -/

/-- Values were written into the slots from `i` on: they are read back, the slots before are as they
were, and the heap got their bytes in order. -/
structure Filled (i : Nat) (values : List Scalar) (d e : Draft) : Prop where
  kept : Kept d e
  before : ∀ k, k < i → e.row.value k = d.row.value k
  value : ∀ j v, values[j]? = some v → e.row.value (i + j) = .ok v
  heap : e.row.heap.toList = d.row.heap.toList ++ values.flatMap Scalar.payload

theorem Filled.nil (h : d.Valid) (hs : d.row.Sound) (i : Nat) : Filled i [] d d where
  kept := .refl h hs
  before _ _ := rfl
  value j v hj := by rw [List.getElem?_nil] at hj; cases hj
  heap := (List.append_nil _).symm

theorem Filled.cons {f : Draft} {i : Nat} {v : Scalar} {rest : List Scalar} (hs : d.row.Sound)
    (hst : Stored i v d e) (h : Filled (i + 1) rest e f) : Filled i (v :: rest) d f where
  kept := hst.kept.trans h.kept
  before k hk := by rw [h.before k (by omega), hst.writes.value hs (by omega)]
  value j w hj := by
    cases j with
    | zero =>
      cases hj
      rw [Nat.add_zero, h.before i (Nat.lt_succ_self i)]
      exact hst.value
    | succ j =>
      rw [show i + (j + 1) = i + 1 + j by omega]
      exact h.value j w hj
  heap := by rw [h.heap, hst.heap, List.flatMap_cons, List.append_assoc]

theorem Filled.append {f : Draft} {i k : Nat} {values more : List Scalar} (hv : Filled i values d e)
    (hk : k = i + values.length) (hm : Filled k more e f) : Filled i (values ++ more) d f where
  kept := hv.kept.trans hm.kept
  before n hn := by rw [hm.before n (by omega), hv.before n hn]
  value j v hj := by
    rw [List.getElem?_append] at hj
    split at hj
    · next hlt => rw [hm.before (i + j) (by omega), hv.value j v hj]
    · next hge =>
      rw [show i + j = k + (j - values.length) by omega]
      exact hm.value _ v hj
  heap := by rw [hm.heap, hv.heap, List.flatMap_append, List.append_assoc]

/-- Once all slots are written, the row has the values. -/
theorem Filled.values {values : List Scalar} (h : Filled 0 values d e)
    (hl : values.length = d.layout.numSlots) : e.row.values = .ok values := by
  refine Row.values_eq_ok_iff.mpr ⟨?_, fun i v hi => ?_⟩
  · rw [hl, h.kept.grown.row_layout]
    rfl
  · have hv := h.value i v hi
    rwa [Nat.zero_add] at hv

end GroupingSets.Draft
