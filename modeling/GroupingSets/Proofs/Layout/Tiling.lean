import GroupingSets.Proofs.Row

/-! How the null bits and the values share the bytes of a record. The values stand in slot order behind the null bits,
each as wide as its type, and every byte is one of the null bits or of exactly one value. -/
namespace GroupingSets.Layout

/-! Where the values start. -/

/-- The starts of the values of some slots, the first of them at `start`, and the end of the last one, in a single
pass. -/
def placed (start : Nat) : List Slot → List Nat × Nat
  | [] => ([], start)
  | slot :: rest =>
    let (starts, stop) := placed (start + slot.datatype.width) rest
    (start :: starts, stop)

private theorem placed_stop (start : Nat) (slots : List Slot) : (placed start slots).2 = start + widthOf slots := by
  induction slots generalizing start with
  | nil => rfl
  | cons slot rest ih => simp [placed, widthOf, ih, Nat.add_assoc]

private theorem placed_starts (start : Nat) (slots : List Slot) :
    (placed start slots).1 = (List.range slots.length).map fun i => start + widthOf (slots.take i) := by
  induction slots generalizing start with
  | nil => rfl
  | cons slot rest ih =>
    simp [placed, widthOf, ih, List.range_succ_eq_map, Function.comp_def, Nat.add_assoc]

/-- A single pass over the slots finds where each value starts and how wide the record is. -/
private theorem placed_eq (l : Layout) :
    placed l.nullWidth l.slots = ((List.range l.numSlots).map l.offset, l.recordWidth) :=
  Prod.ext (placed_starts _ _) (placed_stop _ _)

variable {l : Layout} {i byte start stop : Nat}

/-! The ranges of the values. -/

/-- A value ends where the next one starts. -/
private theorem valueRange_eq_ok_iff :
    l.valueRange i = .ok (start, stop) ↔ i < l.numSlots ∧ start = l.offset i ∧ stop = l.offset (i + 1) := by
  unfold valueRange
  split
  · next slot hs =>
    have hlt : i < l.numSlots := (List.getElem?_eq_some_iff.mp hs).1
    simp [l.offset_succ hs, hlt, eq_comm]
  · next hs =>
    have hle : l.numSlots ≤ i := List.getElem?_eq_none_iff.mp hs
    exact iff_of_false (fun h => by cases h) fun h => Nat.not_lt_of_le hle h.1

def Covers (l : Layout) (i byte : Nat) : Prop :=
  ∃ start stop, l.valueRange i = .ok (start, stop) ∧ start ≤ byte ∧ byte < stop

private theorem covers_iff : l.Covers i byte ↔ i < l.numSlots ∧ l.offset i ≤ byte ∧ byte < l.offset (i + 1) := by
  constructor
  · rintro ⟨start, stop, hr, hle, hlt⟩
    obtain ⟨hi, rfl, rfl⟩ := valueRange_eq_ok_iff.mp hr
    exact ⟨hi, hle, hlt⟩
  · rintro ⟨hi, hle, hlt⟩
    exact ⟨_, _, valueRange_eq_ok_iff.mpr ⟨hi, rfl, rfl⟩, hle, hlt⟩

/-- Values take bytes behind the null bits and before the end of the record. -/
private theorem Covers.inside (h : l.Covers i byte) : l.nullWidth ≤ byte ∧ byte < l.recordWidth := by
  obtain ⟨hi, hle, hlt⟩ := covers_iff.mp h
  rw [← l.offset_numSlots]
  exact ⟨Nat.le_trans (l.nullWidth_le_offset i) hle, Nat.lt_of_lt_of_le hlt (l.offset_mono hi)⟩

private theorem Covers.unique {k : Nat} (h : l.Covers i byte) (hk : l.Covers k byte) : k = i := by
  obtain ⟨_, hle, hlt⟩ := covers_iff.mp h
  obtain ⟨_, hle', hlt'⟩ := covers_iff.mp hk
  rcases Nat.lt_trichotomy k i with hki | rfl | hik
  · have hm : l.offset (k + 1) ≤ l.offset i := l.offset_mono hki
    omega
  · rfl
  · have hm : l.offset (i + 1) ≤ l.offset k := l.offset_mono hik
    omega

/-- Between the null bits and the start of a later value there is no gap. -/
private theorem exists_offset_le {n : Nat} (hb : l.nullWidth ≤ byte) (hn : byte < l.offset n) :
    ∃ i, i < n ∧ l.offset i ≤ byte ∧ byte < l.offset (i + 1) := by
  induction n with
  | zero =>
    rw [l.offset_zero] at hn
    omega
  | succ n ih =>
    by_cases hlt : byte < l.offset n
    · obtain ⟨i, hi, hbyte⟩ := ih hlt
      exact ⟨i, Nat.lt_succ_of_lt hi, hbyte⟩
    · exact ⟨n, Nat.lt_succ_self n, Nat.le_of_not_lt hlt, hn⟩

private theorem exists_covers (hb : l.nullWidth ≤ byte) (hn : byte < l.recordWidth) : ∃ i, l.Covers i byte := by
  rw [← l.offset_numSlots] at hn
  obtain ⟨i, hi⟩ := exists_offset_le hb hn
  exact ⟨i, covers_iff.mpr hi⟩

/-- The values of a record stand one behind the other in slot order, each as wide as its type, from the end of the
null bits to the end of the record. So no two share a byte, and every byte of the record is either one of the null
bits or one of exactly one value. There is a null bit for each slot, and there are at most seven more. None of it
depends on anything but the slots. -/
theorem ranges_tile_record (id : TupleId) (slots : List Slot) :
    let l : Layout := ⟨id, slots⟩
    (∀ i slot, slots[i]? = some slot → ∃ start, l.valueRange i = .ok (start, start + slot.datatype.width)) ∧
    (∀ i, slots.length ≤ i → l.valueRange i = .error .span) ∧
    (∀ start stop, l.valueRange 0 = .ok (start, stop) → start = l.nullWidth) ∧
    (∀ i start stop next behind, l.valueRange i = .ok (start, stop) → l.valueRange (i + 1) = .ok (next, behind) →
      next = stop) ∧
    (∀ i start stop, i + 1 = slots.length → l.valueRange i = .ok (start, stop) → stop = l.recordWidth) ∧
    (slots = [] → l.nullWidth = 0 ∧ l.recordWidth = 0) ∧
    (∀ i k start stop start' stop', i ≠ k → l.valueRange i = .ok (start, stop) →
      l.valueRange k = .ok (start', stop') → stop ≤ start' ∨ stop' ≤ start) ∧
    (∀ byte, byte < l.recordWidth → byte < l.nullWidth ∧ (∀ i, ¬ l.Covers i byte) ∨
      l.nullWidth ≤ byte ∧ ∃! i, l.Covers i byte) ∧
    (∀ i byte, l.Covers i byte → byte < l.recordWidth) ∧ l.nullWidth ≤ l.recordWidth ∧
    (slots.length ≤ l.nullWidth * 8 ∧ l.nullWidth * 8 - slots.length ≤ 7) ∧
    placed l.nullWidth slots = ((List.range slots.length).map l.offset, l.recordWidth) ∧
    ∀ other : Layout, other.slots = slots →
      other.nullWidth = l.nullWidth ∧ other.recordWidth = l.recordWidth ∧
        (∀ i, other.valueRange i = l.valueRange i) ∧ (other.id = id → other = l) := by
  intro l
  refine ⟨fun i slot hs => ⟨l.offset i, ?_⟩, fun i hi => ?_, fun start stop hr => ?_,
    fun i start stop next behind hr hn => ?_, fun i start stop hi hr => ?_, ?_,
    fun i k start stop start' stop' hik hr hk => ?_, fun byte hb => ?_, fun i byte h => h.inside.2,
    l.nullWidth_le_recordWidth, ⟨l.numSlots_le_nullBits, ?_⟩, placed_eq l, ?_⟩
  · exact valueRange_eq_ok_iff.mpr ⟨(List.getElem?_eq_some_iff.mp hs).1, rfl, (l.offset_succ hs).symm⟩
  · have hs : l.slots[i]? = none := List.getElem?_eq_none hi
    rw [valueRange, hs]
  · obtain ⟨_, rfl, _⟩ := valueRange_eq_ok_iff.mp hr
    exact l.offset_zero
  · obtain ⟨_, _, rfl⟩ := valueRange_eq_ok_iff.mp hr
    obtain ⟨_, rfl, _⟩ := valueRange_eq_ok_iff.mp hn
    rfl
  · obtain ⟨_, _, rfl⟩ := valueRange_eq_ok_iff.mp hr
    rw [hi]
    exact l.offset_numSlots
  · rintro rfl
    simp [l, recordWidth, nullWidth, numSlots, widthOf, Bits.bytesFor]
  · obtain ⟨_, rfl, rfl⟩ := valueRange_eq_ok_iff.mp hr
    obtain ⟨_, rfl, rfl⟩ := valueRange_eq_ok_iff.mp hk
    rcases Nat.lt_or_gt_of_ne hik with hlt | hgt
    · exact Or.inl (l.offset_mono hlt)
    · exact Or.inr (l.offset_mono hgt)
  · rcases Nat.lt_or_ge byte l.nullWidth with hlt | hge
    · exact Or.inl ⟨hlt, fun i hc => Nat.not_lt_of_le hc.inside.1 hlt⟩
    · obtain ⟨i, hc⟩ := exists_covers hge hb
      exact Or.inr ⟨hge, i, hc, fun k hk => hc.unique hk⟩
  · have := Bits.bytesFor_mul_lt l.numSlots
    change Bits.bytesFor l.numSlots * 8 - l.numSlots ≤ 7
    omega
  · rintro ⟨other, _⟩ rfl
    exact ⟨rfl, rfl, fun _ => rfl, fun h => congrArg (fun id => (⟨id, _⟩ : Layout)) h⟩

/-- Nine slots of every width, so that the null bits reach into a second byte. -/
theorem ranges_tile_record_of_nine :
    let types : List DataType :=
      [.utf8, .boolean, .int16, .int64, .float32, .binary, .int8, .int32, .float64]
    let slots : List Slot := types.map fun datatype => ⟨⟨3⟩, datatype, true⟩
    let l : Layout := ⟨⟨1⟩, slots⟩
    l.nullWidth = 2 ∧ l.recordWidth = 46 ∧ (∃ start, l.valueRange 3 = .ok (start, start + 8)) ∧
      (∀ i, ¬ l.Covers i 1) ∧ (∃! i, l.Covers i 12) ∧ (∃! i, l.Covers i 45) ∧
      (∀ start stop, l.valueRange 8 = .ok (start, stop) → stop = 46) ∧
      (⟨⟨2⟩, slots⟩ : Layout).valueRange 8 = l.valueRange 8 := by
  intro types slots l
  have hn : l.nullWidth = 2 := by decide
  have hw : l.recordWidth = 46 := by decide
  obtain ⟨hrange, _, _, _, hlast, _, _, hbyte, _, _, _, _, hother⟩ := ranges_tile_record ⟨1⟩ slots
  have hvalue (byte : Nat) (h : byte < 46) (hb : 2 ≤ byte) : ∃! i, l.Covers i byte := by
    rcases hbyte byte (Nat.lt_of_lt_of_eq h hw.symm) with ⟨hlt, _⟩ | ⟨_, hu⟩
    · exact absurd (Nat.lt_of_lt_of_eq hlt hn) (Nat.not_lt_of_le hb)
    · exact hu
  refine ⟨hn, hw, hrange 3 _ rfl, ?_, hvalue 12 (by decide) (by decide), hvalue 45 (by decide) (by decide), ?_,
    (hother ⟨⟨2⟩, slots⟩ rfl).2.2.1 8⟩
  · rcases hbyte 1 (Nat.lt_of_lt_of_eq (by decide) hw.symm) with ⟨_, hnone⟩ | ⟨hle, _⟩
    · exact hnone
    · exact absurd (Nat.le_trans (Nat.le_of_eq hn.symm) hle) (by decide)
  · intro start stop hr
    exact (hlast 8 start stop rfl hr).trans hw

end GroupingSets.Layout
