import GroupingSets.Proofs.Batch.Acceptance
import GroupingSets.Proofs.Batch.Locality

/-! What a write that is refused leaves behind. The heap and the bytes of all values stay, but a value other than
null costs its slot the null bit also when it is refused: a slot that was null then reads as what its bytes hold. -/
namespace GroupingSets

namespace Region

private theorem splice_take {record : List UInt8} {n : Nat} (h : n ≤ record.length) :
    splice record 0 (record.take n) = record := by
  rw [splice, List.take_zero, List.nil_append, Nat.zero_add, List.length_take_of_le h, List.take_append_drop]

end Region

namespace Draft
variable {d e : Draft}

/-- To give a slot the null bit that it has changes nothing. -/
private theorem Valid.row_putNull_same (h : d.Valid) {i : Nat} {null : Bool} (hn : d.row.isNull i = .ok null) :
    (d.putNull i null).2.row = d.row := by
  have hwidth : d.row.record.length = d.layout.recordWidth := h.width
  have hle : d.layout.nullWidth ≤ d.row.record.length := hwidth ▸ d.layout.nullWidth_le_recordWidth
  have hsize : (d.row.record.take d.layout.nullWidth).toArray.size = d.layout.nullWidth := by
    rw [List.size_toArray, List.length_take_of_le hle]
  rw [Row.isNull, Bits.get, show d.row.layout = d.layout from rfl, hsize] at hn
  split at hn
  · next hi =>
    cases hn
    -- the bytes that are put are those that the record begins with
    obtain ⟨e, he, _, _, hr⟩ := h.put 0 (d.row.record.take d.layout.nullWidth)
      (by rw [Nat.zero_add, List.length_take_of_le hle]; exact d.layout.nullWidth_le_recordWidth)
    rw [Draft.putNull, h.record]
    dsimp only
    rw [Bits.set_test (by rw [hsize]; exact hi)]
    dsimp only
    rw [he]
    dsimp only
    rw [hr, Region.splice_take hle]
  · cases hn

/-- A value that is refused has cost its slot the null bit, unless it was null. -/
private theorem Valid.writeValue_error (h : d.Valid) {i : Nat} {slot : Slot} (hi : d.layout.slots[i]? = some slot)
    {v : Scalar} {failure : Failure} (hw : d.writeValue i v = (.error failure, e)) :
    (∃ err, failure = .error err) ∧ (v = .null ∧ e = d ∨ v ≠ .null ∧ d.putNull i false = (.ok (), e)) := by
  have hbit := d.layout.bit_lt_of_slot hi
  by_cases hv : v = .null
  · subst hv
    rw [writeValue_null hi] at hw
    split at hw
    · obtain ⟨f, hf, _⟩ := h.putNull hbit true
      rw [hf] at hw
      cases hw
    · cases hw
      exact ⟨⟨_, rfl⟩, Or.inl ⟨rfl, rfl⟩⟩
  · obtain ⟨f, hf, hwrites, _⟩ := h.putNull hbit false
    have hi' : f.layout.slots[i]? = some slot := (hwrites.grown.slot i).trans hi
    rw [writeValue_of_ne_null hi hv hf] at hw
    rcases hwrites.valid.putValue_cases hi' hv with ⟨err, hr, _⟩ | ⟨g, hr, _⟩
    · rw [hr] at hw
      cases hw
      exact ⟨⟨err, rfl⟩, Or.inr ⟨hv, hf⟩⟩
    · rw [hr] at hw
      cases hw

/-- A number that is refused has cost its slot the null bit. -/
private theorem Valid.writeInteger_error (h : d.Valid) {i : Nat} {slot : Slot} (hi : d.layout.slots[i]? = some slot)
    {n : Int64} {failure : Failure} (hw : d.writeInteger i n = (.error failure, e)) :
    (∃ err, failure = .error err) ∧ d.putNull i false = (.ok (), e) := by
  cases hb : Encoding.integerBytes slot.datatype n with
  | error err =>
    obtain ⟨f, hf, hr⟩ := h.writeInteger_of_error hi hb
    rw [hr] at hw
    cases hw
    exact ⟨⟨err, rfl⟩, hf⟩
  | ok bytes =>
    obtain ⟨f, hr, _⟩ := h.writeInteger_of_bytes hi hb
    rw [hr] at hw
    cases hw

/-- What a refused write of a value or a number has done: nothing if the value was null, else the first step, which
clears the null bit. -/
private theorem Valid.write_error (h : d.Valid) {i : Nat} {slot : Slot} (hi : d.layout.slots[i]? = some slot)
    {w : Write} (ht : w.target? = some i) {failure : Failure} (hw : d.write w = (.error failure, e)) :
    (∃ err, failure = .error err) ∧
      (w = .value i .null ∧ e = d ∨ w ≠ .value i .null ∧ d.putNull i false = (.ok (), e)) := by
  cases w with
  | value k v =>
    cases ht
    obtain ⟨herr, ⟨rfl, he⟩ | ⟨hv, he⟩⟩ := h.writeValue_error hi hw
    · exact ⟨herr, Or.inl ⟨rfl, he⟩⟩
    · exact ⟨herr, Or.inr ⟨fun hw => hv (Write.value.inj hw).2, he⟩⟩
  | integer k n =>
    cases ht
    obtain ⟨herr, he⟩ := h.writeInteger_error hi hw
    exact ⟨herr, Or.inr ⟨(nomatch ·), he⟩⟩
  | null k => cases ht
  | notNull k => cases ht
  | clearNulls => cases ht

/-! A slot that loses its null bit and nothing else. -/

section Uncovered
variable {i : Nat} {slot : Slot}

/-- The slot reads as the value that its bytes hold. -/
private theorem Valid.value_putNull (h : d.Valid) (hs : d.row.Sound) (hi : d.layout.slots[i]? = some slot)
    (he : d.putNull i false = (.ok (), e)) :
    ∃ v, Encoding.decode slot.datatype (d.row.place i slot) d.row.heap = .ok v ∧ e.row.isNull i = .ok false ∧
      e.row.value i = .ok v := by
  obtain ⟨f, hf, hw, hbit, hplace, hheap⟩ := h.putNull (d.layout.bit_lt_of_slot hi) false
  rw [hf] at he
  cases he
  obtain ⟨v, hv⟩ := hs.stored i slot hi
  have hie : e.row.layout.slots[i]? = some slot := (hw.grown.slot i).trans hi
  refine ⟨v, hv, hbit, ?_⟩
  rw [Row.value_eq hie hbit, hplace i slot hi, hheap]
  exact hv

private theorem Valid.record_putNull_iff (h : d.Valid) (hs : d.row.Sound) (hi : d.layout.slots[i]? = some slot)
    (he : d.putNull i false = (.ok (), e)) :
    e.row.record = d.row.record ↔ d.row.isNull i = .ok false := by
  obtain ⟨_, _, hbit, _⟩ := h.value_putNull hs hi he
  have hlayout : e.row.layout = d.row.layout := (h.putNull_writes hs he).1.grown.row_layout
  constructor
  · intro hr
    rw [← hbit, Row.isNull, Row.isNull, hr, hlayout]
  · intro hn
    rw [← h.row_putNull_same hn, he]

private theorem Valid.value_putNull_iff (h : d.Valid) (hs : d.row.Sound) (hi : d.layout.slots[i]? = some slot)
    (he : d.putNull i false = (.ok (), e)) : e.row.value i = d.row.value i ↔ d.row.isNull i = .ok false := by
  obtain ⟨v, hv, _, hread⟩ := h.value_putNull hs hi he
  obtain ⟨null, hn⟩ := hs.exists_isNull (List.getElem?_eq_some_iff.mp hi).1
  rw [hread, Row.value_eq hi hn, hn]
  cases null with
  | true =>
    refine iff_of_false (fun hnull => ?_) (by decide)
    cases hnull
    cases Encoding.datatype?_decode hv
  | false => exact iff_of_true hv.symm rfl

end Uncovered

/-- A write of a value or a number that is refused leaves the heap, the bytes of all values and the null bits of all
other slots. A null that is refused leaves its slot as well. Anything else that is refused makes its slot one that is
not null, with the value that its bytes hold, so that the record stays, and the slot is read as before, exactly if it
was not null before. -/
theorem refused_write_clears_null (layout : Layout) (d : Draft) (h : d.Open layout) (i : Nat) (slot : Slot)
    (hi : layout.slots[i]? = some slot) (w : Write) (ht : w.target? = some i) (failure : Failure)
    (hf : (d.write w).1 = .error failure) :
    let e := (d.write w).2
    (∃ err, failure = .error err) ∧ e.batch.arena.heap = d.batch.arena.heap ∧
      (∀ k, k ≠ i → e.row.isNull k = d.row.isNull k) ∧
      (∀ k other, layout.slots[k]? = some other → e.row.place k other = d.row.place k other) ∧
      (w = .value i .null → e = d) ∧
      (w ≠ .value i .null → ∃ v, Encoding.decode slot.datatype (d.row.place i slot) d.row.heap = .ok v ∧
        v.datatype? = some slot.datatype ∧ e.row.isNull i = .ok false ∧ e.commit.read d.index i = .ok v) ∧
      (e.row.record = d.row.record ↔ w = .value i .null ∨ d.row.isNull i = .ok false) ∧
      (e.commit.read d.index i = d.commit.read d.index i ↔ w = .value i .null ∨ d.row.isNull i = .ok false) := by
  intro e
  obtain ⟨hv, hs, rfl, _⟩ := h.ready
  obtain ⟨herr, ⟨hnull, he⟩ | ⟨hnull, he⟩⟩ := hv.write_error hi ht (Prod.ext hf rfl : d.write w = (_, e))
  · rw [he]
    exact ⟨herr, rfl, fun _ _ => rfl, fun _ _ _ => rfl, fun _ => rfl, fun hne => absurd hnull hne,
      iff_of_true rfl (Or.inl hnull), iff_of_true rfl (Or.inl hnull)⟩
  · -- clearing the null bit cannot fail, and it is all that was done
    obtain ⟨f, hput, hwrites, _, hplace, hheap⟩ := hv.putNull (d.layout.bit_lt_of_slot hi) false
    obtain rfl : f = e := congrArg Prod.snd (hput.symm.trans he)
    obtain ⟨v, hdecode, hbit, hread⟩ := hv.value_putNull hs hi he
    rw [hwrites.grown.read_commit hwrites.valid, (Grown.refl d).read_commit hv, or_iff_right hnull]
    exact ⟨herr, hheap, hwrites.isNull, hplace, fun hw => absurd hw hnull,
      fun _ => ⟨v, hdecode, Encoding.datatype?_decode hdecode, hbit, hread⟩,
      hv.record_putNull_iff hs hi he, hv.value_putNull_iff hs hi he⟩

/-- The null bit hides a text. A text that the limit keeps out brings the old one back. -/
theorem refused_write_clears_null_of_text :
    let layout : Layout := ⟨⟨0⟩, [⟨⟨1⟩, .utf8, true⟩]⟩
    let d := (Draft.mk (Batch.new layout 1 (some 11)).beginRecord.2 0).writeAll [.value 0 (.utf8 "ab"), .null 0]
    let w : Write := .value 0 (.utf8 "c")
    d.Open layout ∧ w.target? = some 0 ∧ (∃ err, (d.write w).1 = .error (.error err)) ∧
      (d.write w).2.batch.arena.heap = d.batch.arena.heap ∧ d.commit.read 0 0 = .ok .null ∧
      (d.write w).2.commit.read 0 0 ≠ d.commit.read 0 0 ∧ (d.write w).2.commit.read 0 0 = .ok (.utf8 "ab") := by
  intro layout d w
  have hbegin : (Batch.new layout 1 (some 11)).beginRecord = (.ok 0, (Batch.new layout 1 (some 11)).beginRecord.2) :=
    Prod.ext (ok_of_toOption (by decide +kernel)) rfl
  have hopen : d.Open layout := ⟨_, 0, _, _, ⟨1, some 11, [], rfl⟩, hbegin, rfl⟩
  have hindex : d.index = 0 := by decide +kernel
  have hnull : d.row.isNull 0 = .ok true := ok_of_toOption (by decide +kernel)
  obtain ⟨failure, hfail⟩ : ∃ failure, (d.write w).1 = .error failure := error_of_toOption (by decide +kernel)
  obtain ⟨⟨err, rfl⟩, hheap, _, _, _, _, _, hread⟩ :=
    refused_write_clears_null layout d hopen 0 ⟨⟨1⟩, .utf8, true⟩ rfl w rfl failure hfail
  rw [hindex, hnull] at hread
  refine ⟨hopen, rfl, ⟨err, hfail⟩, hheap, ok_of_toOption (by decide +kernel), fun hsame => ?_,
    ok_of_toOption (by decide +kernel)⟩
  rcases hread.mp hsame with hw | hbit
  · cases (Write.value.inj hw).2
  · cases hbit

/-- A slot of numbers that is null, and a text that it does not take: the null has become a zero. -/
theorem null_lost_to_refused_write :
    let layout : Layout := ⟨⟨0⟩, [⟨⟨0⟩, .int32, true⟩]⟩
    let d := (Draft.mk (Batch.new layout 1 none).beginRecord.2 0).writeAll [.null 0]
    let w : Write := .value 0 (.utf8 "x")
    d.Open layout ∧ (d.write w).1 = .error (.error (.fixedMismatch .int32 (.utf8 "x"))) ∧
      d.row.record = [1, 0, 0, 0, 0] ∧ (d.write w).2.row.record = [0, 0, 0, 0, 0] ∧
      d.commit.read 0 0 = .ok .null ∧ (d.write w).2.commit.read 0 0 = .ok (.int32 0) := by
  intro layout d w
  have hbegin : (Batch.new layout 1 none).beginRecord = (.ok 0, (Batch.new layout 1 none).beginRecord.2) :=
    Prod.ext (ok_of_toOption (by decide +kernel)) rfl
  have hput : d.putNull 0 false = (.ok (), (d.putNull 0 false).2) :=
    Prod.ext (ok_of_toOption (by decide +kernel)) rfl
  have hslot : d.layout.slots[0]? = some ⟨⟨0⟩, .int32, true⟩ := by decide +kernel
  have hfail : (d.write w).1 = .error (.error (.fixedMismatch .int32 (.utf8 "x"))) := by
    have hv : Scalar.utf8 "x" ≠ .null := by decide
    rw [show d.write w = d.writeValue 0 (.utf8 "x") from rfl, writeValue_of_ne_null hslot hv hput,
      putValue_mismatch hv (by decide)]
    rfl
  exact ⟨⟨_, 0, _, _, ⟨1, none, [], rfl⟩, hbegin, rfl⟩, hfail, by decide +kernel, by decide +kernel,
    ok_of_toOption (by decide +kernel), ok_of_toOption (by decide +kernel)⟩

end Draft

end GroupingSets
