import GroupingSets.Proofs.Batch.Frame

/-! What a write to a slot leaves alone. Null bits share bytes, values and records adjoin, and the heap may grow;
still nothing can be read otherwise than before but the slot that is written. -/
namespace GroupingSets

namespace Batch

def read (b : Batch) (i k : Nat) : Except Failure Scalar :=
  match b.row i with
  | .ok row => row.value k
  | .error fault => .error (.fault fault)

private theorem read_of_row {b : Batch} {i : Nat} {r : Row} (h : b.row i = .ok r) (k : Nat) :
    b.read i k = r.value k := by
  rw [read, h]

private theorem read_of_le {b : Batch} {i : Nat} (h : b.numRows ≤ i) (k : Nat) :
    b.read i k = .error (.fault (.record i b.numRows)) := by
  have hr : b.arena.record i = .error (.record i b.numRows) := if_neg (Nat.not_lt.mpr h)
  rw [read, row, hr]

end Batch

namespace Draft
variable {d e : Draft}

def Write.slot? : Write → Option Nat
  | .value i _ | .integer i _ | .null i | .notNull i => some i
  | .clearNulls => none

/-- A record that was begun behind the rows of a batch and has been written to in any way. -/
def Open (layout : Layout) (d : Draft) : Prop :=
  ∃ b index c writes, Batch.Built layout b ∧ b.beginRecord = (.ok index, c) ∧ d = (Draft.mk c index).writeAll writes

/-- What is known of such a record. If it were kept now, the batch would be in order. -/
structure Ready (layout : Layout) (d : Draft) : Prop where
  valid : d.Valid
  sound : d.row.Sound
  layout_eq : d.layout = layout
  commit : d.commit.Valid

theorem Open.ready {layout : Layout} (h : d.Open layout) : d.Ready layout := by
  obtain ⟨b, index, c, writes, hb, hc, rfl⟩ := h
  rcases hb.valid.beginRecord_cases with ⟨e, he, _⟩ | ⟨d, hd, hbegun⟩
  · rw [hc] at he
    cases he
  · rw [hc] at hd
    cases hd
    have hk : Kept d (d.writeAll writes) := Batch.Draft.Valid.kept_writeAll hbegun.valid hbegun.sound writes
    exact ⟨hk.valid, hk.sound, hk.grown.layout.trans (hbegun.layout.trans hb.layout_eq),
      hbegun.valid_commit hb.valid hk⟩

/-- A write is for one slot. -/
private theorem Valid.writes_write (h : d.Valid) (hs : d.row.Sound) {w : Write} {i : Nat} (hw : w.slot? = some i) :
    Writes i d (d.write w).2 := by
  cases w with
  | value k v =>
    cases hw
    exact h.writes_writeValue hs i v
  | integer k n =>
    cases hw
    exact h.writes_writeInteger hs i n
  | null k =>
    cases hw
    exact (h.putNull_writes (e := (d.putNull i true).2) hs rfl).1
  | notNull k =>
    cases hw
    exact (h.putNull_writes (e := (d.putNull i false).2) hs rfl).1
  | clearNulls => cases hw

private theorem Grown.record_of_ne (h : Grown d e) (hd : d.Valid) {j : Nat} (hj : j ≠ d.index) :
    e.batch.arena.record j = d.batch.arena.record j := by
  have := hd.last
  rcases Nat.lt_or_ge j d.batch.arena.len with hlt | hge
  · exact h.arena.record j (by omega)
  · rw [Arena.record, Arena.record, h.arena.len, if_neg (Nat.not_lt.mpr hge), if_neg (Nat.not_lt.mpr hge)]

/-- No byte of the fixed region is written but those of the record. -/
private theorem Grown.fixed_outside (h : Grown d e) (hd : d.Valid) (he : e.Valid) {n : Nat}
    (hn : n < d.index * d.layout.recordWidth ∨ (d.index + 1) * d.layout.recordWidth ≤ n) :
    e.batch.arena.fixed[n]? = d.batch.arena.fixed[n]? := by
  rw [← hd.stride] at hn
  have hstride := h.arena.stride
  have hlen := h.arena.len
  have hlast := hd.last
  have hsize : e.batch.arena.fixed.size = d.batch.arena.fixed.size := by
    rw [he.arena.fixed_size, hd.arena.fixed_size, hstride, h.arena.capacity]
  rcases hn with hbefore | hbehind
  · -- the byte is in the record that `n / stride` counts, which comes before the one that is written
    have hrecord : n / d.batch.arena.stride < d.index := Nat.div_lt_of_lt_mul (by rwa [Nat.mul_comm])
    have hplace : n % d.batch.arena.stride < d.batch.arena.stride := Nat.mod_lt _ (by
      by_contra hz
      rw [Nat.eq_zero_of_not_pos hz, Nat.mul_zero] at hbefore
      exact Nat.not_lt_zero n hbefore)
    have hsame := h.arena.record (n / d.batch.arena.stride) (by omega)
    rw [Arena.record_of_lt (by omega), Arena.record_of_lt (by omega), hstride] at hsame
    have hbyte := congrArg (fun record => record[n % d.batch.arena.stride]?) (Except.ok.inj hsame)
    simp only [Region.getElem?_slice, if_pos hplace] at hbyte
    rwa [Nat.mul_comm, Nat.div_add_mod] at hbyte
  · rw [hlast] at hbehind
    by_cases hin : n < d.batch.arena.fixed.size
    · rw [hd.arena.spare n hbehind hin,
        he.arena.spare n (by rw [hlen, hstride]; exact hbehind) (by rw [hsize]; exact hin)]
    · rw [Array.getElem?_eq_none (by omega), Array.getElem?_eq_none (by omega)]

/-- The record that is written is a row of the batch that keeps it. -/
private theorem Valid.row_commit (h : d.Valid) : d.commit.row d.index = .ok d.row :=
  Batch.row_of_record h.record

theorem Grown.read_commit (h : Grown d e) (he : e.Valid) (k : Nat) : e.commit.read d.index k = e.row.value k := by
  rw [← h.index]
  exact Batch.read_of_row he.row_commit k

/-- A write to a slot leaves what is read from every other slot, of this record and of all others. -/
private theorem Writes.read_commit {i : Nat} (h : Writes i d e) (hd : d.Valid) (hs : d.row.Sound) (hc : d.commit.Valid)
    {j k : Nat} (hne : ¬ (j = d.index ∧ k = i)) : e.commit.read j k = d.commit.read j k := by
  have hrows : e.commit.numRows = d.commit.numRows := h.grown.arena.len
  rcases Nat.lt_or_ge j d.commit.numRows with hlt | hge
  · by_cases hj : j = d.index
    · subst hj
      rw [h.grown.read_commit h.valid, (Grown.refl d).read_commit hd]
      exact h.value hs fun hk => hne ⟨rfl, hk⟩
    · obtain ⟨r, hr⟩ := Batch.exists_row hlt
      obtain ⟨record, hrecord, rfl⟩ := Batch.row_ok hr
      have hrow : e.commit.row j = .ok ⟨d.layout, record, e.batch.arena.heap⟩ := by
        rw [Batch.row_of_record (b := e.commit) ((h.grown.record_of_ne hd hj).trans hrecord),
          show e.commit.layout = d.layout from h.grown.layout]
        rfl
      rw [Batch.read_of_row hrow, Batch.read_of_row hr]
      exact (hc.sound j _ hr).value_longer h.grown.heap k
  · rw [Batch.read_of_le hge, Batch.read_of_le (by rw [hrows]; exact hge), hrows]

/-- A write to a slot, whether it succeeds or fails, leaves the null bits of all other slots and those behind the last
slot, the bytes of all other values, every byte of the region outside of the record, and what the heap held. After
a success the slot reads as what was written. What is read from any other slot of any record stays. -/
theorem write_touches_one_slot (layout : Layout) (d : Draft) (h : d.Open layout) (i : Nat) (slot : Slot)
    (hi : layout.slots[i]? = some slot) (w : Write) (hw : w.slot? = some i) :
    let e := (d.write w).2
    (∀ k, k ≠ i → e.row.isNull k = d.row.isNull k) ∧
      (∀ k other, k ≠ i → layout.slots[k]? = some other → e.row.place k other = d.row.place k other) ∧
      (∀ n, n < d.index * layout.recordWidth ∨ (d.index + 1) * layout.recordWidth ≤ n →
        e.batch.arena.fixed[n]? = d.batch.arena.fixed[n]?) ∧
      (∀ j, j ≠ d.index → e.batch.arena.record j = d.batch.arena.record j) ∧
      d.batch.arena.heap.toList <+: e.batch.arena.heap.toList ∧
      (∀ v, w = .value i v → (d.write w).1 = .ok () → e.commit.read d.index i = .ok v) ∧
      (∀ n, w = .integer i n → (d.write w).1 = .ok () → ∃ v, e.commit.read d.index i = .ok v ∧
        v.datatype? = some slot.datatype ∧ v.integer? = some n) ∧
      ∀ j k, ¬ (j = d.index ∧ k = i) → e.commit.read j k = d.commit.read j k := by
  intro e
  obtain ⟨hv, hs, hl, hc⟩ := h.ready
  have hwrites : Writes i d e := hv.writes_write hs hw
  have hi' : d.layout.slots[i]? = some slot := by rw [hl]; exact hi
  have hself : e.commit.read d.index i = e.row.value i := hwrites.grown.read_commit hwrites.valid i
  refine ⟨hwrites.isNull, fun k other hk ho => hwrites.place k other hk (by rw [hl]; exact ho), fun n hn => ?_,
    fun j hj => hwrites.grown.record_of_ne hv hj, hwrites.grown.heap, ?_, ?_,
    fun j k hne => hwrites.read_commit hv hs hc hne⟩
  · exact hwrites.grown.fixed_outside hv hwrites.valid (by rw [hl]; exact hn)
  · rintro v rfl hok
    have hwrite : d.writeValue i v = (.ok (), e) := Prod.ext hok rfl
    rw [hself]
    exact (hv.stored_writeValue hs hi' hwrite).value
  · rintro n rfl hok
    have hwrite : d.writeInteger i n = (.ok (), e) := Prod.ext hok rfl
    obtain ⟨hfits, hst⟩ := hv.stored_writeInteger hs hi' hwrite
    rw [hself]
    exact ⟨_, hst.value, Scalar.datatype?_ofInteger (Encoding.integerFits_isInteger hfits) n,
      Scalar.integer?_ofInteger hfits⟩

/-- Nine slots, so that the null bit of the last one is alone in its byte: a text is written over a shorter one, and
neither the null behind it nor the text of the row before is read otherwise. -/
theorem write_touches_one_slot_of_nine :
    let layout : Layout := ⟨⟨0⟩, List.replicate 7 ⟨⟨1⟩, .int8, true⟩ ++ [⟨⟨2⟩, .utf8, false⟩, ⟨⟨3⟩, .int16, true⟩]⟩
    let b := (Batch.new layout 2 none).after [.append (List.replicate 7 .null ++ [.utf8 "x", .int16 5])]
    let d := (Draft.mk b.beginRecord.2 1).writeAll [.null 8, .value 7 (.utf8 "ab")]
    let w : Write := .value 7 (.utf8 "cdef")
    d.Open layout ∧ w.slot? = some 7 ∧ (d.write w).2.commit.read 1 7 = .ok (.utf8 "cdef") ∧
      (d.write w).2.commit.read 1 8 = d.commit.read 1 8 ∧ (d.write w).2.commit.read 0 7 = .ok (.utf8 "x") := by
  intro layout b d w
  have hbegin : b.beginRecord = (.ok 1, b.beginRecord.2) := Prod.ext (ok_of_toOption (by decide +kernel)) rfl
  have hopen : d.Open layout := ⟨b, 1, _, _, ⟨2, none, _, rfl⟩, hbegin, rfl⟩
  have hok : (d.write w).1 = .ok () := ok_of_toOption (by decide +kernel)
  have hindex : d.index = 1 := by decide +kernel
  have hold : d.commit.read 0 7 = .ok (.utf8 "x") := ok_of_toOption (by decide +kernel)
  obtain ⟨_, _, _, _, _, hvalue, _, hother⟩ := write_touches_one_slot layout d hopen 7 ⟨⟨2⟩, .utf8, false⟩ rfl w rfl
  rw [hindex] at hvalue hother
  exact ⟨hopen, rfl, hvalue _ rfl hok, hother 1 8 (by decide), (hother 0 7 (by decide)).trans hold⟩

end Draft

end GroupingSets
