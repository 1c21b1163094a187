import GroupingSets.Proofs.Batch.Operation

/-! What no use of a batch changes. Its layout, its capacity and the limit of its arena are fixed when it
is made, so that a batch that is reset is the batch it was when it was new. -/
namespace GroupingSets

namespace Draft
variable {d e : Draft}

/-- One draft came from another by writing: there are as many records, and a reset would leave the same
batch. Nothing is said about the bytes. -/
structure Stays (d e : Draft) : Prop where
  numRows : e.batch.numRows = d.batch.numRows
  reset : e.batch.reset = d.batch.reset

private theorem Stays.refl (d : Draft) : Stays d d := ⟨rfl, rfl⟩

private theorem Stays.trans {f : Draft} (hde : Stays d e) (hef : Stays e f) : Stays d f :=
  ⟨hef.numRows.trans hde.numRows, hef.reset.trans hde.reset⟩

private theorem stays_withArena {arena : Arena} (hl : arena.len = d.batch.arena.len)
    (hr : arena.reset = d.batch.arena.reset) : Stays d (d.withArena arena) :=
  ⟨hl, congrArg (fun a => { d.batch with arena := a }) hr⟩

private theorem stays_put (d : Draft) (offset : Nat) (bytes : List UInt8) : Stays d (d.put offset bytes).2 := by
  unfold put
  split
  · next hw =>
    obtain ⟨_, _, rfl⟩ := Arena.write_ok hw
    exact stays_withArena rfl rfl
  · exact .refl d

private theorem stays_putNull (d : Draft) (slot : Nat) (null : Bool) : Stays d (d.putNull slot null).2 := by
  unfold putNull
  split
  · exact .refl d
  · split
    · exact .refl d
    · exact d.stays_put 0 _

private theorem stays_putValue (d : Draft) (i : Nat) (slot : Slot) (v : Scalar) :
    Stays d (d.putValue i slot v).2 := by
  unfold putValue
  split
  · split
    · exact .refl d
    · split
      · next ha =>
        have hsame := Arena.pushHeap_error ha
        exact stays_withArena (by rw [hsame]) (by rw [hsame])
      · next ref arena ha =>
        have hs : Stays d (d.withArena arena) := by
          obtain ⟨_, _, _, _, rfl⟩ := Arena.pushHeap_ok ha
          exact stays_withArena rfl rfl
        exact hs.trans (stays_put _ _ _)
  · split
    · exact .refl d
    · exact d.stays_put _ _

private theorem stays_writeValue (d : Draft) (i : Nat) (v : Scalar) : Stays d (d.writeValue i v).2 := by
  unfold writeValue
  split
  · exact .refl d
  · split
    · split
      · exact d.stays_putNull i true
      · exact .refl d
    · have hn := d.stays_putNull i false
      split
      · next hr => rwa [hr] at hn
      · next hr =>
        rw [hr] at hn
        exact hn.trans (stays_putValue _ _ _ _)

private theorem stays_writeInteger (d : Draft) (i : Nat) (n : Int64) : Stays d (d.writeInteger i n).2 := by
  have hn := d.stays_putNull i false
  unfold writeInteger
  split
  · next hr => rwa [hr] at hn
  · next hr =>
    rw [hr] at hn
    repeat' split
    · exact hn
    · exact hn
    · exact hn.trans (stays_put _ _ _)

private theorem stays_write (d : Draft) (w : Write) : Stays d (d.write w).2 := by
  cases w with
  | value i v => exact d.stays_writeValue i v
  | integer i n => exact d.stays_writeInteger i n
  | null i => exact d.stays_putNull i true
  | notNull i => exact d.stays_putNull i false
  | clearNulls => exact d.stays_put 0 _

theorem stays_writeAll (d : Draft) (writes : List Write) : Stays d (d.writeAll writes) := by
  induction writes generalizing d with
  | nil => exact .refl d
  | cons w rest ih => exact (d.stays_write w).trans (ih _)

theorem writeAll_append (d : Draft) (first second : List Write) :
    d.writeAll (first ++ second) = (d.writeAll first).writeAll second := List.foldl_append

def Write.target? : Write → Option Nat
  | .value i _ | .integer i _ => some i
  | .null _ | .notNull _ | .clearNulls => none

/-- A write leaves the bytes of every slot but the one it is for. -/
private theorem Valid.place_write (h : d.Valid) (hs : d.row.Sound) {w : Write} {k : Nat} {slot : Slot}
    (hk : d.layout.slots[k]? = some slot) (hw : w.target? ≠ some k) :
    (d.write w).2.row.place k slot = d.row.place k slot := by
  cases w with
  | value i v => exact (h.writes_writeValue hs i v).place k slot (fun hki => hw (hki ▸ rfl)) hk
  | integer i n => exact (h.writes_writeInteger hs i n).place k slot (fun hki => hw (hki ▸ rfl)) hk
  | null i => exact h.place_putNull i true hk
  | notNull i => exact h.place_putNull i false hk
  | clearNulls =>
    obtain ⟨e, he, _, _, hp, _⟩ := h.clearNulls
    rw [write, he]
    exact hp k slot hk

theorem Valid.place_writeAll (h : d.Valid) (hs : d.row.Sound) {writes : List Write} {k : Nat} {slot : Slot}
    (hk : d.layout.slots[k]? = some slot) (hw : ∀ w ∈ writes, w.target? ≠ some k) :
    (d.writeAll writes).row.place k slot = d.row.place k slot := by
  induction writes generalizing d with
  | nil => rfl
  | cons w rest ih =>
    have hkept := h.kept_write hs w
    have hk' : (d.write w).2.layout.slots[k]? = some slot := (hkept.grown.slot k).trans hk
    obtain ⟨hfirst, hrest⟩ := List.forall_mem_cons.mp hw
    exact (ih hkept.valid hkept.sound hk' hrest).trans (h.place_write hs hk hfirst)

private theorem reset_discard (d : Draft) : d.discard.reset = d.batch.reset := by
  unfold discard Arena.pop
  dsimp only
  split <;> rfl

end Draft

namespace Batch

/-- Beginning a record adds one, and leaves what a reset would leave. -/
theorem beginRecord_frame (b : Batch) :
    b.beginRecord.2.reset = b.reset ∧
      ∀ i, b.beginRecord.1 = .ok i → b.beginRecord.2.numRows = b.numRows + 1 := by
  unfold beginRecord
  split
  · exact ⟨rfl, fun _ h => nomatch h⟩
  · have hal : ∀ result arena,
        (if b.arena.isAllocated then (.ok (), b.arena) else b.arena.allocate b.capacity) = (result, arena) →
          arena.reset = b.arena.reset ∧ arena.len = b.arena.len := by
      intro result arena ha
      split at ha
      · cases ha
        exact ⟨rfl, rfl⟩
      · unfold Arena.allocate at ha
        repeat' split at ha
        all_goals cases ha
        all_goals exact ⟨rfl, rfl⟩
    split
    · next ha => exact ⟨congrArg (fun a => { b with arena := a }) (hal _ _ ha).1, fun _ h => nomatch h⟩
    · next arena ha =>
      obtain ⟨hr, hl⟩ := hal _ _ ha
      split
      · next hp =>
        rw [Arena.push_error hp]
        exact ⟨congrArg (fun a => { b with arena := a }) hr, fun _ h => nomatch h⟩
      · next hp =>
        obtain ⟨_, _, rfl⟩ := Arena.push_ok hp
        exact ⟨congrArg (fun a => { b with arena := a }) hr, fun _ _ => congrArg (· + 1) hl⟩

/-- Appending a row adds one if it succeeds, and leaves what a reset would leave. -/
theorem appendWith_frame (b : Batch) {write : Draft → Except Failure Unit × Draft}
    (hw : ∀ d : Draft, d.Stays (write d).2) :
    (b.appendWith write).2.reset = b.reset ∧
      ((b.appendWith write).1 = .ok () → (b.appendWith write).2.numRows = b.numRows + 1) := by
  obtain ⟨hr, hn⟩ := b.beginRecord_frame
  unfold appendWith
  rcases hb : b.beginRecord with ⟨e | i, c⟩
  · rw [hb] at hr
    exact ⟨hr, fun h => nomatch h⟩
  · rw [hb] at hr hn
    have hs := hw ⟨c, i⟩
    dsimp only
    rcases hd : write ⟨c, i⟩ with ⟨failure | u, e⟩
    · rw [hd] at hs
      exact ⟨e.reset_discard.trans (hs.reset.trans hr), fun h => nomatch h⟩
    · rw [hd] at hs
      exact ⟨hs.reset.trans hr, fun _ => hs.numRows.trans (hn i rfl)⟩

private theorem stays_fill (values : List Scalar) (d : Draft) (i : Nat) : d.Stays (d.fill i values).2 := by
  induction values generalizing d i with
  | nil =>
    unfold Draft.fill
    split <;> exact .refl d
  | cons v rest ih =>
    have hv := d.stays_writeValue i v
    unfold Draft.fill
    split
    · exact .refl d
    · split
      · next hr => rwa [hr] at hv
      · next hr =>
        rw [hr] at hv
        exact hv.trans (ih _ _)

/-- No operation changes what a reset leaves. -/
private theorem reset_apply (b : Batch) (op : Op) : (b.apply op).reset = b.reset := by
  cases op with
  | append values => exact (b.appendWith_frame fun d => stays_fill values d 0).1
  | record writes kept =>
    have hr := b.beginRecord_frame.1
    unfold apply
    rcases hb : b.beginRecord with ⟨e | i, c⟩
    · rw [hb] at hr
      exact hr
    · rw [hb] at hr
      have hs := (Draft.mk c i).stays_writeAll writes
      dsimp only
      split
      · exact hs.reset.trans hr
      · exact (Draft.reset_discard _).trans (hs.reset.trans hr)
  | reset => rfl

theorem reset_after (b : Batch) (ops : List Op) : (b.after ops).reset = b.reset := by
  induction ops generalizing b with
  | nil => rfl
  | cons op rest ih => exact (ih (b.apply op)).trans (b.reset_apply op)

/-- A batch to write to: a new one, or one that has been used and was reset. -/
def Cleared (layout : Layout) (capacity : Nat) (limit : Option Nat) (b : Batch) : Prop :=
  ∃ ops, b = ((new layout capacity limit).after ops).reset

/-- A batch that was reset cannot be told from a new one. -/
theorem Cleared.eq_new {layout : Layout} {capacity : Nat} {limit : Option Nat} {b : Batch}
    (h : Cleared layout capacity limit b) : b = new layout capacity limit := by
  obtain ⟨ops, rfl⟩ := h
  rw [reset_after]
  rfl

theorem cleared_new (layout : Layout) (capacity : Nat) (limit : Option Nat) :
    Cleared layout capacity limit (new layout capacity limit) := ⟨[], rfl⟩

end Batch

end GroupingSets
