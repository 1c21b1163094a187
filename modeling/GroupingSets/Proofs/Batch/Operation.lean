import GroupingSets.Proofs.Batch.Draft

/-! What can be done to a batch. A record that is given up leaves the rows and the heap, and after
every sequence of operations each row reads as values of the types of its slots. -/
namespace GroupingSets

def Draft.writeAll (d : Draft) (writes : List Draft.Write) : Draft :=
  writes.foldl (fun d w => (d.write w).2) d

/-- What a call comes to: what a success leaves is good, and a failure is a bad one. -/
def Yields {α : Type} (good : α → Prop) (bad : Failure → Prop) : Except Failure Unit × α → Prop
  | (.ok _, a) => good a
  | (.error failure, _) => bad failure

theorem Yields.imp {α : Type} {good good' : α → Prop} {bad bad' : Failure → Prop}
    {w : Except Failure Unit × α} (h : Yields good bad w) (hg : ∀ a, good a → good' a)
    (hb : ∀ failure, bad failure → bad' failure) : Yields good' bad' w := by
  rcases w with ⟨failure | u, a⟩
  · exact hb failure h
  · exact hg a h

namespace Batch

inductive Op where
  /-- Append a row of values. -/
  | append (values : List Scalar)
  /-- Begin a record, write to it, and then keep it or give it up. -/
  | record (writes : List Draft.Write) (kept : Bool)
  /-- Drop all rows. -/
  | reset

def apply (b : Batch) : Op → Batch
  | .append values => (b.append values).2
  | .record writes kept =>
    match b.beginRecord with
    | (.error _, b) => b
    | (.ok index, b) =>
      let d := (Draft.mk b index).writeAll writes
      if kept then d.commit else d.discard
  | .reset => b.reset

def after (b : Batch) (ops : List Op) : Batch := ops.foldl apply b

/-- A batch that began empty and has since been changed by operations only. -/
def Built (layout : Layout) (b : Batch) : Prop :=
  ∃ capacity limit ops, b = (new layout capacity limit).after ops

/-- The arena is that of the layout and of the capacity, and every row is sound. -/
structure Valid (b : Batch) : Prop where
  arena : b.arena.Valid
  stride : b.arena.stride = b.layout.recordWidth
  room : b.arena.capacity = 0 ∨ b.arena.capacity = b.capacity
  sound : ∀ i r, b.row i = .ok r → r.Sound
  heap_empty : b.numRows = 0 → b.arena.heap = #[]

theorem row_ok {b : Batch} {i : Nat} {r : Row} (h : b.row i = .ok r) :
    ∃ record, b.arena.record i = .ok record ∧ r = ⟨b.layout, record, b.arena.heap⟩ := by
  unfold row at h
  split at h <;> cases h
  exact ⟨_, ‹_›, rfl⟩

theorem row_of_record {b : Batch} {i : Nat} {record : List UInt8} (h : b.arena.record i = .ok record) :
    b.row i = .ok ⟨b.layout, record, b.arena.heap⟩ := by
  rw [row, h]

theorem exists_row {b : Batch} {i : Nat} (hi : i < b.numRows) : ∃ r, b.row i = .ok r :=
  ⟨_, row_of_record (Arena.record_of_lt hi)⟩

theorem row_of_values {b : Batch} {i : Nat} {vs : List Scalar} (h : b.values i = .ok vs) :
    ∃ r, b.row i = .ok r ∧ r.values = .ok vs := by
  unfold values at h
  split at h
  · next r hr => exact ⟨r, hr, h⟩
  · cases h

theorem lt_of_row {b : Batch} {i : Nat} {r : Row} (h : b.row i = .ok r) : i < b.numRows := by
  obtain ⟨record, hr, _⟩ := row_ok h
  unfold Arena.record at hr
  split at hr
  · assumption
  · cases hr

theorem valid_new (layout : Layout) (capacity : Nat) (limit : Option Nat) :
    (new layout capacity limit).Valid where
  arena := Arena.valid_new _ _
  stride := rfl
  room := Or.inl rfl
  sound i _ h := absurd (lt_of_row h) (Nat.not_lt_zero i)
  heap_empty _ := rfl

theorem Valid.reset {b : Batch} (h : b.Valid) : b.reset.Valid where
  arena := h.arena.reset
  stride := h.stride
  room := Or.inl rfl
  sound i _ hr := absurd (lt_of_row hr) (Nat.not_lt_zero i)
  heap_empty _ := rfl

theorem Valid.numRows_le {b : Batch} (h : b.Valid) : b.numRows ≤ b.capacity := by
  have hl : b.numRows ≤ b.arena.capacity := h.arena.len_le
  rcases h.room with hz | hc <;> omega

structure Same (b c : Batch) : Prop where
  layout : c.layout = b.layout
  capacity : c.capacity = b.capacity
  numRows : c.numRows = b.numRows
  heap : c.arena.heap = b.arena.heap
  row : ∀ i, c.row i = b.row i

theorem Same.refl (b : Batch) : Same b b := ⟨rfl, rfl, rfl, rfl, fun _ => rfl⟩

theorem Same.values {b c : Batch} (h : Same b c) (i : Nat) : c.values i = b.values i := by
  rw [Batch.values, Batch.values, h.row]

/-! Beginning a record. -/

structure Begun (b : Batch) (d : Draft) : Prop where
  valid : d.Valid
  zeros : d.row.record = List.replicate b.layout.recordWidth 0
  layout : d.batch.layout = b.layout
  capacity : d.batch.capacity = b.capacity
  room : d.batch.arena.capacity = b.capacity
  index : d.index = b.numRows
  heap : d.batch.arena.heap = b.arena.heap
  pushed : ∃ a : Arena, a.push = (.ok d.index, d.batch.arena) ∧ a.len = b.arena.len ∧ a.heap = b.arena.heap ∧
    ∀ i, a.record i = b.arena.record i

inductive NotBegun (b : Batch) : Error → Prop
  | full : b.capacity ≤ b.numRows → NotBegun b (.batchFull b.capacity)
  | overflow (stride capacity : Nat) : NotBegun b (.arenaOverflow stride capacity)
  | limit (wanted limit : Nat) : NotBegun b (.arenaLimit wanted limit)
  | reservation : NotBegun b .arenaReservation

private theorem Valid.begun_of_push {b : Batch} (h : b.Valid) {a p : Arena} {index : Nat} (ha : a.Valid)
    (hs : a.stride = b.arena.stride) (hc : a.capacity = b.capacity) (hl : a.len = b.arena.len)
    (hh : a.heap = b.arena.heap) (hr : ∀ i, a.record i = b.arena.record i)
    (hp : a.push = (.ok index, p)) : Begun b ⟨{ b with arena := p }, index⟩ := by
  have hz := ha.record_push_self hp
  have hv := ha.push hp
  obtain ⟨rfl, _, hpe⟩ := Arena.push_ok hp
  have hps : p.stride = b.layout.recordWidth := by rw [hpe]; exact hs.trans h.stride
  have hd : (Draft.mk { b with arena := p } a.len).Valid := ⟨hv, hps, by rw [hpe]⟩
  refine ⟨hd, ?_, rfl, rfl, by rw [hpe]; exact hc, hl, by rw [hpe]; exact hh, a, hp, hl, hh, hr⟩
  rw [← h.stride, ← hs]
  exact Except.ok.inj (hd.record.symm.trans hz)

private theorem notBegun_of_allocate {b : Batch} {a : Arena} {e : Error} (hn : b.arena.isAllocated = false)
    (h : b.arena.allocate b.capacity = (.error e, a)) : NotBegun b e := by
  unfold Arena.allocate at h
  rw [hn] at h
  split at h
  · contradiction
  · split at h
    · cases h
      exact .overflow _ _
    · split at h
      · next hl =>
        cases h
        unfold Arena.checkLimit at hl
        dsimp only at hl
        repeat' split at hl
        all_goals cases hl
        exact .limit _ _
      · split at h <;> cases h
        exact .reservation

/-- How a record is begun, or why it is not. The arena is asked for its region only as long as it has none, and hands
out a record as long as the batch is not full. -/
inductive Begins (b : Batch) : Except Error Nat × Batch → Prop
  | full (hf : b.capacity ≤ b.numRows) : Begins b (.error (.batchFull b.capacity), b)
  | refused {e : Error} (hf : b.numRows < b.capacity) (hn : b.arena.isAllocated = false)
    (ha : b.arena.allocate b.capacity = (.error e, b.arena)) : Begins b (.error e, b)
  | allocated {a p : Arena} (hf : b.numRows < b.capacity) (hn : b.arena.isAllocated = false)
    (ha : b.arena.allocate b.capacity = (.ok (), a)) (hp : a.push = (.ok a.len, p)) :
    Begins b (.ok a.len, { b with arena := p })
  | next {p : Arena} (hf : b.numRows < b.capacity) (hn : b.arena.isAllocated = true)
    (hp : b.arena.push = (.ok b.arena.len, p)) : Begins b (.ok b.arena.len, { b with arena := p })

theorem Valid.capacity_of_isAllocated {b : Batch} (h : b.Valid) (hn : b.arena.isAllocated = true) :
    b.arena.capacity = b.capacity :=
  h.room.resolve_left fun hz => by simp [Arena.isAllocated, hz] at hn

theorem Valid.begins {b : Batch} (h : b.Valid) : b.Begins b.beginRecord := by
  have push_of (a : Arena) (hc : b.numRows < a.capacity) (hl : a.len = b.numRows) :
      ∃ p, a.push = (.ok a.len, p) :=
    ⟨_, if_neg (by omega)⟩
  rcases Nat.lt_or_ge b.numRows b.capacity with hlt | hge
  · have hf : b.isFull = false := by simpa [isFull] using hlt
    cases hn : b.arena.isAllocated with
    | true =>
      obtain ⟨p, hp⟩ := push_of b.arena (by rw [h.capacity_of_isAllocated hn]; exact hlt) rfl
      rw [show b.beginRecord = (.ok b.arena.len, { b with arena := p }) by simp [beginRecord, hf, hn, hp]]
      exact .next hlt hn hp
    | false =>
      rcases ha : b.arena.allocate b.capacity with ⟨e | u, a⟩
      · rw [Arena.allocate_error ha] at ha
        rw [show b.beginRecord = (.error e, b) by simp [beginRecord, hf, hn, ha]]
        exact .refused hlt hn ha
      · obtain ⟨_, _, _, hae⟩ := Arena.allocate_ok ha
        obtain ⟨p, hp⟩ := push_of a (by rw [hae]; exact hlt) (by rw [hae]; rfl)
        rw [show b.beginRecord = (.ok a.len, { b with arena := p }) by simp [beginRecord, hf, hn, ha, hp]]
        exact .allocated hlt hn ha hp
  · rw [show b.beginRecord = (.error (.batchFull b.capacity), b) by simp [beginRecord, isFull, hge]]
    exact .full hge

/-- What beginning a record can come to. -/
theorem Valid.beginRecord_cases {b : Batch} (h : b.Valid) :
    (∃ e, b.beginRecord = (.error e, b) ∧ NotBegun b e) ∨
      ∃ d, b.beginRecord = (.ok d.index, d.batch) ∧ Begun b d := by
  have hb := h.begins
  revert hb
  generalize b.beginRecord = result
  intro hb
  cases hb with
  | full hf => exact Or.inl ⟨_, rfl, .full hf⟩
  | refused _ hn ha => exact Or.inl ⟨_, rfl, notBegun_of_allocate hn ha⟩
  | @allocated a p _ _ ha hp =>
    obtain ⟨hae, hz, hv⟩ := h.arena.allocate ha
    have hl : b.arena.len = 0 := by have := h.arena.len_le; omega
    have hla : a.len = 0 := by rw [hae]; exact hl
    refine Or.inr ⟨⟨{ b with arena := p }, _⟩, rfl,
      h.begun_of_push hv (by rw [hae]) (by rw [hae]) (by rw [hae]) (by rw [hae]) (fun i => ?_) hp⟩
    rw [Arena.record, Arena.record, hla, hl, if_neg (Nat.not_lt_zero i), if_neg (Nat.not_lt_zero i)]
  | @next p _ hn hp =>
    exact Or.inr ⟨⟨{ b with arena := p }, _⟩, rfl,
      h.begun_of_push h.arena rfl (h.capacity_of_isAllocated hn) rfl rfl (fun _ => rfl) hp⟩

/-! Settling a record. -/

section Settling
variable {b : Batch} {d e : Draft}

theorem Begun.sound (h : Begun b d) : d.row.Sound := by
  have hs := Row.sound_zeros b.layout d.batch.arena.heap
  rw [← h.zeros] at hs
  rwa [show (⟨b.layout, d.row.record, d.batch.arena.heap⟩ : Row) = d.row by rw [← h.layout]; rfl] at hs

private theorem Begun.len_eq (h : Begun b d) : d.batch.arena.len = b.arena.len + 1 := by
  rw [← h.valid.last, h.index]
  rfl

theorem Begun.record (h : Begun b d) (hg : d.Grown e) {i : Nat} (hi : i < b.numRows) :
    e.batch.arena.record i = b.arena.record i := by
  obtain ⟨a, hp, hl, _, hr⟩ := h.pushed
  have hlen := h.len_eq
  have hi' : i < b.arena.len := hi
  rw [hg.arena.record i (by omega), Arena.record_push_of_lt hp (by omega), hr]

/-- A record that is given up leaves the rows and the heap as they were. -/
theorem Begun.same_discard (h : Begun b d) (hk : d.Kept e) : Same b e.discard := by
  obtain ⟨a, hp, hl, hh, hr⟩ := h.pushed
  obtain ⟨hpl, hph, hpr⟩ := hk.valid.arena.pop_of_grown hp hk.grown.arena
  have hlay : e.batch.layout = b.layout := hk.grown.layout.trans h.layout
  have hheap : e.discard.arena.heap = b.arena.heap := hph.trans hh
  refine ⟨hlay, hk.grown.capacity.trans h.capacity, hpl.trans hl, hheap, fun i => ?_⟩
  have hrec : e.discard.arena.record i = b.arena.record i := (hpr i).trans (hr i)
  rw [row, row, hrec, hheap, show e.discard.layout = b.layout from hlay]

theorem Begun.valid_discard (hb : b.Valid) (h : Begun b d) (hk : d.Kept e) : e.discard.Valid := by
  have hs := h.same_discard hk
  refine ⟨hk.valid.arena.pop, (Arena.pop_frame _).1.trans hk.valid.stride, Or.inr ?_,
    fun i r hr => hb.sound i r ?_, fun hn => ?_⟩
  · rw [Draft.discard, Arena.capacity_pop, hk.grown.arena.capacity, h.room]
    exact hs.capacity.symm
  · rwa [hs.row] at hr
  · rw [hs.heap]
    exact hb.heap_empty (by rw [← hs.numRows]; exact hn)

structure Extended (b : Batch) (r : Row) (c : Batch) : Prop where
  layout : c.layout = b.layout
  capacity : c.capacity = b.capacity
  numRows : c.numRows = b.numRows + 1
  heap : b.arena.heap.toList <+: c.arena.heap.toList
  values : ∀ i, i < b.numRows → c.values i = b.values i
  row : c.row b.numRows = .ok r

theorem Extended.values_self {b c : Batch} {r : Row} (h : Extended b r c) :
    c.values b.numRows = r.values := by
  rw [Batch.values, h.row]

theorem Begun.row_commit (h : Begun b d) (hk : d.Kept e) : e.commit.row b.numRows = .ok e.row := by
  have hr := hk.valid.record
  rw [hk.grown.index, h.index] at hr
  exact row_of_record hr

/-- A record that is kept is a row behind those there were. -/
theorem Begun.extended_commit (hb : b.Valid) (h : Begun b d) (hk : d.Kept e) :
    Extended b e.row e.commit := by
  have hlay : e.batch.layout = b.layout := hk.grown.layout.trans h.layout
  have hheap : b.arena.heap.toList <+: e.batch.arena.heap.toList := h.heap ▸ hk.grown.arena.heap
  refine ⟨hlay, hk.grown.capacity.trans h.capacity, hk.grown.arena.len.trans h.len_eq, hheap,
    fun i hi => ?_, h.row_commit hk⟩
  obtain ⟨r, hr⟩ := exists_row hi
  obtain ⟨record, hrec, rfl⟩ := row_ok hr
  have hc : e.commit.row i = .ok ⟨b.layout, record, e.batch.arena.heap⟩ := by
    rw [row_of_record (b := e.commit) ((h.record hk.grown hi).trans hrec),
      show e.commit.layout = b.layout from hlay]
    rfl
  have hv (j : Nat) := (hb.sound i _ hr).value_longer hheap j
  rw [Batch.values, Batch.values, hc, hr]
  dsimp only
  rw [Row.values, Row.values, ← funext hv]

theorem Begun.valid_commit (hb : b.Valid) (h : Begun b d) (hk : d.Kept e) : e.commit.Valid := by
  have hx := h.extended_commit hb hk
  refine ⟨hk.valid.arena, hk.valid.stride, Or.inr ?_, fun i r hr => ?_, fun hn => ?_⟩
  · exact (hk.grown.arena.capacity.trans h.room).trans hx.capacity.symm
  · have hi := lt_of_row hr
    rw [hx.numRows] at hi
    by_cases hlast : i = b.numRows
    · rw [hlast, hx.row] at hr
      cases hr
      exact hk.sound
    · obtain ⟨old, ho⟩ := exists_row (by omega : i < b.numRows)
      obtain ⟨record, hrec, rfl⟩ := row_ok ho
      obtain ⟨record', hrec', rfl⟩ := row_ok hr
      have hsame : record' = record :=
        Except.ok.inj (hrec'.symm.trans ((h.record hk.grown (by omega)).trans hrec))
      rw [hsame, hx.layout]
      exact (hb.sound i _ ho).longer hx.heap
  · rw [hx.numRows] at hn
    omega

end Settling

/-! Appending a row. -/

/-- A way to write a record that keeps it sound, whether it succeeds or fails. -/
def Careful (write : Draft → Except Failure Unit × Draft) : Prop :=
  ∀ d : Draft, d.Valid → d.row.Sound → d.Kept (write d).2

/-- A row that was appended is a record that was begun, written and kept. -/
theorem Valid.appendWith_ok {b c : Batch} (h : b.Valid) {write : Draft → Except Failure Unit × Draft}
    (hw : Careful write) (ha : b.appendWith write = (.ok (), c)) :
    ∃ d e, Begun b d ∧ write d = (.ok (), e) ∧ d.Kept e ∧ c = e.commit := by
  unfold appendWith at ha
  rcases h.beginRecord_cases with ⟨e, he, _⟩ | ⟨d, hd, hb⟩
  · rw [he] at ha
    cases ha
  · rw [hd] at ha
    have hk := hw d hb.valid hb.sound
    dsimp only at ha
    rw [show (⟨d.batch, d.index⟩ : Draft) = d from rfl] at ha
    rcases hr : write d with ⟨failure | u, e⟩
    · rw [hr] at ha
      cases ha
    · rw [hr] at ha hk
      cases ha
      exact ⟨d, e, hb, hr, hk, rfl⟩

/-- What appending a row can come to. -/
theorem Valid.appendWith_cases {b : Batch} (h : b.Valid) {write : Draft → Except Failure Unit × Draft}
    (hw : Careful write) :
    (∃ e, b.appendWith write = (.error (.error e), b) ∧ NotBegun b e) ∨
      (∃ f d c, b.appendWith write = (.error f, c) ∧ Begun b d ∧ (write d).1 = .error f ∧ Same b c ∧
        c.Valid) ∨
      ∃ d c, b.appendWith write = (.ok (), c) ∧ Begun b d ∧ write d = (.ok (), (write d).2) ∧
        Extended b (write d).2.row c ∧ c.arena.heap = (write d).2.row.heap ∧ c.Valid := by
  unfold appendWith
  rcases h.beginRecord_cases with ⟨e, he, hn⟩ | ⟨d, hd, hb⟩
  · rw [he]
    exact Or.inl ⟨e, rfl, hn⟩
  · rw [hd]
    have hk := hw d hb.valid hb.sound
    rcases hr : write d with ⟨result, e⟩
    rw [hr] at hk
    dsimp only at hk ⊢
    rw [show write ⟨d.batch, d.index⟩ = (result, e) from hr]
    cases result with
    | error f =>
      exact Or.inr (Or.inl ⟨f, d, e.discard, rfl, hb, by rw [hr], hb.same_discard hk,
        hb.valid_discard h hk⟩)
    | ok u =>
      refine Or.inr (Or.inr ⟨d, e.commit, rfl, hb, by rw [hr], ?_, ?_, hb.valid_commit h hk⟩)
      · rw [hr]
        exact hb.extended_commit h hk
      · rw [hr]
        rfl

/-- Appending a row that is written well extends a batch by that row. -/
theorem Valid.appendWith_yields {b : Batch} (h : b.Valid) {write : Draft → Except Failure Unit × Draft}
    (hw : Careful write) {good : Draft → Prop} {bad : Failure → Prop}
    (hy : ∀ d, Begun b d → Yields good bad (write d)) :
    Yields (fun c => c.Valid ∧ ∃ e : Draft, good e ∧ Extended b e.row c ∧ c.arena.heap = e.row.heap)
      (fun failure => (∃ e, failure = .error e ∧ NotBegun b e) ∨ bad failure) (b.appendWith write) := by
  rcases h.appendWith_cases hw with ⟨e, he, hn⟩ | ⟨f, d, c, hc, hb, hf, _⟩ | ⟨d, c, hc, hb, hd, hx, hh, hv⟩
  · rw [he]
    exact Or.inl ⟨e, rfl, hn⟩
  · have hbad := hy d hb
    rw [show write d = (.error f, (write d).2) from Prod.ext hf rfl] at hbad
    rw [hc]
    exact Or.inr hbad
  · have hgood := hy d hb
    rw [hd] at hgood
    rw [hc]
    exact ⟨hv, (write d).2, hgood, hx, hh⟩

theorem careful_fill (values : List Scalar) (i : Nat) : Careful (·.fill i values) := by
  induction values generalizing i with
  | nil =>
    intro d hd hs
    dsimp only
    unfold Draft.fill
    split <;> exact .refl hd hs
  | cons v rest ih =>
    intro d hd hs
    have hk := hd.kept_writeValue hs i v
    dsimp only
    unfold Draft.fill
    split
    · exact .refl hd hs
    · split
      · next hr => rwa [hr] at hk
      · next hr =>
        rw [hr] at hk
        exact hk.trans (ih (i + 1) _ hk.valid hk.sound)

theorem Draft.Valid.kept_writeAll {d : Draft} (h : d.Valid) (hs : d.row.Sound)
    (writes : List Draft.Write) : d.Kept (d.writeAll writes) := by
  induction writes generalizing d with
  | nil => exact .refl h hs
  | cons w rest ih =>
    have hk := h.kept_write hs w
    exact hk.trans (ih hk.valid hk.sound)

/-! Any operations. -/

/-- What an operation other than a reset comes to: no record is begun and nothing changes, or one is begun, written
to, and then kept or given up. -/
theorem Valid.apply_cases {b : Batch} (h : b.Valid) {op : Op} (hop : op ≠ .reset) :
    (∃ e, b.beginRecord = (.error e, b) ∧ b.apply op = b) ∨
      ∃ d e, b.beginRecord = (.ok d.index, d.batch) ∧ Begun b d ∧ d.Kept e ∧
        (b.apply op = e.commit ∨ b.apply op = e.discard) := by
  rcases h.beginRecord_cases with ⟨e, he, _⟩ | ⟨d, hd, hb⟩
  · refine Or.inl ⟨e, he, ?_⟩
    cases op with
    | append values => rw [Batch.apply, append, appendWith, he]
    | record writes kept => rw [Batch.apply, he]
    | reset => exact absurd rfl hop
  · cases op with
    | append values =>
      refine Or.inr ⟨d, (d.fill 0 values).2, hd, hb, careful_fill values 0 d hb.valid hb.sound, ?_⟩
      rw [Batch.apply, append, appendWith, hd]
      change (Draft.settle (d.fill 0 values)).2 = _ ∨ (Draft.settle (d.fill 0 values)).2 = _
      rcases d.fill 0 values with ⟨failure | u, e⟩
      · exact Or.inr rfl
      · exact Or.inl rfl
    | record writes kept =>
      refine Or.inr ⟨d, d.writeAll writes, hd, hb, Draft.Valid.kept_writeAll hb.valid hb.sound writes, ?_⟩
      rw [Batch.apply, hd]
      cases kept with
      | true => exact Or.inl rfl
      | false => exact Or.inr rfl
    | reset => exact absurd rfl hop

/-- An operation keeps a batch in order, with its layout and its capacity. -/
theorem Valid.apply_keeps {b : Batch} (h : b.Valid) (op : Op) :
    (b.apply op).Valid ∧ (b.apply op).layout = b.layout ∧ (b.apply op).capacity = b.capacity := by
  by_cases hop : op = .reset
  · subst hop
    exact ⟨h.reset, rfl, rfl⟩
  · rcases h.apply_cases hop with ⟨_, _, he⟩ | ⟨d, e, _, hb, hk, he | he⟩
    · rw [he]
      exact ⟨h, rfl, rfl⟩
    · have hx := hb.extended_commit h hk
      rw [he]
      exact ⟨hb.valid_commit h hk, hx.layout, hx.capacity⟩
    · have hs := hb.same_discard hk
      rw [he]
      exact ⟨hb.valid_discard h hk, hs.layout, hs.capacity⟩

theorem Valid.after_keeps {b : Batch} (h : b.Valid) (ops : List Op) :
    (b.after ops).Valid ∧ (b.after ops).layout = b.layout ∧ (b.after ops).capacity = b.capacity := by
  induction ops generalizing b with
  | nil => exact ⟨h, rfl, rfl⟩
  | cons op rest ih =>
    obtain ⟨hv, hl, hc⟩ := h.apply_keeps op
    obtain ⟨hv', hl', hc'⟩ := ih hv
    exact ⟨hv', hl'.trans hl, hc'.trans hc⟩

theorem after_append (b : Batch) (first second : List Op) :
    b.after (first ++ second) = (b.after first).after second := List.foldl_append

/-- Every batch that was built by operations is in order. -/
theorem Built.valid {layout : Layout} {b : Batch} (h : Built layout b) : b.Valid := by
  obtain ⟨capacity, limit, ops, rfl⟩ := h
  exact ((valid_new layout capacity limit).after_keeps ops).1

theorem Built.layout_eq {layout : Layout} {b : Batch} (h : Built layout b) : b.layout = layout := by
  obtain ⟨capacity, limit, ops, rfl⟩ := h
  exact ((valid_new layout capacity limit).after_keeps ops).2.1

theorem built_new (layout : Layout) (capacity : Nat) (limit : Option Nat) :
    Built layout (new layout capacity limit) := ⟨capacity, limit, [], rfl⟩

/-- The rows of a batch can all be read. -/
theorem Valid.exists_toRows {b : Batch} (h : b.Valid) : ∃ rows, b.toRows = .ok rows :=
  exists_mapM_range fun i hi => by
    obtain ⟨r, hr⟩ := exists_row hi
    obtain ⟨vs, hvs⟩ := (h.sound i r hr).exists_values
    exact ⟨vs, by rw [values, hr]; exact hvs⟩

/-- The rows of a batch, one by one. -/
theorem toRows_eq_ok_iff {b : Batch} {rows : List (List Scalar)} :
    b.toRows = .ok rows ↔ rows.length = b.numRows ∧ ∀ i vs, rows[i]? = some vs → b.values i = .ok vs :=
  mapM_range_eq_ok_iff

end Batch

end GroupingSets
