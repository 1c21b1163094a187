import GroupingSets.Proofs.Batch.Operation

/-! A batch as a bounded list of rows: it reads as the rows that were appended since it was last
reset, and its heap is their bytes of varying length one behind the other. -/
namespace GroupingSets

namespace Draft

/-- A record is filled with one value for each slot, or refused with an error. -/
private theorem Valid.fill_yields {d : Draft} (h : d.Valid) (hs : d.row.Sound) (i : Nat) (values : List Scalar) :
    Yields (fun e => i + values.length = d.layout.numSlots ∧ Filled i values d e)
      (fun failure => ∃ err, failure = .error err) (d.fill i values) := by
  induction values generalizing d i with
  | nil =>
    unfold fill
    split
    · exact ⟨‹_›, .nil h hs i⟩
    · exact ⟨_, rfl⟩
  | cons v rest ih =>
    unfold fill
    split
    · exact ⟨_, rfl⟩
    · next hlt =>
      have hi := List.getElem?_eq_getElem (Nat.lt_of_not_le hlt : i < d.layout.slots.length)
      rcases h.writeValue_cases hs hi v with ⟨err, f, hw, _⟩ | ⟨f, hw, hst⟩
      · rw [hw]
        exact ⟨err, rfl⟩
      · rw [hw]
        refine (ih hst.writes.valid hst.sound (i + 1)).imp (fun e he => ?_) fun _ hf => hf
        have hlay : f.layout.numSlots = d.layout.numSlots := congrArg Layout.numSlots hst.writes.grown.layout
        refine ⟨?_, he.2.cons hs hst⟩
        rw [List.length_cons]
        omega

end Draft

namespace Batch

/-- The rows there are after an operation on a batch with the given rows: one more after an append
that went well, and none after a reset. -/
def keep (b : Batch) (rows : List (List Scalar)) : Op → List (List Scalar)
  | .append values =>
    match (b.append values).1 with
    | .ok _ => rows ++ [values]
    | .error _ => rows
  | .record _ _ => rows
  | .reset => []

def accepted (b : Batch) (rows : List (List Scalar)) : List Op → List (List Scalar)
  | [] => rows
  | op :: rest => (b.apply op).accepted (b.keep rows op) rest

/-- A batch reads as the given rows, and its heap has their bytes. -/
structure Holds (b : Batch) (rows : List (List Scalar)) : Prop where
  valid : b.Valid
  numRows : b.numRows = rows.length
  values : ∀ i vs, rows[i]? = some vs → b.values i = .ok vs
  heap : b.arena.heap.toList = rows.flatMap fun row => row.flatMap Scalar.payload

private theorem holds_new (layout : Layout) (capacity : Nat) (limit : Option Nat) :
    (new layout capacity limit).Holds [] where
  valid := valid_new layout capacity limit
  numRows := rfl
  values i vs h := by rw [List.getElem?_nil] at h; cases h
  heap := rfl

theorem Holds.toRows {b : Batch} {rows : List (List Scalar)} (h : b.Holds rows) : b.toRows = .ok rows :=
  toRows_eq_ok_iff.mpr ⟨h.numRows.symm, h.values⟩

private theorem Holds.of_same {b c : Batch} {rows : List (List Scalar)} (h : b.Holds rows) (hs : Same b c)
    (hv : c.Valid) : c.Holds rows where
  valid := hv
  numRows := hs.numRows.trans h.numRows
  values i vs hi := (hs.values i).trans (h.values i vs hi)
  heap := by rw [hs.heap, h.heap]

/-- What appending a row of values comes to: it is refused and nothing changes, or it is the last
row. -/
theorem Valid.append_cases {b : Batch} (h : b.Valid) (values : List Scalar) :
    (∃ err c, b.append values = (.error (.error err), c) ∧ Same b c ∧ c.Valid) ∨
      ∃ r c, b.append values = (.ok (), c) ∧ Extended b r c ∧ c.Valid ∧ r.values = .ok values ∧
        c.arena.heap.toList = b.arena.heap.toList ++ values.flatMap Scalar.payload := by
  rcases h.appendWith_cases (careful_fill values 0) with
    ⟨e, he, _⟩ | ⟨f, d, c, hc, hb, hw, hs, hv⟩ | ⟨d, c, hc, hb, hw, hx, hh, hv⟩
  · exact Or.inl ⟨e, b, he, .refl b, h⟩
  · have hy := hb.valid.fill_yields hb.sound 0 values
    rw [show d.fill 0 values = (.error f, (d.fill 0 values).2) from Prod.ext hw rfl] at hy
    obtain ⟨err, rfl⟩ := hy
    exact Or.inl ⟨err, c, hc, hs, hv⟩
  · have hy := hb.valid.fill_yields hb.sound 0 values
    rw [show d.fill 0 values = _ from hw] at hy
    obtain ⟨hlen, hf⟩ := hy
    rw [Nat.zero_add] at hlen
    refine Or.inr ⟨_, c, hc, hx, hv, hf.values hlen, ?_⟩
    rw [hh, hf.heap]
    exact congrArg (fun heap : Array UInt8 => heap.toList ++ values.flatMap Scalar.payload) hb.heap

theorem Valid.holds_nil {b : Batch} (h : b.Valid) (hn : b.numRows = 0) : b.Holds [] where
  valid := h
  numRows := hn
  values i vs hi := by rw [List.getElem?_nil] at hi; cases hi
  heap := by rw [h.heap_empty hn]; rfl

/-- One more row behind those that a batch holds. -/
theorem Holds.extend {b c : Batch} {rows : List (List Scalar)} {r : Row} {values : List Scalar}
    (h : b.Holds rows) (hx : Extended b r c) (hv : c.Valid) (hr : r.values = .ok values)
    (hh : c.arena.heap.toList = b.arena.heap.toList ++ values.flatMap Scalar.payload) :
    c.Holds (rows ++ [values]) where
  valid := hv
  numRows := by
    rw [hx.numRows, h.numRows, List.length_append]
    rfl
  values i vs hi := by
    rw [List.getElem?_append] at hi
    split at hi
    · next hlt => rw [hx.values i (by rw [h.numRows]; exact hlt), h.values i vs hi]
    · next hge =>
      obtain ⟨hlt, he⟩ := List.getElem?_eq_some_iff.mp hi
      rw [List.length_singleton] at hlt
      rw [List.getElem_singleton] at he
      rw [show i = b.numRows by rw [h.numRows]; omega, hx.values_self, hr, he]
  heap := by rw [hh, h.heap, List.flatMap_append, List.flatMap_singleton]

private theorem Holds.append {b : Batch} {rows : List (List Scalar)} (h : b.Holds rows) (values : List Scalar) :
    (b.append values).2.Holds (b.keep rows (.append values)) := by
  rcases h.valid.append_cases values with ⟨f, c, hc, hs, hv⟩ | ⟨r, c, hc, hx, hv, hr, hh⟩
  · rw [keep, hc]
    exact h.of_same hs hv
  · rw [keep, hc]
    exact h.extend hx hv hr hh

/-- A record that is given up leaves a batch as it was, whatever was written. -/
private theorem Valid.same_record {b : Batch} (h : b.Valid) (writes : List Draft.Write) :
    Same b (b.apply (.record writes false)) := by
  unfold Batch.apply
  rcases h.beginRecord_cases with ⟨e, he, _⟩ | ⟨d, hd, hb⟩
  · rw [he]
    exact .refl b
  · rw [hd]
    exact hb.same_discard (Draft.Valid.kept_writeAll hb.valid hb.sound writes)

private theorem Holds.apply {b : Batch} {rows : List (List Scalar)} (h : b.Holds rows) {op : Op}
    (hop : ∀ writes, op ≠ .record writes true) : (b.apply op).Holds (b.keep rows op) := by
  cases op with
  | append values => exact h.append values
  | record writes kept =>
    cases kept with
    | true => exact absurd rfl (hop writes)
    | false => exact h.of_same (h.valid.same_record writes) (h.valid.apply_keeps _).1
  | reset => exact ⟨h.valid.reset, rfl, (holds_new b.layout b.capacity b.arena.limit).values, rfl⟩

private theorem Holds.after {b : Batch} {rows : List (List Scalar)} (h : b.Holds rows) {ops : List Op}
    (hops : ∀ writes, Op.record writes true ∉ ops) : (b.after ops).Holds (b.accepted rows ops) := by
  induction ops generalizing b rows with
  | nil => exact h
  | cons op rest ih =>
    exact ih (h.apply fun writes he => hops writes (he ▸ List.mem_cons_self))
      fun writes hm => hops writes (List.mem_cons_of_mem _ hm)

/-- No operation but a reset changes a row that is there. -/
private theorem Valid.values_apply {b : Batch} (h : b.Valid) {op : Op} (hop : op ≠ .reset) {i : Nat}
    (hi : i < b.numRows) : i < (b.apply op).numRows ∧ (b.apply op).values i = b.values i := by
  rcases h.apply_cases hop with ⟨_, _, he⟩ | ⟨d, e, _, hb, hk, he | he⟩
  · rw [he]
    exact ⟨hi, rfl⟩
  · have hx := hb.extended_commit h hk
    rw [he]
    exact ⟨Nat.lt_of_lt_of_eq (Nat.lt_succ_of_lt hi) hx.numRows.symm, hx.values i hi⟩
  · have hs := hb.same_discard hk
    rw [he]
    exact ⟨Nat.lt_of_lt_of_eq hi hs.numRows.symm, hs.values i⟩

theorem Valid.values_after {b : Batch} (h : b.Valid) {ops : List Op} (hops : Op.reset ∉ ops) {i : Nat}
    (hi : i < b.numRows) : (b.after ops).values i = b.values i := by
  induction ops generalizing b with
  | nil => rfl
  | cons op rest ih =>
    obtain ⟨hlt, hv⟩ := h.values_apply (fun he => hops (he ▸ List.mem_cons_self)) hi
    exact (ih (h.apply_keeps op).1 (fun hm => hops (List.mem_cons_of_mem _ hm)) hlt).trans hv

/-- A batch refines the bounded list of the rows appended to it. Appends that fail at any value and
records that are given up leave its rows and its heap, and a row once appended stays until a reset. -/
theorem after_refines_accepted (layout : Layout) (capacity : Nat) (limit : Option Nat) (ops : List Op)
    (hops : ∀ writes, Op.record writes true ∉ ops) :
    let b := (new layout capacity limit).after ops
    let rows := (new layout capacity limit).accepted [] ops
    b.toRows = .ok rows ∧ b.numRows = rows.length ∧ rows.length ≤ capacity ∧
      b.arena.heap.toList = rows.flatMap (fun row => row.flatMap Scalar.payload) ∧
      (∀ writes, Same b (b.apply (.record writes false))) ∧
      (∀ values, (b.append values).1 = .ok () ∨
        ∃ e, (b.append values).1 = .error (.error e) ∧ Same b (b.append values).2) ∧
      ∀ more, Op.reset ∉ more → ∀ i, i < b.numRows → (b.after more).values i = b.values i := by
  intro b rows
  have h : b.Holds rows := (holds_new layout capacity limit).after hops
  have hcap : b.capacity = capacity := ((valid_new layout capacity limit).after_keeps ops).2.2
  refine ⟨h.toRows, h.numRows, ?_, h.heap, h.valid.same_record, fun values => ?_,
    fun more hmore i hi => h.valid.values_after hmore hi⟩
  · rw [← h.numRows, ← hcap]
    exact h.valid.numRows_le
  · rcases h.valid.append_cases values with ⟨e, c, hc, hs, _⟩ | ⟨_, c, hc, _⟩
    · rw [hc]
      exact Or.inr ⟨e, rfl, hs⟩
    · rw [hc]
      exact Or.inl rfl

/-- A row refused at its second slot, a record given up with text on the heap, and two rows that
stay. -/
theorem toRows_after_refusals :
    let layout : Layout := ⟨⟨0⟩, [⟨⟨1⟩, .utf8, false⟩, ⟨⟨2⟩, .int32, true⟩]⟩
    let ops : List Op :=
      [.append [.utf8 "lost", .null], .reset, .append [.utf8 "ab", .int32 7],
        .append [.utf8 "cd", .utf8 "ef"], .record [.value 0 (.utf8 "gh"), .null 1] false,
        .append [.utf8 "e", .null]]
    (∀ writes, Op.record writes true ∉ ops) ∧
      ((new layout 3 none).after ops).toRows =
        .ok [[.utf8 "ab", .int32 7], [.utf8 "e", .null]] := by
  intro layout ops
  have hops : ∀ writes, Op.record writes true ∉ ops := by
    intro writes hm
    simp [ops] at hm
  have hrows : (new layout 3 none).accepted [] ops = [[.utf8 "ab", .int32 7], [.utf8 "e", .null]] := by
    decide +kernel
  exact ⟨hops, (after_refines_accepted layout 3 none ops hops).1.trans (congrArg Except.ok hrows)⟩

end Batch

end GroupingSets
