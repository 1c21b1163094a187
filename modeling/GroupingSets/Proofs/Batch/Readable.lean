import GroupingSets.Proofs.Batch.Rows

/-! Rows that writers filled in slot by slot. Whatever they wrote, and whether or not it succeeded, a
row that was kept reads slot by slot as null or as a value of the slot's type, and goes on reading so
while later records are written, given up, and their heap bytes used again. -/
namespace GroupingSets.Batch

/-- The values of a row are those of its slots. -/
private theorem value_of_values {b : Batch} {i : Nat} {r : Row} {vs : List Scalar} (hr : b.row i = .ok r)
    (hv : b.values i = .ok vs) {k : Nat} {v : Scalar} (hk : vs[k]? = some v) : r.value k = .ok v := by
  rw [values, hr] at hv
  exact (Row.values_eq_ok_iff.mp hv).2 k v hk

/-- No operation but a reset changes the slots of a row that is there. -/
private theorem Valid.row_after {b : Batch} (h : b.Valid) {ops : List Op} (hops : Op.reset ∉ ops) {i : Nat}
    {r : Row} (hr : b.row i = .ok r) :
    ∃ later, (b.after ops).row i = .ok later ∧
      ∀ k, k < b.layout.numSlots → later.value k = r.value k := by
  obtain ⟨vs, hvs⟩ := (h.sound i r hr).exists_values
  have hb : b.values i = .ok vs := by rw [values, hr]; exact hvs
  have ha : (b.after ops).values i = .ok vs := (h.values_after hops (lt_of_row hr)).trans hb
  obtain ⟨later, hl, _⟩ := row_of_values ha
  refine ⟨later, hl, fun k hk => ?_⟩
  obtain ⟨_, _, rfl⟩ := row_ok hr
  have hlen : vs.length = b.layout.numSlots := (Row.values_eq_ok_iff.mp hvs).1
  have hv := List.getElem?_eq_getElem (Nat.lt_of_lt_of_eq hk hlen.symm)
  rw [value_of_values hl ha hv, value_of_values hr hb hv]

/-- After any records, written to in any way and then kept or given up, and any appends between
them, every slot of every row reads as null or as a value of its type. Every reference in a row, also
that of a slot that is null, names the bytes of a value of the slot's type within the heap. What is
written after a row leaves all of its slots. -/
theorem rows_readable (layout : Layout) (capacity : Nat) (limit : Option Nat) (ops : List Op) :
    let b := (new layout capacity limit).after ops
    ∀ i, i < b.numRows → ∃ r, b.row i = .ok r ∧
      (∀ k slot, layout.slots[k]? = some slot →
        (∃ v, r.value k = .ok v ∧ (v = .null ∨ v.datatype? = some slot.datatype)) ∧
        (slot.datatype.isVarlen = true → ∃ (ref : HeapRef) (v : Scalar),
          HeapRef.decode? (r.place k slot) = some ref ∧ v.datatype? = some slot.datatype ∧
          ref.resolve? b.arena.heap = some v.payload)) ∧
      ∀ more, Op.reset ∉ more → ∃ later, (b.after more).row i = .ok later ∧
        ∀ k, k < layout.numSlots → later.value k = r.value k := by
  intro b i hi
  obtain ⟨hv, hl, _⟩ := (valid_new layout capacity limit).after_keeps ops
  obtain ⟨r, hr⟩ := exists_row hi
  have hs : r.Sound := hv.sound i r hr
  refine ⟨r, hr, fun k slot hk => ?_, fun more hmore => ?_⟩
  · obtain ⟨record, _, rfl⟩ := row_ok hr
    have hslot : b.layout.slots[k]? = some slot := by rw [hl]; exact hk
    exact ⟨hs.exists_value hslot, hs.exists_ref hslot⟩
  · obtain ⟨later, hlater, hsame⟩ := hv.row_after hmore hr
    exact ⟨later, hlater, fun k hk => hsame k (by rw [hl]; exact hk)⟩

/-- The first row has a text that was written twice, once beside a refused value, and then made null;
the text of the second one took the heap bytes of a record that was given up and of an append that
failed at its second slot. -/
theorem rows_readable_on_reused_heap :
    let slot : Slot := ⟨⟨1⟩, .utf8, true⟩
    let layout : Layout := ⟨⟨0⟩, [slot, ⟨⟨2⟩, .int32, false⟩, ⟨⟨3⟩, .binary, false⟩]⟩
    let ops : List Op :=
      [.record [.value 0 (.utf8 "ab"), .value 1 (.utf8 "no"), .value 0 (.utf8 "c"), .null 0] true,
        .record [.value 0 (.utf8 "lost"), .value 7 .null] false, .append [.utf8 "xyz", .null],
        .record [.integer 1 7, .value 2 .null, .value 0 (.utf8 "é"), .clearNulls] true]
    ((new layout 3 none).after ops).toRows =
        .ok [[.null, .int32 0, .binary []], [.utf8 "é", .int32 7, .binary []]] ∧
      ∀ i, i < 2 → ∃ r, ((new layout 3 none).after ops).row i = .ok r ∧
        (∃ (ref : HeapRef) (v : Scalar), HeapRef.decode? (r.place 0 slot) = some ref ∧
          v.datatype? = some .utf8 ∧
          ref.resolve? ((new layout 3 none).after ops).arena.heap = some v.payload) ∧
        ∃ later, (((new layout 3 none).after ops).after
            [.record [.value 0 (.utf8 "gone")] false]).row i = .ok later ∧
          later.value 0 = r.value 0 := by
  intro slot layout ops
  have hrows : ((new layout 3 none).after ops).toRows =
      .ok [[.null, .int32 0, .binary []], [.utf8 "é", .int32 7, .binary []]] :=
    ok_of_toOption (by decide +kernel)
  have hn : 2 = ((new layout 3 none).after ops).numRows := (toRows_eq_ok_iff.mp hrows).1
  refine ⟨hrows, fun i hi => ?_⟩
  obtain ⟨r, hr, hslots, hlater⟩ := rows_readable layout 3 none ops i (hn ▸ hi)
  obtain ⟨later, hl, hsame⟩ := hlater [.record [.value 0 (.utf8 "gone")] false] (by simp)
  exact ⟨r, hr, (hslots 0 slot rfl).2 rfl, later, hl, hsame 0 (by decide)⟩

end GroupingSets.Batch
