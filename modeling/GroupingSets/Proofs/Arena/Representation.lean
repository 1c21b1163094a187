import GroupingSets.Proofs.Arena.Limit

/-! How an arena stands in memory. After any calls its fixed region is exactly its records, one behind the other, and
what is not handed out of it is zero. So a record that was handed out is found inside of the region, at an address
that is a size, and apart from all others. -/
namespace GroupingSets.Arena

variable {a : Arena}

/-- A record can be looked at exactly if it has been handed out. -/
private theorem exists_record_iff {i : Nat} : (∃ bytes, a.record i = .ok bytes) ↔ i < a.len := by
  unfold record
  split
  · next hi => exact iff_of_true ⟨_, rfl⟩ hi
  · next hi => exact iff_of_false (fun ⟨_, h⟩ => by cases h) hi

/-- Its bytes are inside of the region, as many as a record has. -/
private theorem Valid.record_inside (h : a.Valid) {i : Nat} {bytes : List UInt8} (hr : a.record i = .ok bytes) :
    bytes = Region.slice a.fixed (i * a.stride) a.stride ∧ bytes.length = a.stride ∧
      i * a.stride + a.stride ≤ a.fixed.size := by
  have hi : i < a.len := exists_record_iff.mp ⟨bytes, hr⟩
  have hend := h.record_end hi
  rw [record_of_lt hi] at hr
  cases hr
  exact ⟨rfl, Region.length_slice hend, hend⟩

/-- After any calls no more records are handed out than there is room for, the fixed region has the bytes of exactly
as many as there is room for, and those not handed out are zero. The mark is within the heap, and the heap within what
is reserved for it. A record can be looked at exactly if it is handed out; its bytes are then inside of the region,
whose end is still a size, and no byte is of two records. What fails changes nothing. -/
theorem representation_after (stride : Nat) (limit : Option Nat) (ops : List Op) :
    let a := (new stride limit).after ops
    a.len ≤ a.capacity ∧ a.fixed.size = a.capacity * stride ∧
    (∀ i, a.len ≤ i → i < a.capacity →
      Region.slice a.fixed (i * stride) stride = List.replicate stride 0) ∧
    (a.mark ≤ a.heap.size ∧ a.heap.size ≤ a.heapCapacity) ∧
    (∀ i, (∃ bytes, a.record i = .ok bytes) ↔ i < a.len) ∧
    (∀ i bytes, a.record i = .ok bytes →
      bytes = Region.slice a.fixed (i * stride) stride ∧ bytes.length = stride ∧
        i * stride + stride ≤ a.fixed.size ∧ a.fixed.size ≤ maxSize) ∧
    (∀ i j, i < a.len → j < a.len → i ≠ j →
      i * stride + stride ≤ j * stride ∨ j * stride + stride ≤ i * stride) ∧
    (∀ capacity e b, a.allocate capacity = (.error e, b) → b = a) ∧
    (∀ e b, a.push = (.error e, b) → b = a) ∧
    ∀ bytes e b, a.pushHeap bytes = (.error e, b) → b = a := by
  intro a
  have h : a.Bounded := bounded_after stride limit ops
  have hstride : a.stride = stride := (after_frame (new stride limit) ops).1
  have hsize : a.fixed.size ≤ maxSize := Nat.le_trans h.fixed_le (by decide)
  clear_value a
  subst hstride
  refine ⟨h.len_le, h.fixed_size.trans (Nat.mul_comm _ _), fun i => h.slice_spare, ⟨h.mark_le, h.heap_le⟩,
    fun i => exists_record_iff, fun i bytes hr => ?_, fun i j _ _ => records_apart a.stride,
    fun capacity e b => allocate_error, fun e b => push_error, fun bytes e b => pushHeap_error⟩
  obtain ⟨hbytes, hlength, hend⟩ := h.toValid.record_inside hr
  exact ⟨hbytes, hlength, hend, hsize⟩

/-- Bytes before there are records, no room at first, one record too many and one that is taken back: the two that
remain are apart, the third is zero again, and neither a second region nor bytes beyond the limit change anything. -/
theorem representation_after_refusals :
    let ops : List Op :=
      [.pushHeap [1], .allocate 0, .push, .allocate 3, .push, .write 0 0 [5, 6], .push, .push, .write 2 1 [7], .push,
        .pop, .pushHeap [2, 3], .write 1 1 [8]]
    let a := (new 2 (some 9)).after ops
    a.len = 2 ∧ a.capacity = 3 ∧ a.fixed = #[5, 6, 0, 8, 0, 0] ∧
      Region.slice a.fixed (2 * 2) 2 = [0, 0] ∧ (∃ bytes, a.record 1 = .ok bytes ∧ bytes.length = 2) ∧
      (0 * 2 + 2 ≤ 1 * 2 ∨ 1 * 2 + 2 ≤ 0 * 2) ∧ a.allocate 1 = (.error (.arenaAllocated 3), a) ∧
      a.pushHeap [4] = (.error (.heapLimit 1 0 9), a) := by
  intro ops a
  have hlen : a.len = 2 := by decide +kernel
  have hcapacity : a.capacity = 3 := by decide +kernel
  obtain ⟨_, _, hzero, _, hrecord, hinside, hapart, hallocate, _, hheap⟩ := representation_after 2 (some 9) ops
  obtain ⟨bytes, hr⟩ := (hrecord 1).mpr (by rw [hlen]; decide)
  obtain ⟨_, hlength, _⟩ := hinside 1 bytes hr
  have he : (a.allocate 1).1 = .error (.arenaAllocated 3) := rfl
  have hf : (a.pushHeap [4]).1 = .error (.heapLimit 1 0 9) := rfl
  refine ⟨hlen, hcapacity, by decide +kernel, hzero 2 (Nat.le_of_eq hlen) (by rw [hcapacity]; decide),
    ⟨bytes, hr, hlength⟩, hapart 0 1 (by rw [hlen]; decide) (by rw [hlen]; decide) (by decide), ?_, ?_⟩
  · exact Prod.ext he (hallocate 1 _ _ (Prod.ext he rfl))
  · exact Prod.ext hf (hheap [4] _ _ (Prod.ext hf rfl))

end GroupingSets.Arena
