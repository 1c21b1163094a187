import GroupingSets.Arena
import GroupingSets.Proofs.Region

/-! What every operation keeps of an arena, and what it does to the records and the heap. -/
namespace GroupingSets.Arena

/-- The fixed region has room for the whole capacity, is zero behind the last record, and the heap is
addressable and within what is reserved for it. -/
structure Valid (a : Arena) : Prop where
  fixed_size : a.fixed.size = a.stride * a.capacity
  len_le : a.len ≤ a.capacity
  spare : ∀ j, a.len * a.stride ≤ j → j < a.fixed.size → a.fixed[j]? = some 0
  mark_le : a.mark ≤ a.heap.size
  heap_le : a.heap.size ≤ a.heapCapacity
  heap_small : a.heap.size ≤ maxHeap

theorem valid_new (stride : Nat) (limit : Option Nat) : (new stride limit).Valid where
  fixed_size := rfl
  len_le := Nat.le_refl _
  spare j _ hj := by simp [new] at hj
  mark_le := Nat.le_refl _
  heap_le := Nat.le_refl _
  heap_small := Nat.zero_le _

theorem Valid.reset {a : Arena} (_ : a.Valid) : a.reset.Valid := valid_new _ _

theorem Valid.record_end {a : Arena} (h : a.Valid) {i : Nat} (hi : i < a.len) :
    i * a.stride + a.stride ≤ a.fixed.size := by
  have hm := Nat.mul_le_mul_right a.stride (Nat.succ_le_of_lt (Nat.lt_of_lt_of_le hi h.len_le))
  rw [h.fixed_size, Nat.mul_comm a.stride]
  rwa [Nat.succ_mul] at hm

theorem record_of_lt {a : Arena} {i : Nat} (hi : i < a.len) :
    a.record i = .ok (Region.slice a.fixed (i * a.stride) a.stride) := if_pos hi

/-! The fixed region. -/

theorem allocate_ok {a b : Arena} {capacity : Nat} (ha : a.allocate capacity = (.ok (), b)) :
    a.capacity = 0 ∧ a.checkLimit (a.stride * capacity) = .ok () ∧
      a.stride * capacity ≤ maxReservation ∧
      b = { a with capacity, fixed := Array.replicate (a.stride * capacity) 0 } := by
  unfold allocate at ha
  split at ha
  · cases ha
  · next hc =>
    have hz : a.capacity = 0 := by simpa [isAllocated] using hc
    split at ha
    · cases ha
    · split at ha
      · cases ha
      · next hl =>
        split at ha
        · cases ha
        · next hr =>
          cases ha
          exact ⟨hz, hl, by omega, rfl⟩

theorem Valid.allocate {a b : Arena} (h : a.Valid) {capacity : Nat}
    (ha : a.allocate capacity = (.ok (), b)) :
    b = { a with capacity, fixed := Array.replicate (a.stride * capacity) 0 } ∧ a.capacity = 0 ∧ b.Valid := by
  obtain ⟨hz, _, _, rfl⟩ := allocate_ok ha
  have hl : a.len = 0 := by have := h.len_le; omega
  refine ⟨rfl, hz, ?_⟩
  exact { h with
    fixed_size := by simp
    len_le := by simp [hl]
    spare := by
      intro j _ hj
      rw [Array.getElem?_replicate, if_pos (by simpa using hj)] }

theorem push_ok {a b : Arena} {i : Nat} (hp : a.push = (.ok i, b)) :
    i = a.len ∧ a.len < a.capacity ∧ b = { a with len := a.len + 1, mark := a.heap.size } := by
  unfold push at hp
  split at hp <;> cases hp
  exact ⟨rfl, by omega, rfl⟩

theorem Valid.push {a b : Arena} (h : a.Valid) {i : Nat} (hp : a.push = (.ok i, b)) : b.Valid := by
  obtain ⟨_, hc, rfl⟩ := push_ok hp
  exact { h with
    len_le := hc
    spare := by
      intro j hj
      apply h.spare
      dsimp only at hj
      rw [Nat.succ_mul] at hj
      omega
    mark_le := Nat.le_refl _ }

/-- The records that have not been handed out are zero. -/
theorem Valid.slice_spare {a : Arena} (h : a.Valid) {i : Nat} (hl : a.len ≤ i) (hc : i < a.capacity) :
    Region.slice a.fixed (i * a.stride) a.stride = List.replicate a.stride 0 := by
  have hbehind := Nat.mul_le_mul_right a.stride hl
  have hend := Nat.mul_le_mul_right a.stride (Nat.succ_le_of_lt hc)
  have hsize := h.fixed_size
  rw [Nat.mul_comm a.stride] at hsize
  rw [Nat.succ_mul] at hend
  apply List.ext_getElem?
  intro j
  rw [Region.getElem?_slice, List.getElem?_replicate]
  split
  · exact h.spare _ (by omega) (by omega)
  · rfl

/-- A record starts out as zeros, also in a place that was given back before. -/
theorem Valid.record_push_self {a b : Arena} (h : a.Valid) {i : Nat} (hp : a.push = (.ok i, b)) :
    b.record i = .ok (List.replicate a.stride 0) := by
  obtain ⟨rfl, hc, rfl⟩ := push_ok hp
  rw [record_of_lt (Nat.lt_succ_self _)]
  exact congrArg Except.ok (h.slice_spare (Nat.le_refl _) hc)

theorem record_push_of_lt {a b : Arena} {i j : Nat} (hp : a.push = (.ok i, b)) (hj : j < a.len) :
    b.record j = a.record j := by
  obtain ⟨_, _, rfl⟩ := push_ok hp
  rw [record_of_lt hj, record_of_lt (Nat.lt_succ_of_lt hj)]

theorem write_ok {a b : Arena} {i offset : Nat} {bytes : List UInt8}
    (hw : a.write i offset bytes = .ok b) :
    i < a.len ∧ offset + bytes.length ≤ a.stride ∧
      b = { a with fixed := Region.overwrite a.fixed (i * a.stride + offset) bytes } := by
  unfold write at hw
  repeat' split at hw
  all_goals cases hw
  exact ⟨‹_›, ‹_›, rfl⟩

theorem write_of_le {a : Arena} {i offset : Nat} {bytes : List UInt8} (hi : i < a.len)
    (ho : offset + bytes.length ≤ a.stride) :
    a.write i offset bytes =
      .ok { a with fixed := Region.overwrite a.fixed (i * a.stride + offset) bytes } := by
  rw [write, if_pos hi, if_pos ho]

theorem Valid.write {a b : Arena} (h : a.Valid) {i offset : Nat} {bytes : List UInt8}
    (hw : a.write i offset bytes = .ok b) : b.Valid := by
  obtain ⟨hi, ho, rfl⟩ := write_ok hw
  have he := h.record_end hi
  have hm := Nat.mul_le_mul_right a.stride (Nat.succ_le_of_lt hi)
  rw [Nat.succ_mul] at hm
  exact { h with
    fixed_size := by rw [Region.size_overwrite, h.fixed_size]
    spare := by
      intro j hj hs
      rw [Region.size_overwrite] at hs
      dsimp only at hj
      rw [Region.getElem?_overwrite _ _ _ _ (by omega), if_neg (by omega)]
      exact h.spare j hj hs }

theorem Valid.record_write_self {a b : Arena} (h : a.Valid) {i offset : Nat}
    {bytes record : List UInt8} (hw : a.write i offset bytes = .ok b) (hr : a.record i = .ok record) :
    b.record i = .ok (Region.splice record offset bytes) := by
  obtain ⟨hi, ho, rfl⟩ := write_ok hw
  rw [record_of_lt hi] at hr
  cases hr
  rw [record_of_lt (by exact hi)]
  exact congrArg _ (Region.slice_overwrite_inside (h.record_end hi) ho)

/-- Records stand one behind the other. -/
theorem records_apart (stride : Nat) {i j : Nat} (h : i ≠ j) :
    i * stride + stride ≤ j * stride ∨ j * stride + stride ≤ i * stride := by
  rcases Nat.lt_or_gt_of_ne h with hlt | hgt
  · have hm := Nat.mul_le_mul_right stride (Nat.succ_le_of_lt hlt)
    rw [Nat.succ_mul] at hm
    exact Or.inl hm
  · have hm := Nat.mul_le_mul_right stride (Nat.succ_le_of_lt hgt)
    rw [Nat.succ_mul] at hm
    exact Or.inr hm

private theorem Valid.record_write_of_ne {a b : Arena} (h : a.Valid) {i j offset : Nat} {bytes : List UInt8}
    (hw : a.write i offset bytes = .ok b) (hj : j ≠ i) : b.record j = a.record j := by
  obtain ⟨hi, ho, rfl⟩ := write_ok hw
  unfold record
  dsimp only
  split
  · have he := h.record_end hi
    have happart := records_apart a.stride hj
    rw [Region.slice_overwrite_outside (by omega) (by omega)]
  · rfl

/-! The heap. -/

/-- What is added behind the heap has room for the bytes, at most doubles what is reserved, and fits
beside it under the limit. -/
theorem heapGrowth_ok {a : Arena} {size more : Nat} (h : a.heapGrowth size = .ok more) :
    size ≤ more ∧ more ≤ max size a.heapCapacity ∧
      ∀ limit, a.limit = some limit → more ≤ limit - a.reserved := by
  unfold heapGrowth at h
  dsimp only at h
  split at h
  · next hn =>
    cases h
    exact ⟨Nat.le_max_left _ _, Nat.le_refl _, fun limit hl => by rw [hn] at hl; cases hl⟩
  · next limit hs =>
    split at h
    · cases h
    · next ha =>
      cases h
      refine ⟨Nat.le_min.2 ⟨Nat.le_max_left _ _, by omega⟩, Nat.min_le_left _ _, fun l hl => ?_⟩
      rw [hs] at hl
      cases hl
      exact Nat.min_le_right _ _

/-- What is reserved for a heap that takes `size` more bytes: what was reserved before if it suffices, and
otherwise more room behind what it holds. -/
inductive Room (a : Arena) (size : Nat) : Nat → Prop where
  | kept (h : a.heap.size + size ≤ a.heapCapacity) : Room a size a.heapCapacity
  | grown {more : Nat} (h : a.heapCapacity < a.heap.size + size) (hg : a.heapGrowth size = .ok more) :
    Room a size (a.heap.size + more)

theorem Room.le {a : Arena} {size heapCapacity : Nat} (h : a.Room size heapCapacity) :
    a.heap.size + size ≤ heapCapacity ∧ a.heapCapacity ≤ heapCapacity := by
  cases h with
  | kept h => exact ⟨h, Nat.le_refl _⟩
  | grown h hg =>
    have := (heapGrowth_ok hg).1
    omega

theorem pushHeap_ok {a b : Arena} {bytes : List UInt8} {ref : HeapRef}
    (hp : a.pushHeap bytes = (.ok ref, b)) :
    ref = ⟨.ofNat a.heap.size, .ofNat bytes.length⟩ ∧ a.heap.size + bytes.length ≤ maxHeap ∧
      ∃ heapCapacity, a.Room bytes.length heapCapacity ∧
        b = { a with heap := a.heap.appendList bytes, heapCapacity } := by
  unfold pushHeap at hp
  dsimp only at hp
  split at hp
  · cases hp
  · next hm =>
    split at hp
    · next hc =>
      cases hp
      exact ⟨rfl, by omega, _, .kept hc, rfl⟩
    · next hc =>
      split at hp
      · cases hp
      · next more hg =>
        cases hp
        exact ⟨rfl, by omega, _, .grown (by omega) hg, rfl⟩

/-- The heap refuses bytes only because it would not be addressable or because of the limit. -/
theorem pushHeap_error_cases {a b : Arena} {bytes : List UInt8} {e : Error}
    (hp : a.pushHeap bytes = (.error e, b)) :
    (∃ wanted, e = .heapOverflow wanted) ∨
      ∃ wanted available limit, e = .heapLimit wanted available limit := by
  unfold pushHeap at hp
  dsimp only at hp
  split at hp
  · cases hp
    exact Or.inl ⟨_, rfl⟩
  · split at hp
    · cases hp
    · split at hp
      · next hg =>
        cases hp
        unfold heapGrowth at hg
        dsimp only at hg
        repeat' split at hg
        all_goals cases hg
        exact Or.inr ⟨_, _, _, rfl⟩
      · cases hp

theorem toList_heap_pushHeap {a b : Arena} {bytes : List UInt8} {ref : HeapRef}
    (hp : a.pushHeap bytes = (.ok ref, b)) : b.heap.toList = a.heap.toList ++ bytes := by
  obtain ⟨_, _, _, _, rfl⟩ := pushHeap_ok hp
  rw [Array.appendList_eq_append, Array.toList_appendList]

theorem size_heap_pushHeap {a b : Arena} {bytes : List UInt8} {ref : HeapRef}
    (hp : a.pushHeap bytes = (.ok ref, b)) : b.heap.size = a.heap.size + bytes.length := by
  rw [← Array.length_toList, toList_heap_pushHeap hp, List.length_append, Array.length_toList]

theorem Valid.pushHeap {a b : Arena} (h : a.Valid) {bytes : List UInt8} {ref : HeapRef}
    (hp : a.pushHeap bytes = (.ok ref, b)) : b.Valid := by
  have hs := size_heap_pushHeap hp
  obtain ⟨_, hm, heapCapacity, hroom, rfl⟩ := pushHeap_ok hp
  dsimp only at hs
  have := hroom.le
  have := h.mark_le
  exact { h with
    mark_le := by dsimp only; omega
    heap_le := by dsimp only; omega
    heap_small := by dsimp only; omega }

/-- The reference that is given out names the bytes that were pushed. -/
theorem resolve?_pushHeap {a b : Arena} {bytes : List UInt8} {ref : HeapRef}
    (hp : a.pushHeap bytes = (.ok ref, b)) : ref.resolve? b.heap = some bytes := by
  have hh := toList_heap_pushHeap hp
  have hs := size_heap_pushHeap hp
  obtain ⟨rfl, hm, _, _, _⟩ := pushHeap_ok hp
  have hw : UInt32.size = maxHeap + 1 := rfl
  have ho : (UInt32.ofNat a.heap.size).toNat = a.heap.size := UInt32.toNat_ofNat_of_lt (by omega)
  have hl : (UInt32.ofNat bytes.length).toNat = bytes.length := UInt32.toNat_ofNat_of_lt (by omega)
  rw [HeapRef.resolve?, ho, hl, if_pos (by omega), Region.slice_eq_take_drop, hh]
  rw [List.drop_left' (Array.length_toList), List.take_length]

/-! Giving back the record that was handed out last. -/

/-- One arena came from another by writing into its last record and pushing onto its heap. -/
structure Grown (a b : Arena) : Prop where
  stride : b.stride = a.stride
  limit : b.limit = a.limit
  capacity : b.capacity = a.capacity
  len : b.len = a.len
  mark : b.mark = a.mark
  record : ∀ i, i + 1 < a.len → b.record i = a.record i
  heap : a.heap.toList <+: b.heap.toList

theorem Grown.refl (a : Arena) : Grown a a :=
  ⟨rfl, rfl, rfl, rfl, rfl, fun _ _ => rfl, List.prefix_refl _⟩

theorem Grown.trans {a b c : Arena} (hab : Grown a b) (hbc : Grown b c) : Grown a c where
  stride := hbc.stride.trans hab.stride
  limit := hbc.limit.trans hab.limit
  capacity := hbc.capacity.trans hab.capacity
  len := hbc.len.trans hab.len
  mark := hbc.mark.trans hab.mark
  record i hi := (hbc.record i (by rw [hab.len]; exact hi)).trans (hab.record i hi)
  heap := hab.heap.trans hbc.heap

theorem Valid.grown_write {a b : Arena} (h : a.Valid) {i offset : Nat} {bytes : List UInt8}
    (hi : i + 1 = a.len) (hw : a.write i offset bytes = .ok b) : Grown a b := by
  have hr (j : Nat) (hj : j + 1 < a.len) : b.record j = a.record j :=
    h.record_write_of_ne hw (by omega)
  obtain ⟨_, _, rfl⟩ := write_ok hw
  exact ⟨rfl, rfl, rfl, rfl, rfl, hr, List.prefix_refl _⟩

theorem grown_pushHeap {a b : Arena} {bytes : List UInt8} {ref : HeapRef}
    (hp : a.pushHeap bytes = (.ok ref, b)) : Grown a b := by
  have hh := toList_heap_pushHeap hp
  obtain ⟨_, _, _, _, rfl⟩ := pushHeap_ok hp
  exact ⟨rfl, rfl, rfl, rfl, rfl, fun _ _ => rfl, by rw [hh]; exact List.prefix_append _ _⟩

/-- Nothing that was reserved is given back. -/
theorem pop_frame (a : Arena) :
    a.pop.stride = a.stride ∧ a.pop.limit = a.limit ∧ a.pop.heapCapacity = a.heapCapacity ∧
      a.pop.fixed.size = a.fixed.size := by
  unfold pop
  split
  · exact ⟨rfl, rfl, rfl, rfl⟩
  · exact ⟨rfl, rfl, rfl, Region.size_overwrite _ _ _⟩

theorem Valid.pop {a : Arena} (h : a.Valid) : a.pop.Valid := by
  unfold Arena.pop
  split
  · exact h
  · next hl =>
    have he := h.record_end (Nat.sub_one_lt hl)
    have hm : a.len * a.stride = (a.len - 1) * a.stride + a.stride := by
      rw [← Nat.succ_mul, Nat.succ_eq_add_one, Nat.sub_add_cancel (by omega)]
    have hs : (a.heap.take a.mark).size = a.mark := by
      simp only [Array.take_eq_extract, Array.size_extract]
      have := h.mark_le
      omega
    exact { h with
      fixed_size := by rw [Region.size_overwrite, h.fixed_size]
      len_le := by have := h.len_le; dsimp only; omega
      spare := by
        intro j hj hi
        rw [Region.size_overwrite] at hi
        dsimp only at hj
        rw [Region.getElem?_overwrite _ _ _ _ (by rwa [List.length_replicate])]
        split
        · rw [List.getElem?_replicate, if_pos (by simp only [List.length_replicate] at *; omega)]
        · exact h.spare j (by simp only [List.length_replicate] at *; omega) hi
      mark_le := by dsimp only; omega
      heap_le := by have := h.mark_le; have := h.heap_le; dsimp only; omega
      heap_small := by have := h.mark_le; have := h.heap_small; dsimp only; omega }

theorem Valid.record_pop {a : Arena} (h : a.Valid) {i : Nat} (hi : i + 1 < a.len) :
    a.pop.record i = a.record i := by
  have he := h.record_end (Nat.sub_one_lt (by omega : a.len ≠ 0))
  have hm := Nat.mul_le_mul_right a.stride (by omega : i + 1 ≤ a.len - 1)
  rw [Nat.succ_mul] at hm
  have hl : i < a.len - 1 := by omega
  rw [Arena.pop, if_neg (by omega), record_of_lt hl, record_of_lt (by omega)]
  apply congrArg Except.ok
  exact Region.slice_overwrite_outside (by rwa [List.length_replicate]) (Or.inl hm)

theorem len_pop (a : Arena) : a.pop.len = a.len - 1 := by
  unfold pop
  split
  · omega
  · rfl

theorem capacity_pop (a : Arena) : a.pop.capacity = a.capacity := by
  unfold pop
  split <;> rfl

theorem mark_pop (a : Arena) : a.pop.mark = a.mark := by
  unfold pop
  split <;> rfl

/-- The heap is cut back to what it held when the mark was set. -/
theorem heap_pop {a : Arena} {old : Array UInt8} (hl : a.len ≠ 0) (hm : a.mark = old.size)
    (hp : old.toList <+: a.heap.toList) : a.pop.heap = old := by
  obtain ⟨more, he⟩ := hp
  rw [pop, if_neg hl]
  apply Array.toList_inj.mp
  dsimp only
  rw [Array.take_eq_extract, Array.toList_extract, List.extract_eq_take_drop, Nat.sub_zero, List.drop_zero, hm,
    ← he, List.take_left' Array.length_toList]

/-- After a record was handed out, was written and was taken back, the records and the heap are what
they were before. -/
theorem Valid.pop_of_grown {a b c : Arena} {i : Nat} (hp : a.push = (.ok i, b)) (hg : Grown b c)
    (hc : c.Valid) :
    c.pop.len = a.len ∧ c.pop.heap = a.heap ∧ ∀ j, c.pop.record j = a.record j := by
  have hb (j : Nat) (hj : j < a.len) : b.record j = a.record j := record_push_of_lt hp hj
  have hbl : b.len = c.len := hg.len.symm
  obtain ⟨hn, hm, hh⟩ : c.len = a.len + 1 ∧ c.mark = a.heap.size ∧ a.heap.toList <+: c.heap.toList := by
    obtain ⟨_, _, rfl⟩ := push_ok hp
    exact ⟨hg.len, hg.mark, hg.heap⟩
  have hl : c.pop.len = a.len := by rw [len_pop, hn, Nat.add_sub_cancel]
  refine ⟨hl, heap_pop (by omega) hm hh, fun j => ?_⟩
  by_cases hj : j < a.len
  · rw [hc.record_pop (by omega), hg.record j (by omega), hb j hj]
  · rw [record, record, hl, if_neg hj, if_neg hj]

end GroupingSets.Arena
