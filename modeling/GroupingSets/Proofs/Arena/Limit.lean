import GroupingSets.Proofs.Arena.Run

/-! The limit of an arena. Whatever is done, no more is reserved than the limit allows, and what a success
appends has been reserved before. Bytes are refused exactly if they fit neither into what is reserved for the
heap already nor into what may still be reserved; that they would fit into both together does not help. -/
namespace GroupingSets.Arena

variable {a b : Arena}

/-- What is reserved is within the limit. A heap is small beside the largest size, so that no sum or product of
sizes leaves their range. -/
structure Bounded (a : Arena) : Prop extends Valid a where
  reserved_le : ∀ limit, a.limit = some limit → a.reserved ≤ limit
  heapCapacity_le : a.heapCapacity ≤ 2 * maxHeap
  fixed_le : a.fixed.size ≤ maxReservation

private theorem sizes_fit : maxReservation + 2 * maxHeap ≤ maxSize := by decide

private theorem bounded_new (stride : Nat) (limit : Option Nat) : (new stride limit).Bounded where
  toValid := valid_new stride limit
  reserved_le _ _ := Nat.zero_le _
  heapCapacity_le := Nat.zero_le _
  fixed_le := Nat.zero_le _

/-- Calls that reserve nothing stay within the limit. -/
private theorem Bounded.of_same (h : a.Bounded) (hv : b.Valid) (hl : b.limit = a.limit)
    (hf : b.fixed.size = a.fixed.size) (hc : b.heapCapacity = a.heapCapacity) : b.Bounded where
  toValid := hv
  reserved_le := by rw [hl, reserved, hf, hc]; exact h.reserved_le
  heapCapacity_le := by rw [hc]; exact h.heapCapacity_le
  fixed_le := by rw [hf]; exact h.fixed_le

/-- A check that passes leaves room, unless the sum is beyond all sizes. -/
private theorem checkLimit_ok {more : Nat} (h : a.checkLimit more = .ok ()) (hm : a.reserved + more ≤ maxSize)
    {limit : Nat} (hl : a.limit = some limit) : a.reserved + more ≤ limit := by
  simp only [checkLimit, hl, Nat.min_eq_left hm] at h
  split at h
  · cases h
  · omega

private theorem Bounded.allocate (h : a.Bounded) {capacity : Nat} (ha : a.allocate capacity = (.ok (), b)) :
    b.Bounded := by
  have hv := (h.toValid.allocate ha).2.2
  obtain ⟨hz, hc, hr, rfl⟩ := allocate_ok ha
  have hs : a.reserved = a.heapCapacity := by rw [reserved, h.fixed_size, hz, Nat.mul_zero, Nat.zero_add]
  have hm : a.reserved + a.stride * capacity ≤ maxSize := by
    have := h.heapCapacity_le
    have := sizes_fit
    omega
  refine ⟨hv, fun limit hl => ?_, h.heapCapacity_le, by simpa using hr⟩
  have := checkLimit_ok hc hm hl
  simp only [reserved, Array.size_replicate]
  omega

private theorem Bounded.pushHeap (h : a.Bounded) {bytes : List UInt8} {ref : HeapRef}
    (hp : a.pushHeap bytes = (.ok ref, b)) : b.Bounded := by
  have hv := h.toValid.pushHeap hp
  obtain ⟨_, hm, heapCapacity, hroom, rfl⟩ := pushHeap_ok hp
  cases hroom with
  | kept => exact h.of_same hv rfl rfl rfl
  | grown hc hg =>
    obtain ⟨_, hd, hl⟩ := heapGrowth_ok hg
    refine ⟨hv, fun limit hlim => ?_, ?_, h.fixed_le⟩
    · -- what is added counts from the length of the heap, and the limit was measured from its capacity
      have hr := h.reserved_le limit hlim
      have hs := h.heap_le
      have := hl limit hlim
      simp only [reserved] at hr this ⊢
      omega
    · -- what was reserved did not suffice, so it was below the greatest heap
      dsimp only
      omega

private theorem heapCapacity_le_pushHeap {bytes : List UInt8} {ref : HeapRef}
    (hp : a.pushHeap bytes = (.ok ref, b)) : a.heapCapacity ≤ b.heapCapacity := by
  obtain ⟨_, _, _, hroom, rfl⟩ := pushHeap_ok hp
  exact hroom.le.2

private theorem Bounded.step (h : a.Bounded) {op : Op} (hs : Step a op b) : b.Bounded := by
  have hv := h.toValid.step hs
  cases hs with
  | refused => exact h
  | allocate ha => exact h.allocate ha
  | push hp =>
    obtain ⟨_, _, rfl⟩ := push_ok hp
    exact h.of_same hv rfl rfl rfl
  | pop =>
    obtain ⟨_, hl, hc, hf⟩ := pop_frame a
    exact h.of_same hv hl hf hc
  | write hw =>
    obtain ⟨_, _, rfl⟩ := write_ok hw
    exact h.of_same hv rfl (Region.size_overwrite _ _ _) rfl
  | pushHeap hp => exact h.pushHeap hp
  | reset => exact bounded_new _ _

/-- Every arena that calls have made of a new one is within its limit. -/
theorem bounded_after (stride : Nat) (limit : Option Nat) (ops : List Op) :
    ((new stride limit).after ops).Bounded :=
  after_keeps (fun h hs => h.step hs) (bounded_new stride limit) ops

/-- After any calls no more is reserved than the limit allows. What is put on the heap stands within the room that
was reserved for it. The fixed region is as long as all of its records together, and one whose length would be
beyond all sizes is refused. -/
theorem reserved_within_limit (stride : Nat) (limit : Option Nat) (ops : List Op) :
    let a := (new stride limit).after ops
    (∀ l, limit = some l → a.reserved ≤ l) ∧
    (∀ bytes ref b, a.pushHeap bytes = (.ok ref, b) →
      b.heap.size = a.heap.size + bytes.length ∧ b.heap.size ≤ b.heapCapacity ∧
        a.heapCapacity ≤ b.heapCapacity ∧ ∀ l, limit = some l → b.reserved ≤ l) ∧
    (∀ capacity b, a.allocate capacity = (.ok (), b) →
      b.fixed.size = stride * capacity ∧ stride * capacity ≤ maxSize) ∧
    ∀ capacity, a.isAllocated = false → maxSize < stride * capacity →
      a.allocate capacity = (.error (.arenaOverflow stride capacity), a) := by
  intro a
  have h : a.Bounded := bounded_after stride limit ops
  obtain ⟨hstride, hlimit⟩ : a.stride = stride ∧ a.limit = limit := after_frame (new stride limit) ops
  refine ⟨fun l hl => h.reserved_le l (hlimit.trans hl), fun bytes ref b hp => ?_, fun capacity b ha => ?_,
    fun capacity hn hlarge => ?_⟩
  · have hb := h.pushHeap hp
    have hframe := (Step.pushHeap hp).frame.2
    exact ⟨size_heap_pushHeap hp, hb.heap_le, heapCapacity_le_pushHeap hp,
      fun l hl => hb.reserved_le l (hframe.trans (hlimit.trans hl))⟩
  · obtain ⟨_, _, hr, rfl⟩ := allocate_ok ha
    rw [hstride] at hr ⊢
    have := sizes_fit
    exact ⟨Array.size_replicate, by omega⟩
  · rw [Arena.allocate, if_neg (by simp [hn]), hstride, if_pos hlarge]

/-- Bytes before the records, a capacity whose product with the stride is beyond all sizes, bytes that the limit
refuses, and a record that is given up: the heap keeps the room that it had, and is given more for what follows. -/
theorem reserved_within_limit_after_refusals :
    let ops : List Op :=
      [.pushHeap [1, 2, 3], .pushHeap [4], .allocate 9223372036854775808, .allocate 4, .push, .pushHeap [5, 6],
        .pushHeap [7, 8, 9, 10], .pop]
    let a := (new 2 (some 17)).after ops
    a.heap = #[1, 2, 3, 4] ∧ a.fixed.size = 8 ∧ a.heapCapacity = 6 ∧ a.reserved ≤ 17 ∧
      ∃ ref b, a.pushHeap [5, 6, 7] = (.ok ref, b) ∧ b.heap.size = a.heap.size + 3 ∧
        b.heap.size ≤ b.heapCapacity ∧ b.reserved ≤ 17 := by
  intro ops a
  obtain ⟨hr, hp, _⟩ := reserved_within_limit 2 (some 17) ops
  refine ⟨by decide +kernel, by decide +kernel, by decide +kernel, hr 17 rfl, ⟨4, 3⟩, _, rfl, ?_⟩
  obtain ⟨hsize, hroom, _, hl⟩ := hp [5, 6, 7] ⟨4, 3⟩ _ rfl
  exact ⟨hsize, hroom, hl 17 rfl⟩

/-! What the heap refuses. -/

def Refuses (a : Arena) (bytes : List UInt8) : Prop :=
  ∃ e, a.pushHeap bytes = (.error e, a) ∧ e.report.message = "Record arena limit exceeded"

private theorem refuses_of_lt {bytes : List UInt8} (hm : a.heap.size + bytes.length ≤ maxHeap)
    (hc : a.heapCapacity < a.heap.size + bytes.length) {limit : Nat} (hl : a.limit = some limit)
    (hlt : limit - a.reserved < bytes.length) : a.Refuses bytes := by
  have hg : a.heapGrowth bytes.length = .error (.heapLimit bytes.length (limit - a.reserved) limit) := by
    simp only [heapGrowth, hl, if_pos hlt]
  refine ⟨.heapLimit bytes.length (limit - a.reserved) limit, ?_, rfl⟩
  simp only [Arena.pushHeap, if_neg (Nat.not_lt.mpr hm), if_neg (Nat.not_le.mpr hc), hg]

/-- Bytes are taken if there is room for them, and if the limit leaves as much as they are. -/
theorem exists_pushHeap_ok {bytes : List UInt8} (hm : a.heap.size + bytes.length ≤ maxHeap)
    (h : a.heap.size + bytes.length ≤ a.heapCapacity ∨
      ∀ limit, a.limit = some limit → bytes.length ≤ limit - a.reserved) :
    ∃ ref b, a.pushHeap bytes = (.ok ref, b) := by
  by_cases hc : a.heap.size + bytes.length ≤ a.heapCapacity
  · simp only [Arena.pushHeap, if_neg (Nat.not_lt.mpr hm), if_pos hc]
    exact ⟨_, _, rfl⟩
  · have hg : ∃ more, a.heapGrowth bytes.length = .ok more := by
      unfold heapGrowth
      split
      · exact ⟨_, rfl⟩
      · next limit hl =>
        have := h.resolve_left hc limit hl
        exact ⟨_, if_neg (by omega)⟩
    obtain ⟨more, hg⟩ := hg
    simp only [Arena.pushHeap, if_neg (Nat.not_lt.mpr hm), if_neg hc, hg]
    exact ⟨_, _, rfl⟩

private theorem not_refuses_of_ok {bytes : List UInt8} (h : ∃ ref b, a.pushHeap bytes = (.ok ref, b)) :
    ¬ a.Refuses bytes := by
  rintro ⟨e, he, _⟩
  obtain ⟨ref, b, hp⟩ := h
  rw [hp] at he
  cases he

/-- The heap has `spare` bytes that it does not use, and the limit leaves `rest` bytes beside it. -/
structure Leaves (a : Arena) (limit spare rest : Nat) : Prop where
  limit_eq : a.limit = some limit
  spare_eq : a.heap.size + spare = a.heapCapacity
  rest_eq : a.fixed.size + a.heapCapacity + rest = limit

private theorem Bounded.exists_leaves (h : a.Bounded) {limit : Nat} (hl : a.limit = some limit) :
    ∃ spare rest, a.Leaves limit spare rest := by
  obtain ⟨spare, hs⟩ := Nat.le.dest h.heap_le
  obtain ⟨rest, hr⟩ := Nat.le.dest (h.reserved_le limit hl)
  exact ⟨spare, rest, hl, hs, hr⟩

/-- Bytes that the heap can address are taken, or refused because they fit neither here nor there. -/
private theorem Leaves.pushHeap_cases {limit spare rest : Nat} (h : a.Leaves limit spare rest) {bytes : List UInt8}
    (hm : a.heap.size + bytes.length ≤ maxHeap) :
    a.Refuses bytes ∧ spare < bytes.length ∧ rest < bytes.length ∨
      (∃ ref b, a.pushHeap bytes = (.ok ref, b)) ∧ (bytes.length ≤ spare ∨ bytes.length ≤ rest) := by
  have hs := h.spare_eq
  have hr : limit - a.reserved = rest := by
    have := h.rest_eq
    simp only [reserved]
    omega
  have hleft (l : Nat) (hl : a.limit = some l) : l - a.reserved = rest := by
    rw [h.limit_eq] at hl
    cases hl
    exact hr
  by_cases hspare : bytes.length ≤ spare
  · exact Or.inr ⟨exists_pushHeap_ok hm (Or.inl (by omega)), Or.inl hspare⟩
  · by_cases hrest : bytes.length ≤ rest
    · exact Or.inr ⟨exists_pushHeap_ok hm (Or.inr fun l hl => by rw [hleft l hl]; exact hrest), Or.inr hrest⟩
    · exact Or.inl ⟨refuses_of_lt hm (by omega) h.limit_eq (by omega), by omega, by omega⟩

private theorem Leaves.refuses_iff {limit spare rest : Nat} (h : a.Leaves limit spare rest) {bytes : List UInt8}
    (hm : a.heap.size + bytes.length ≤ maxHeap) :
    a.Refuses bytes ↔ spare < bytes.length ∧ rest < bytes.length := by
  obtain ⟨hr, hlt⟩ | ⟨hok, hle⟩ := h.pushHeap_cases hm
  · exact iff_of_true hr hlt
  · exact iff_of_false (not_refuses_of_ok hok) (by omega)

/-- Bytes are refused exactly if they fit neither into the spare room of the heap nor into the rest that the limit
leaves beside it, and are taken otherwise. What is beyond the limit is always refused. What is within it is taken
as long as the heap has no spare room; if it has, bytes that need some of both are refused. -/
theorem pushHeap_refused_iff (stride limit : Nat) (ops : List Op) (bytes : List UInt8)
    (hm : ((new stride (some limit)).after ops).heap.size + bytes.length ≤ maxHeap) :
    let a := (new stride (some limit)).after ops
    ∃ spare rest, a.Leaves limit spare rest ∧
      (a.Refuses bytes ↔ spare < bytes.length ∧ rest < bytes.length) ∧
      (a.Refuses bytes ∨ ∃ ref b, a.pushHeap bytes = (.ok ref, b)) ∧
      (limit < a.fixed.size + a.heap.size + bytes.length → a.Refuses bytes) ∧
      (spare = 0 → (a.Refuses bytes ↔ limit < a.fixed.size + a.heap.size + bytes.length)) := by
  intro a
  have hl : a.limit = some limit := (after_frame (new stride (some limit)) ops).2
  have hb : a.Bounded := bounded_after stride (some limit) ops
  obtain ⟨spare, rest, h⟩ := hb.exists_leaves hl
  have hsum : a.fixed.size + a.heap.size + spare + rest = limit := by
    have := h.spare_eq
    have := h.rest_eq
    omega
  have hiff := h.refuses_iff hm
  refine ⟨spare, rest, h, hiff, ?_, fun hlt => hiff.mpr (by omega), fun hz => hiff.trans (by omega)⟩
  obtain ⟨hr, _⟩ | ⟨hok, _⟩ := h.pushHeap_cases hm
  · exact Or.inl hr
  · exact Or.inr hok

/-- A record that was taken back left three bytes of spare room, and the limit leaves six: six bytes are taken, and
seven are refused. -/
theorem pushHeap_refused_iff_after_pop :
    let ops : List Op := [.allocate 2, .push, .pushHeap [1, 2, 3, 4], .pop, .push, .pushHeap [5]]
    let a := (new 1 (some 12)).after ops
    let six : List UInt8 := [1, 2, 3, 4, 5, 6]
    let seven : List UInt8 := [1, 2, 3, 4, 5, 6, 7]
    a.heap.size + six.length ≤ maxHeap ∧ (∃ ref b, a.pushHeap six = (.ok ref, b)) ∧
      a.heap.size + seven.length ≤ maxHeap ∧ a.fixed.size + a.heap.size + seven.length ≤ 12 ∧
      a.Refuses seven := by
  intro ops a six seven
  have hroom : a.heap.size = 1 ∧ a.heapCapacity = 4 ∧ a.fixed.size = 2 := by decide +kernel
  have hsix : a.heap.size + six.length ≤ maxHeap := by decide +kernel
  have hseven : a.heap.size + seven.length ≤ maxHeap := by decide +kernel
  obtain ⟨spare, rest, h, hiff, hsome, _⟩ := pushHeap_refused_iff 1 12 ops six hsix
  obtain ⟨spare', rest', h', hiff', _⟩ := pushHeap_refused_iff 1 12 ops seven hseven
  have hrest : a.fixed.size + a.heapCapacity + rest = 12 := h.rest_eq
  have hspare' : a.heap.size + spare' = a.heapCapacity := h'.spare_eq
  have hrest' : a.fixed.size + a.heapCapacity + rest' = 12 := h'.rest_eq
  refine ⟨hsix, hsome.resolve_left fun hr => ?_, hseven, by simp [hroom, seven], hiff'.mpr ?_⟩
  · have hlt : rest < 6 := (hiff.mp hr).2
    omega
  · change spare' < 7 ∧ rest' < 7
    omega

/-- Two heaps of the same bytes, and one that held as many for a record that is gone. The bytes that follow fit
under the limit each time, and only the heap that was filled at once takes them. -/
theorem pushHeap_refuses_bytes_that_fit :
    let arena := new 1 (some 9)
    let split := arena.after [.pushHeap [1, 2, 3], .pushHeap [4]]
    let whole := arena.after [.pushHeap [1, 2, 3, 4]]
    let emptied := arena.after [.allocate 1, .push, .pushHeap [1, 2, 3, 4], .pop]
    split.heap = whole.heap ∧ split.fixed = whole.fixed ∧
      split.fixed.size + split.heap.size + 5 ≤ 9 ∧ split.Refuses [5, 6, 7, 8, 9] ∧
      (∃ ref b, whole.pushHeap [5, 6, 7, 8, 9] = (.ok ref, b)) ∧
      emptied.fixed.size + emptied.heap.size + 8 ≤ 9 ∧ emptied.Refuses [1, 2, 3, 4, 5, 6, 7, 8] := by
  intro arena split whole emptied
  have hlimit (ops : List Op) : (arena.after ops).limit = some 9 := (after_frame arena ops).2
  refine ⟨by decide +kernel, by decide +kernel, by decide +kernel, ?_, ?_, by decide +kernel, ?_⟩
  · exact refuses_of_lt (by decide +kernel) (by decide +kernel) (hlimit _) (by decide +kernel)
  · refine exists_pushHeap_ok (by decide +kernel) (Or.inr fun l hl => ?_)
    rw [hlimit] at hl
    cases hl
    decide +kernel
  · exact refuses_of_lt (by decide +kernel) (by decide +kernel) (hlimit _) (by decide +kernel)

end GroupingSets.Arena
