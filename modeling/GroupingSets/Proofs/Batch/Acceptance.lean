import GroupingSets.Proofs.Arena.Limit
import GroupingSets.Proofs.Batch.Frame

/-! Which rows of values a batch takes. As long as memory is there, a row is appended exactly if the batch is not
full and each slot takes its value; otherwise what is reported is the first thing that is wrong with it. -/
namespace GroupingSets

namespace Encoding

private theorem fixedBytes_mismatch {t : DataType} {v : Scalar} (h : v.datatype? ≠ some t) :
    fixedBytes t v = .error (.fixedMismatch t v) := by
  unfold fixedBytes
  split
  case h_9 => rfl
  all_goals exact absurd rfl h

private theorem varlenBytes_mismatch {t : DataType} {v : Scalar} (h : v.datatype? ≠ some t) :
    varlenBytes t v = .error (.varlenMismatch t v) := by
  unfold varlenBytes
  split
  case h_3 => rfl
  all_goals exact absurd rfl h

end Encoding

namespace Slot

def Takes (slot : Slot) (v : Scalar) : Prop :=
  v = .null ∧ slot.nullable = true ∨ v.datatype? = some slot.datatype

instance (slot : Slot) (v : Scalar) : Decidable (slot.Takes v) := inferInstanceAs (Decidable (_ ∨ _))

def complaint (slot : Slot) (v : Scalar) : Error :=
  if v.isNull then .nullForNonNullable slot.id
  else if slot.datatype.isVarlen then .varlenMismatch slot.datatype v
  else .fixedMismatch slot.datatype v

end Slot

namespace Layout

/-- What is wrong with a row of values at one place: a value that its slot does not take, a value without a slot, or
a slot without a value. -/
def flawAt? (l : Layout) (values : List Scalar) (n : Nat) : Option Error :=
  match l.slots[n]?, values[n]? with
  | some slot, some v => if slot.Takes v then none else some (slot.complaint v)
  | none, some _ => some (.tooManyValues l.numSlots)
  | some _, none => some (.tooFewValues l.numSlots values.length)
  | none, none => none

def SoundBefore (l : Layout) (values : List Scalar) (n : Nat) : Prop :=
  ∀ m, m < n → l.flawAt? values m = none

def FirstFlaw (l : Layout) (values : List Scalar) (e : Error) : Prop :=
  ∃ n, l.flawAt? values n = some e ∧ l.SoundBefore values n

def Takes (l : Layout) (values : List Scalar) : Prop :=
  values.length = l.numSlots ∧
    ∀ (i : Nat) (slot : Slot) v, l.slots[i]? = some slot → values[i]? = some v → slot.Takes v

variable {l : Layout} {values : List Scalar}

private theorem flawAt?_eq_none {n : Nat} {slot : Slot} {v : Scalar} (hs : l.slots[n]? = some slot)
    (hv : values[n]? = some v) : l.flawAt? values n = none ↔ slot.Takes v := by
  rw [flawAt?, hs, hv]
  simp

private theorem flawAt?_of_not_takes {n : Nat} {slot : Slot} {v : Scalar} (hs : l.slots[n]? = some slot)
    (hv : values[n]? = some v) (h : ¬ slot.Takes v) : l.flawAt? values n = some (slot.complaint v) := by
  rw [flawAt?, hs, hv]
  exact if_neg h

/-- A row has no flaw at any place exactly if its layout takes it. -/
private theorem takes_iff : l.Takes values ↔ ∀ n, l.flawAt? values n = none := by
  constructor
  · rintro ⟨hl, ht⟩ n
    have hl : values.length = l.slots.length := hl
    cases hs : l.slots[n]? with
    | none =>
      have hv : values[n]? = none := by
        rw [List.getElem?_eq_none_iff] at hs ⊢
        omega
      rw [flawAt?, hs, hv]
    | some slot =>
      have hv := List.getElem?_eq_getElem (Nat.lt_of_lt_of_eq (List.getElem?_eq_some_iff.mp hs).1 hl.symm)
      exact (flawAt?_eq_none hs hv).mpr (ht n slot _ hs hv)
  · intro h
    refine ⟨?_, fun i slot v hs hv => (flawAt?_eq_none hs hv).mp (h i)⟩
    rcases Nat.lt_trichotomy values.length l.slots.length with hlt | heq | hgt
    · have hn := h values.length
      rw [flawAt?, List.getElem?_eq_getElem hlt, List.getElem?_eq_none (Nat.le_refl _)] at hn
      cases hn
    · exact heq
    · have hn := h l.slots.length
      rw [flawAt?, List.getElem?_eq_getElem hgt, List.getElem?_eq_none (Nat.le_refl _)] at hn
      cases hn

private theorem FirstFlaw.unique {e f : Error} (he : l.FirstFlaw values e) (hf : l.FirstFlaw values f) : e = f := by
  obtain ⟨n, hn, hbefore⟩ := he
  obtain ⟨m, hm, hbefore'⟩ := hf
  rcases Nat.lt_trichotomy n m with hlt | heq | hgt
  · rw [hbefore' n hlt] at hn
    cases hn
  · rw [heq, hm] at hn
    exact (Option.some.inj hn).symm
  · rw [hbefore m hgt] at hm
    cases hm

private theorem FirstFlaw.not_takes {e : Error} (he : l.FirstFlaw values e) : ¬ l.Takes values := by
  obtain ⟨n, hn, _⟩ := he
  intro h
  rw [takes_iff.mp h n] at hn
  cases hn

private theorem SoundBefore.succ {n : Nat} (h : l.SoundBefore values n) (hn : l.flawAt? values n = none) :
    l.SoundBefore values (n + 1) := by
  intro m hm
  rcases Nat.lt_succ_iff_lt_or_eq.mp hm with hlt | rfl
  · exact h m hlt
  · exact hn

end Layout

namespace Arena

/-- Without a limit, a region that can be reserved is. -/
private theorem exists_allocate_ok {a : Arena} {capacity : Nat} (hn : a.isAllocated = false) (hl : a.limit = none)
    (hs : a.stride * capacity ≤ maxReservation) :
    a.allocate capacity = (.ok (), { a with capacity, fixed := Array.replicate (a.stride * capacity) 0 }) := by
  have hm : maxReservation ≤ maxSize := by decide
  simp only [allocate, hn, checkLimit, hl, if_neg (by omega : ¬ maxSize < a.stride * capacity),
    if_neg (Nat.not_lt.mpr hs), Bool.false_eq_true, if_false]

end Arena

namespace Draft
variable {d e : Draft}

/-- A value of another type is refused before anything is written. -/
theorem putValue_mismatch {i : Nat} {slot : Slot} {v : Scalar} (hv : v ≠ .null)
    (h : v.datatype? ≠ some slot.datatype) :
    d.putValue i slot v = (.error (.error (slot.complaint v)), d) := by
  have hnull : v.isNull ≠ true := fun hn => hv (Scalar.isNull_iff.mp hn)
  rw [putValue, Slot.complaint, if_neg hnull, Encoding.fixedBytes_mismatch h, Encoding.varlenBytes_mismatch h]
  split <;> rfl

/-- A value of the type of its slot is written if the heap takes its bytes. -/
private theorem Valid.exists_putValue (h : d.Valid) {i : Nat} {slot : Slot} (hi : d.layout.slots[i]? = some slot)
    {v : Scalar} (hv : v.datatype? = some slot.datatype)
    (hp : ∃ ref arena, d.batch.arena.pushHeap v.payload = (.ok ref, arena)) :
    ∃ e, d.putValue i slot v = (.ok (), e) ∧ Placed i slot v d e := by
  unfold putValue
  split
  · next ht =>
    obtain ⟨bytes, hb⟩ := Encoding.exists_varlenBytes_iff.mpr ⟨hv, ht⟩
    obtain ⟨ref, arena, ha⟩ := hp
    rw [Encoding.payload_of_varlenBytes hb] at ha
    rw [hb]
    dsimp only
    rw [ha]
    exact h.putVarlen hi hb ha
  · next ht =>
    obtain ⟨bytes, hb⟩ := Encoding.exists_fixedBytes_iff.mpr ⟨hv, by simpa using ht⟩
    rw [hb]
    exact h.putFixed hi hb

/-- Without a limit, a slot takes its values as long as the heap can address their bytes. -/
private theorem Valid.writeValue_unlimited (h : d.Valid) (hs : d.row.Sound) (hl : d.batch.arena.limit = none) {i : Nat}
    {slot : Slot} (hi : d.layout.slots[i]? = some slot) {v : Scalar}
    (hroom : slot.Takes v → d.row.heap.size + v.payload.length ≤ Arena.maxHeap) :
    (slot.Takes v ∧ ∃ e, d.writeValue i v = (.ok (), e) ∧ Stored i v d e) ∨
      ¬ slot.Takes v ∧ (d.writeValue i v).1 = .error (.error (slot.complaint v)) := by
  by_cases hv : v = .null
  · subst hv
    by_cases hn : slot.nullable = true
    · obtain ⟨e, he, hst⟩ := h.putNull_stored hs hi
      refine Or.inl ⟨Or.inl ⟨rfl, hn⟩, e, ?_, hst⟩
      rw [writeValue_null hi, if_pos hn, he]
    · refine Or.inr ⟨fun ht => ?_, by rw [writeValue_null hi, if_neg hn]; rfl⟩
      rcases ht with ⟨_, ht⟩ | ht
      · exact hn ht
      · cases ht
  · obtain ⟨e, he, hw, _, _, hh⟩ := h.putNull (d.layout.bit_lt_of_slot hi) false
    have hwrite := writeValue_of_ne_null hi hv he
    by_cases hd : v.datatype? = some slot.datatype
    · have hlim : e.batch.arena.limit = none := hw.grown.arena.limit.trans hl
      have hsize : e.batch.arena.heap.size + v.payload.length ≤ Arena.maxHeap := by
        rw [show e.batch.arena.heap = d.row.heap from hh]
        exact hroom (Or.inr hd)
      have hi' : e.layout.slots[i]? = some slot := (hw.grown.slot i).trans hi
      obtain ⟨f, hf, _⟩ := hw.valid.exists_putValue hi' hd
        (Arena.exists_pushHeap_ok hsize (Or.inr fun limit hlimit => by rw [hlim] at hlimit; cases hlimit))
      exact Or.inl ⟨Or.inr hd, f, hwrite.trans hf, h.stored_writeValue hs hi (hwrite.trans hf)⟩
    · refine Or.inr ⟨fun ht => ?_, by rw [hwrite, putValue_mismatch hv hd]⟩
      rcases ht with ⟨ht, _⟩ | ht
      · exact hv ht
      · exact hd ht

/-- The values of a row before the place `i` have been written, all of them as they should be, to an arena without a
limit whose heap had `start` bytes before. -/
structure Underway (values : List Scalar) (start i : Nat) (d : Draft) : Prop where
  valid : d.Valid
  sound : d.row.Sound
  unlimited : d.batch.arena.limit = none
  le_values : i ≤ values.length
  le_slots : i ≤ d.layout.numSlots
  before : d.layout.SoundBefore values i
  heap : d.row.heap.size = start + ((values.take i).flatMap Scalar.payload).length

variable {values : List Scalar} {start i : Nat}

private theorem length_payload_take {v : Scalar} (hv : values[i]? = some v) :
    ((values.take (i + 1)).flatMap Scalar.payload).length =
      ((values.take i).flatMap Scalar.payload).length + v.payload.length := by
  rw [List.take_add_one, hv, List.flatMap_append, List.length_append]
  simp

private theorem Underway.next (h : Underway values start i d) {slot : Slot} (hi : d.layout.slots[i]? = some slot)
    {v : Scalar} (hv : values[i]? = some v) (ht : slot.Takes v) (hst : Stored i v d e) :
    Underway values start (i + 1) e where
  valid := hst.writes.valid
  sound := hst.sound
  unlimited := hst.writes.grown.arena.limit.trans h.unlimited
  le_values := (List.getElem?_eq_some_iff.mp hv).1
  le_slots := by
    rw [show e.layout = d.layout from hst.writes.grown.layout]
    exact (List.getElem?_eq_some_iff.mp hi).1
  before := by
    rw [show e.layout = d.layout from hst.writes.grown.layout]
    exact h.before.succ ((Layout.flawAt?_eq_none hi hv).mpr ht)
  heap := by
    rw [← Array.length_toList, hst.heap, List.length_append, Array.length_toList, h.heap,
      length_payload_take hv, Nat.add_assoc]

/-- The rest of a row is written exactly if the layout takes the whole row. Otherwise its first flaw is reported. -/
private theorem Underway.fill {rest : List Scalar} (h : Underway values start i d) (hrest : values.drop i = rest)
    (hroom : ∀ n, d.layout.SoundBefore values n →
      start + ((values.take n).flatMap Scalar.payload).length ≤ Arena.maxHeap) :
    (d.layout.Takes values ∧ (d.fill i rest).1 = .ok ()) ∨
      ∃ err, d.layout.FirstFlaw values err ∧ (d.fill i rest).1 = .error (.error err) := by
  induction rest generalizing d i with
  | nil =>
    have hend : values.length ≤ i := List.drop_eq_nil_iff.mp hrest
    have hvalues {n : Nat} (hn : i ≤ n) : values[n]? = none := List.getElem?_eq_none (Nat.le_trans hend hn)
    have hlen : i = values.length := Nat.le_antisymm h.le_values hend
    unfold Draft.fill
    split
    · next heq =>
      refine Or.inl ⟨Layout.takes_iff.mpr fun n => ?_, rfl⟩
      rcases Nat.lt_or_ge n i with hlt | hge
      · exact h.before n hlt
      · have hslot : d.layout.slots[n]? = none := List.getElem?_eq_none (Nat.le_trans (Nat.le_of_eq heq.symm) hge)
        rw [Layout.flawAt?, hslot, hvalues hge]
    · next hne =>
      have hlt : i < d.layout.slots.length := Nat.lt_of_le_of_ne h.le_slots hne
      refine Or.inr ⟨_, ⟨i, ?_, h.before⟩, rfl⟩
      rw [Layout.flawAt?, List.getElem?_eq_getElem hlt, hvalues (Nat.le_refl i), ← hlen]
  | cons v rest ih =>
    have hv : values[i]? = some v := by
      have hhead : (values.drop i)[0]? = values[i]? := List.getElem?_drop
      rw [hrest] at hhead
      exact hhead.symm
    have htail : values.drop (i + 1) = rest := by rw [← List.tail_drop, hrest, List.tail_cons]
    unfold Draft.fill
    split
    · next hle =>
      refine Or.inr ⟨_, ⟨i, ?_, h.before⟩, rfl⟩
      rw [Layout.flawAt?, List.getElem?_eq_none hle, hv]
    · next hlt =>
      obtain ⟨slot, hi⟩ : ∃ slot, d.layout.slots[i]? = some slot :=
        ⟨_, List.getElem?_eq_getElem (Nat.lt_of_not_le hlt)⟩
      have hfits (ht : slot.Takes v) : d.row.heap.size + v.payload.length ≤ Arena.maxHeap := by
        have hr := hroom (i + 1) (h.before.succ ((Layout.flawAt?_eq_none hi hv).mpr ht))
        rw [length_payload_take hv] at hr
        have := h.heap
        omega
      rcases h.valid.writeValue_unlimited h.sound h.unlimited hi hfits with ⟨ht, e, he, hst⟩ | ⟨ht, herr⟩
      · rw [he]
        have hlay : e.layout = d.layout := hst.writes.grown.layout
        have := ih (h.next hi hv ht hst) htail (by rw [hlay]; exact hroom)
        rwa [hlay] at this
      · rw [show d.writeValue i v = (.error (.error (slot.complaint v)), (d.writeValue i v).2) from
          Prod.ext herr rfl]
        exact Or.inr ⟨_, ⟨i, Layout.flawAt?_of_not_takes hi hv ht, h.before⟩, rfl⟩

end Draft

namespace Batch

/-- The heap stays addressable while the values before the first flaw of a row are written. -/
def Addresses (b : Batch) (values : List Scalar) : Prop :=
  ∀ n, b.layout.SoundBefore values n →
    b.arena.heap.size + ((values.take n).flatMap Scalar.payload).length ≤ Arena.maxHeap

private theorem addresses_of_le {b : Batch} {values : List Scalar}
    (h : b.arena.heap.size + (values.flatMap Scalar.payload).length ≤ Arena.maxHeap) : b.Addresses values := by
  intro n _
  have hsplit : (values.take n).flatMap Scalar.payload ++ (values.drop n).flatMap Scalar.payload =
      values.flatMap Scalar.payload := by rw [← List.flatMap_append, List.take_append_drop]
  have hlen := congrArg List.length hsplit
  rw [List.length_append] at hlen
  omega

/-- No operation changes the limit. -/
private theorem limit_after (b : Batch) (ops : List Op) : (b.after ops).arena.limit = b.arena.limit := by
  have h : (b.after ops).reset.arena.limit = b.reset.arena.limit := by rw [reset_after]
  exact h

/-- Without a limit, a record is begun as long as the batch is not full and its region can be reserved. -/
private theorem Valid.exists_begun {b : Batch} (h : b.Valid) (hl : b.arena.limit = none)
    (hr : b.layout.recordWidth * b.capacity ≤ Arena.maxReservation) (hn : b.numRows < b.capacity) :
    ∃ d, b.beginRecord = (.ok d.index, d.batch) ∧ Begun b d := by
  rcases h.beginRecord_cases with ⟨e, he, _⟩ | hbegun
  · have hb := h.begins
    rw [he] at hb
    cases hb with
    | full hf => exact absurd hn (Nat.not_lt_of_le hf)
    | refused _ hfalse ha =>
      rw [Arena.exists_allocate_ok hfalse hl (by rw [h.stride]; exact hr)] at ha
      cases ha
  · exact hbegun

/-- A row is appended as far as its record can be filled. -/
private theorem append_of_begun {b : Batch} {d : Draft} (hd : b.beginRecord = (.ok d.index, d.batch))
    (values : List Scalar) : (b.append values).1 = (d.fill 0 values).1 := by
  rw [append, appendWith, hd]
  change (Draft.settle (d.fill 0 values)).1 = (d.fill 0 values).1
  rcases d.fill 0 values with ⟨failure | u, e⟩ <;> rfl

/-- What appending a row comes to as long as memory is there. -/
private theorem Valid.append_unlimited {b : Batch} (h : b.Valid) (hl : b.arena.limit = none)
    (hr : b.layout.recordWidth * b.capacity ≤ Arena.maxReservation) {values : List Scalar}
    (hroom : b.Addresses values) :
    (b.capacity ≤ b.numRows ∧ (b.append values).1 = .error (.error (.batchFull b.capacity))) ∨
      b.numRows < b.capacity ∧ ((b.layout.Takes values ∧ (b.append values).1 = .ok ()) ∨
        ∃ e, b.layout.FirstFlaw values e ∧ (b.append values).1 = .error (.error e)) := by
  rcases Nat.lt_or_ge b.numRows b.capacity with hlt | hge
  · obtain ⟨d, hd, hb⟩ := h.exists_begun hl hr hlt
    have hlimit : d.batch.reset.arena.limit = b.reset.arena.limit := by
      have hframe := b.beginRecord_frame.1
      rw [hd] at hframe
      rw [hframe]
    have hstart : d.Underway values b.arena.heap.size 0 :=
      { valid := hb.valid
        sound := hb.sound
        unlimited := hlimit.trans hl
        le_values := Nat.zero_le _
        le_slots := Nat.zero_le _
        before := fun m hm => absurd hm (Nat.not_lt_zero m)
        heap := congrArg Array.size hb.heap }
    have hfill := hstart.fill rfl (by rw [show d.layout = b.layout from hb.layout]; exact hroom)
    rw [show d.layout = b.layout from hb.layout] at hfill
    rw [append_of_begun hd]
    exact Or.inr ⟨hlt, hfill⟩
  · refine Or.inl ⟨hge, ?_⟩
    have hfull : b.isFull = true := decide_eq_true hge
    rw [append, appendWith, beginRecord, if_pos hfull]

/-- A row is appended exactly if the batch is not full and each slot takes its value. Otherwise it is reported that
the batch is full, and if it is not, the first flaw of the row. -/
theorem append_takes_iff (layout : Layout) (capacity : Nat) (ops : List Op) (values : List Scalar)
    (hregion : capacity * layout.recordWidth ≤ Arena.maxReservation)
    (hheap : ((new layout capacity none).after ops).Addresses values) :
    let b := (new layout capacity none).after ops
    ((b.append values).1 = .ok () ↔
        b.numRows < capacity ∧ values.length = layout.numSlots ∧
          ∀ (i : Nat) slot v, layout.slots[i]? = some slot → values[i]? = some v →
            v = .null ∧ slot.nullable = true ∨ v.datatype? = some slot.datatype) ∧
      ∀ failure, (b.append values).1 = .error failure ↔
        (capacity ≤ b.numRows ∧ failure = .error (.batchFull capacity)) ∨
          b.numRows < capacity ∧ ∃ e, failure = .error e ∧ layout.FirstFlaw values e := by
  intro b
  obtain ⟨hv, hlayout, hcap⟩ : b.Valid ∧ b.layout = layout ∧ b.capacity = capacity :=
    (valid_new layout capacity none).after_keeps ops
  have hcases := hv.append_unlimited (limit_after _ ops) (by rw [hlayout, hcap, Nat.mul_comm]; exact hregion) hheap
  rw [hlayout, hcap] at hcases
  change (_ ↔ _ ∧ layout.Takes values) ∧ _
  rcases hcases with ⟨hfull, hres⟩ | ⟨hlt, ⟨ht, hres⟩ | ⟨e, he, hres⟩⟩
  · rw [hres]
    refine ⟨iff_of_false (fun h => by cases h) fun h => by omega, fun failure => ⟨fun h => ?_, fun h => ?_⟩⟩
    · cases h
      exact Or.inl ⟨hfull, rfl⟩
    · rcases h with ⟨_, rfl⟩ | ⟨hlt, _⟩
      · rfl
      · omega
  · rw [hres]
    refine ⟨iff_of_true rfl ⟨hlt, ht⟩, fun failure => iff_of_false (fun h => by cases h) fun h => ?_⟩
    rcases h with ⟨hge, _⟩ | ⟨_, e, _, he⟩
    · omega
    · exact he.not_takes ht
  · rw [hres]
    refine ⟨iff_of_false (fun h => by cases h) fun h => he.not_takes h.2, fun failure => ⟨fun h => ?_, fun h => ?_⟩⟩
    · cases h
      exact Or.inr ⟨hlt, e, rfl, he⟩
    · rcases h with ⟨hge, _⟩ | ⟨_, f, rfl, hf⟩
      · omega
      · rw [he.unique hf]

/-- Behind a row that was appended, one that was refused and a record that was given up there is room for one more
row. One without a text is taken, and one with a byte for a truth value is refused at its third slot. -/
theorem append_takes_iff_behind_refusals :
    let layout : Layout := ⟨⟨0⟩, [⟨⟨1⟩, .utf8, true⟩, ⟨⟨2⟩, .int32, false⟩, ⟨⟨3⟩, .boolean, true⟩]⟩
    let ops : List Op :=
      [.append [.utf8 "ab", .int32 1, .null], .append [.utf8 "lost", .null, .null],
        .record [.value 0 (.utf8 "gone")] false]
    let b := (new layout 2 none).after ops
    let good : List Scalar := [.null, .int32 3, .boolean true]
    let bad : List Scalar := [.utf8 "x", .int32 3, .int8 1, .null]
    2 * layout.recordWidth ≤ Arena.maxReservation ∧ b.Addresses good ∧ (b.append good).1 = .ok () ∧
      b.Addresses bad ∧ (b.append bad).1 = .error (.error (.fixedMismatch .boolean (.int8 1))) := by
  intro layout ops b good bad
  have hregion : 2 * layout.recordWidth ≤ Arena.maxReservation := by decide
  have hgood : b.Addresses good := addresses_of_le (by decide +kernel)
  have hbad : b.Addresses bad := addresses_of_le (by decide +kernel)
  have hrows : b.numRows < 2 := by decide +kernel
  refine ⟨hregion, hgood, ?_, hbad, ?_⟩
  · refine (append_takes_iff layout 2 ops good hregion hgood).1.mpr ⟨hrows, rfl, fun i slot v hs hv => ?_⟩
    match i with
    | 0 => cases hs; cases hv; exact Or.inl ⟨rfl, rfl⟩
    | 1 => cases hs; cases hv; exact Or.inr rfl
    | 2 => cases hs; cases hv; exact Or.inr rfl
    | _ + 3 => cases hs
  · refine ((append_takes_iff layout 2 ops bad hregion hbad).2 _).mpr (Or.inr ⟨hrows, _, rfl, 2, rfl, fun m hm => ?_⟩)
    match m, hm with
    | 0, _ => rfl
    | 1, _ => rfl

end Batch

end GroupingSets
