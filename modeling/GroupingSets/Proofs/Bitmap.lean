import GroupingSets.Bitmap

/-! A bitmap as a set of indices. However it was made and whatever was done to it since, its bytes are as many as its
length asks for, and no bit behind the last index is set. So two bitmaps of one length have the same bytes exactly if
they have the same indices. -/
namespace GroupingSets.Bitmap

variable {b c : Bitmap} {i : Nat} {value : Bool}

theorem contains_of_get (h : b.get i = .ok value) : b.contains i = value := by
  unfold get at h
  split at h
  · next hi =>
    unfold Bits.get at h
    split at h <;> cases h
    rw [contains, decide_eq_true hi, Bool.true_and]
  · cases h

theorem indices_sorted (b : Bitmap) : b.indices.Pairwise (· < ·) :=
  List.pairwise_lt_range.filter _

theorem lt_of_mem_indices (h : i ∈ b.indices) : i < b.len :=
  List.mem_range.mp (List.mem_filter.mp h).1

/-! Bytes that say nothing but which indices there are. -/

/-- There are as many bytes as the length asks for, and no bit behind the last index is set. -/
structure Canonical (b : Bitmap) : Prop where
  size : b.data.size = Bits.bytesFor b.len
  spare : ∀ i, b.len ≤ i → Bits.test b.data i = false

private theorem canonical_zeros (len : Nat) : (zeros len).Canonical where
  size := Array.size_replicate
  spare i _ := Bits.test_replicate_zero _ i

private theorem Canonical.byte_lt (h : b.Canonical) (hi : i < b.len) : i / 8 < b.data.size := by
  have := Bits.le_bytesFor_mul b.len
  rw [h.size]
  omega

private theorem Canonical.test_eq (h : b.Canonical) (i : Nat) : Bits.test b.data i = b.contains i := by
  by_cases hi : i < b.len
  · simp [contains, hi]
  · simp [contains, hi, h.spare i (Nat.le_of_not_lt hi)]

/-- Below its length a bitmap has a value for every index. -/
private theorem Canonical.get_eq (h : b.Canonical) (i : Nat) :
    b.get i = if i < b.len then .ok (b.contains i) else .error (.index i b.len) := by
  unfold get
  split
  · next hi => rw [Bits.get, if_pos (h.byte_lt hi), h.test_eq]
  · rfl

private theorem Canonical.get_eq_true_iff (h : b.Canonical) : b.get i = .ok true ↔ i ∈ b.indices := by
  rw [mem_indices, h.get_eq]
  split
  · simp
  · next hi => simp [contains, hi]

private theorem Canonical.set (h : b.Canonical) (hs : b.set i value = .ok c) : c.Canonical := by
  obtain ⟨hi, data, hd, rfl⟩ := set_ok hs
  refine ⟨(Bits.size_set hd).trans h.size, fun j hj => ?_⟩
  have hji : j ≠ i := Nat.ne_of_gt (Nat.lt_of_lt_of_le hi hj)
  rw [Bits.test_set hd, if_neg hji]
  exact h.spare j hj

private theorem Canonical.exists_set (h : b.Canonical) (hi : i < b.len) (value : Bool) :
    ∃ c, b.set i value = .ok c := by
  rw [Bitmap.set, if_pos hi, Bits.set, dif_pos (h.byte_lt hi)]
  exact ⟨_, rfl⟩

/-- A change is of one index, and leaves what is said of all others. -/
private theorem Canonical.get_set (h : b.Canonical) (hs : b.set i value = .ok c) (j : Nat) :
    c.get j = if j = i then .ok value else b.get j := by
  have hi := (set_ok hs).1
  rw [(h.set hs).get_eq, h.get_eq, len_set hs, contains_set hs]
  by_cases hji : j = i
  · rw [if_pos hji, if_pos hji, if_pos (hji ▸ hi)]
  · rw [if_neg hji, if_neg hji]

private theorem Canonical.insertAll {is : List Nat} (h : b.Canonical) (hs : b.insertAll is = .ok c) : c.Canonical := by
  induction is generalizing b with
  | nil =>
    cases hs
    exact h
  | cons i rest ih =>
    unfold Bitmap.insertAll at hs
    split at hs
    · next hset => exact ih (h.set hset) hs
    · cases hs

private theorem Canonical.exists_insertAll {is : List Nat} (h : b.Canonical) (hi : ∀ i ∈ is, i < b.len) :
    ∃ c, b.insertAll is = .ok c := by
  induction is generalizing b with
  | nil => exact ⟨b, rfl⟩
  | cons i rest ih =>
    obtain ⟨c, hc⟩ := h.exists_set (hi i List.mem_cons_self) true
    rw [Bitmap.insertAll, hc]
    apply ih (h.set hc)
    intro j hj
    rw [len_set hc]
    exact hi j (List.mem_cons_of_mem i hj)

private theorem canonical_ofIndices {len : Nat} {is : List Nat} (h : ofIndices len is = .ok b) : b.Canonical :=
  (canonical_zeros len).insertAll h

/-- Indices below the length can all be set. -/
theorem exists_ofIndices {len : Nat} {is : List Nat} (h : ∀ i ∈ is, i < len) :
    ∃ b, ofIndices len is = .ok b :=
  (canonical_zeros len).exists_insertAll h

theorem get_ofIndices {len : Nat} {is : List Nat} (h : ofIndices len is = .ok b) (hi : i < len) :
    b.get i = .ok (decide (i ∈ is)) := by
  rw [(canonical_ofIndices h).get_eq, len_ofIndices h, if_pos hi, contains_ofIndices h]

/-! The same indices, the same bytes. -/

private theorem Canonical.ext (hb : b.Canonical) (hc : c.Canonical) (hl : b.len = c.len)
    (h : ∀ i, b.contains i = c.contains i) : b = c := by
  have hdata : b.data = c.data := by
    apply Bits.ext
    · rw [hb.size, hc.size, hl]
    · intro i
      rw [hb.test_eq, hc.test_eq, h]
  calc
    b = ⟨b.len, b.data⟩ := rfl
    _ = ⟨c.len, c.data⟩ := by rw [hl, hdata]

private theorem Canonical.eq_iff (hb : b.Canonical) (hc : c.Canonical) :
    b = c ↔ b.len = c.len ∧ ∀ i, i ∈ b.indices ↔ i ∈ c.indices := by
  constructor
  · rintro rfl
    exact ⟨rfl, fun _ => Iff.rfl⟩
  · rintro ⟨hl, h⟩
    refine hb.ext hc hl fun i => ?_
    rw [Bool.eq_iff_iff, ← mem_indices, ← mem_indices]
    exact h i

/-- A bitmap is made again from its indices. -/
private theorem Canonical.ofIndices_indices (h : b.Canonical) : ofIndices b.len b.indices = .ok b := by
  obtain ⟨c, hc⟩ := exists_ofIndices fun i (hi : i ∈ b.indices) => lt_of_mem_indices hi
  have hcb : c = b := by
    refine (canonical_ofIndices hc).ext h (len_ofIndices hc) fun i => ?_
    rw [contains_ofIndices hc, Bool.eq_iff_iff, decide_eq_true_iff, mem_indices]
  rw [hc, hcb]

/-! How bitmaps come about. -/

inductive Origin where
  /-- With no index. -/
  | zeros (len : Nat)
  /-- With the given indices. -/
  | indices (len : Nat) (indices : List Nat)
  /-- With no room for an index. -/
  | empty

def Origin.make : Origin → Except Fault Bitmap
  | .zeros len => .ok (Bitmap.zeros len)
  | .indices len is => ofIndices len is
  | .empty => .ok ∅

def apply (b : Bitmap) (i : Nat) (value : Bool) : Bitmap :=
  match b.set i value with
  | .ok c => c
  | .error _ => b

def after (b : Bitmap) (changes : List (Nat × Bool)) : Bitmap :=
  changes.foldl (fun b change => b.apply change.1 change.2) b

/-- A bitmap that was made in one of the ways there are and has since been changed by requests only. -/
def Built (b : Bitmap) : Prop :=
  ∃ (origin : Origin) (start : Bitmap) (changes : List (Nat × Bool)),
    origin.make = .ok start ∧ b = start.after changes

private theorem Origin.canonical {origin : Origin} (h : origin.make = .ok b) : b.Canonical := by
  cases origin with
  | zeros len =>
    cases h
    exact canonical_zeros len
  | indices len is => exact canonical_ofIndices h
  | empty =>
    cases h
    exact canonical_zeros 0

private theorem apply_of_set (h : b.set i value = .ok c) : b.apply i value = c := by
  rw [apply, h]

private theorem Canonical.apply (h : b.Canonical) (i : Nat) (value : Bool) : (b.apply i value).Canonical := by
  unfold Bitmap.apply
  split
  · next hs => exact h.set hs
  · exact h

private theorem Canonical.after (h : b.Canonical) (changes : List (Nat × Bool)) : (b.after changes).Canonical := by
  induction changes generalizing b with
  | nil => exact h
  | cons change rest ih => exact ih (h.apply change.1 change.2)

private theorem Built.canonical (h : b.Built) : b.Canonical := by
  obtain ⟨origin, start, changes, hstart, rfl⟩ := h
  exact (Origin.canonical hstart).after changes

private theorem Built.apply (h : b.Built) (i : Nat) (value : Bool) : (b.apply i value).Built := by
  obtain ⟨origin, start, changes, hstart, rfl⟩ := h
  exact ⟨origin, start, changes ++ [(i, value)], hstart, by simp [Bitmap.after]⟩

/-- A bitmap has the bytes that its length needs, with no bit set behind the last index. A change below the length is
of one index, and any other is refused. The indices are listed in ascending order, and the bitmap is made again from
them. Two bitmaps are equal exactly if they have one length and the same indices, whatever was done to either. -/
theorem built_represents_set (hb : b.Built) :
    (b.data.size = Bits.bytesFor b.len ∧ b.len ≤ b.data.size * 8 ∧ b.data.size * 8 < b.len + 8) ∧
    (∀ i, b.len ≤ i → i < b.data.size * 8 → Bits.get b.data i = .ok false) ∧
    (∀ i, b.get i = if i < b.len then .ok (b.contains i) else .error (.index i b.len)) ∧
    (∀ i value, i < b.len → ∃ c, b.set i value = .ok c ∧ c.Built ∧ c.len = b.len ∧
      ∀ j, c.get j = if j = i then .ok value else b.get j) ∧
    (∀ i value, b.len ≤ i → b.set i value = .error (.index i b.len) ∧ b.apply i value = b) ∧
    b.indices.Pairwise (· < ·) ∧ (∀ i, i ∈ b.indices ↔ b.get i = .ok true) ∧
    ofIndices b.len b.indices = .ok b ∧
    ∀ c : Bitmap, c.Built → (b = c ↔ b.len = c.len ∧ ∀ i, b.get i = .ok true ↔ c.get i = .ok true) := by
  have h : b.Canonical := hb.canonical
  have hlow := Bits.le_bytesFor_mul b.len
  have hhigh := Bits.bytesFor_mul_lt b.len
  rw [← h.size] at hlow hhigh
  refine ⟨⟨h.size, hlow, hhigh⟩, fun i hi hbit => ?_, h.get_eq, fun i value hi => ?_, fun i value hi => ?_,
    b.indices_sorted, fun i => h.get_eq_true_iff.symm, h.ofIndices_indices, fun c hc => ?_⟩
  · rw [Bits.get, if_pos (by omega), h.spare i hi]
  · obtain ⟨c, hs⟩ := h.exists_set hi value
    exact ⟨c, hs, apply_of_set hs ▸ hb.apply i value, len_set hs, h.get_set hs⟩
  · have hs : b.set i value = .error (.index i b.len) := if_neg (Nat.not_lt_of_le hi)
    exact ⟨hs, by rw [Bitmap.apply, hs]⟩
  · rw [h.eq_iff hc.canonical]
    simp only [h.get_eq_true_iff, hc.canonical.get_eq_true_iff]

/-- Two ways to three indices in two bytes: one lists them out of order and one of them twice, the other is refused
an index and takes back another. One more place makes a different bitmap of the same indices. -/
theorem built_represents_set_of_twelve :
    let b := (zeros 12).after [(4, true), (13, true), (7, true), (1, true), (7, false), (11, true)]
    let c : Bitmap := ⟨12, #[18, 8]⟩
    let d : Bitmap := ⟨13, #[18, 8]⟩
    b.Built ∧ c.Built ∧ d.Built ∧ b = c ∧ b ≠ d ∧ ofIndices 12 [1, 4, 11] = .ok b ∧
      b.set 12 true = .error (.index 12 12) ∧ Bits.get b.data 15 = .ok false := by
  intro b c d
  have hb : b.Built := ⟨.zeros 12, zeros 12, _, rfl, rfl⟩
  have hc : c.Built := ⟨.indices 12 [11, 1, 4, 1], c, [], rfl, rfl⟩
  have hd : d.Built := ⟨.indices 13 [1, 4, 11], d, [], rfl, rfl⟩
  have hlen : b.len = 12 := by decide +kernel
  have hindices : b.indices = [1, 4, 11] := by decide +kernel
  have hc' : c.indices = [1, 4, 11] := by decide +kernel
  obtain ⟨⟨hsize, _⟩, hspare, _, _, hrefused, _, hmem, hmade, heq⟩ := built_represents_set hb
  obtain ⟨_, _, _, _, _, _, hmem', _⟩ := built_represents_set hc
  refine ⟨hb, hc, hd, (heq c hc).mpr ⟨hlen, fun i => ?_⟩, fun h => ?_, ?_, ?_, ?_⟩
  · rw [← hmem, ← hmem', hindices, hc']
  · have hl : b.len = 13 := ((heq d hd).mp h).1
    omega
  · rw [hindices, hlen] at hmade
    exact hmade
  · have hs := (hrefused 12 true (Nat.le_of_eq hlen)).1
    rwa [hlen] at hs
  · refine hspare 15 (by omega) ?_
    rw [hsize, hlen]
    decide

end GroupingSets.Bitmap
