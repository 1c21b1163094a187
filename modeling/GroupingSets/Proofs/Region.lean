import GroupingSets.Region

/-! Spans of a region as lists: what a span holds after bytes were written over the region. -/
namespace GroupingSets.Region

theorem slice_eq_take_drop (region : Array UInt8) (start length : Nat) :
    slice region start length = (region.toList.drop start).take length := by
  apply List.ext_getElem?
  intro i
  rw [getElem?_slice, List.getElem?_take, List.getElem?_drop, Array.getElem?_toList]

theorem length_slice {region : Array UInt8} {start length : Nat}
    (h : start + length ≤ region.size) : (slice region start length).length = length := by
  rw [slice_eq_take_drop, List.length_take, List.length_drop, Array.length_toList]
  omega

/-- A span that ends within a region is the same span of every region that continues it. -/
theorem slice_longer {region longer : Array UInt8} {start length : Nat}
    (hp : region.toList <+: longer.toList) (h : start + length ≤ region.size) :
    slice longer start length = slice region start length := by
  obtain ⟨more, hm⟩ := hp
  have hl : length ≤ (region.toList.drop start).length := by
    rw [List.length_drop, Array.length_toList]
    omega
  rw [slice_eq_take_drop, slice_eq_take_drop, ← hm,
    List.drop_append_of_le_length (by rw [Array.length_toList]; omega), List.take_append_of_le_length hl]

def splice (record : List UInt8) (offset : Nat) (bytes : List UInt8) : List UInt8 :=
  record.take offset ++ bytes ++ record.drop (offset + bytes.length)

private theorem getElem?_splice {record bytes : List UInt8} {offset : Nat}
    (h : offset + bytes.length ≤ record.length) (i : Nat) :
    (splice record offset bytes)[i]? =
      if offset ≤ i ∧ i < offset + bytes.length then bytes[i - offset]? else record[i]? := by
  have hl : (record.take offset).length = offset := by rw [List.length_take]; omega
  rw [splice, List.append_assoc, List.getElem?_append, hl]
  split
  · next hi => rw [if_neg (by omega), List.getElem?_take_of_lt hi]
  · next hi =>
    rw [List.getElem?_append]
    split
    · next hb => rw [if_pos (by omega)]
    · next hb =>
      rw [if_neg (by omega), List.getElem?_drop]
      congr 1
      omega

/-- Writing inside a span writes into the list of its bytes. -/
theorem slice_overwrite_inside {region : Array UInt8} {start length offset : Nat} {bytes : List UInt8}
    (hs : start + length ≤ region.size) (h : offset + bytes.length ≤ length) :
    slice (overwrite region (start + offset) bytes) start length =
      splice (slice region start length) offset bytes := by
  apply List.ext_getElem?
  intro i
  rw [getElem?_slice, getElem?_splice (by rw [length_slice hs]; exact h), getElem?_slice,
    getElem?_overwrite _ _ _ _ (by omega)]
  by_cases hb : offset ≤ i ∧ i < offset + bytes.length
  · rw [if_pos (by omega), if_pos (by omega), if_pos hb]
    congr 1
    omega
  · rw [if_neg hb]
    split
    · rw [if_neg (by omega)]
    · rfl

/-- Writing outside of a span leaves its bytes. -/
theorem slice_overwrite_outside {region : Array UInt8} {start length place : Nat} {bytes : List UInt8}
    (hf : place + bytes.length ≤ region.size)
    (h : start + length ≤ place ∨ place + bytes.length ≤ start) :
    slice (overwrite region place bytes) start length = slice region start length := by
  apply List.ext_getElem?
  intro i
  rw [getElem?_slice, getElem?_slice, getElem?_overwrite _ _ _ _ hf]
  split
  · rw [if_neg (by omega)]
  · rfl

/-- A part of a record that holds exactly what was written. -/
theorem take_drop_splice_same {record bytes : List UInt8} {offset : Nat}
    (h : offset + bytes.length ≤ record.length) :
    ((splice record offset bytes).drop offset).take bytes.length = bytes := by
  have hl : (record.take offset).length = offset := by rw [List.length_take]; omega
  rw [splice, List.append_assoc, List.drop_left' hl, List.take_left' rfl]

/-- A part of a record that ends before what was written or starts behind it. -/
theorem take_drop_splice_other {record bytes : List UInt8} {offset start length : Nat}
    (h : offset + bytes.length ≤ record.length)
    (ha : start + length ≤ offset ∨ offset + bytes.length ≤ start) :
    ((splice record offset bytes).drop start).take length = (record.drop start).take length := by
  apply List.ext_getElem?
  intro i
  rw [List.getElem?_take, List.getElem?_take, List.getElem?_drop, List.getElem?_drop, getElem?_splice h]
  split
  · rw [if_neg (by omega)]
  · rfl

end GroupingSets.Region
