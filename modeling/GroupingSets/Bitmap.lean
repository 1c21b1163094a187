import GroupingSets.Error

/-! Bits stored in bytes, the lowest bit of a byte first, and sets of indices below a fixed length with one bit for each
index. -/
namespace GroupingSets

namespace Bits

def bytesFor (bits : Nat) : Nat := (bits + 7) / 8

theorem le_bytesFor_mul (bits : Nat) : bits ≤ bytesFor bits * 8 := by
  unfold bytesFor
  omega

theorem bytesFor_mul_lt (bits : Nat) : bytesFor bits * 8 < bits + 8 := by
  unfold bytesFor
  omega

/-- The bit at `i`; bits beyond the bytes read as false. -/
def test (bytes : Array UInt8) (i : Nat) : Bool :=
  (bytes.getD (i / 8) 0).toNat.testBit (i % 8)

def unit (i : Nat) : UInt8 := UInt8.ofNat (Nat.pow 2 (i % 8))

def put (b : UInt8) (i : Nat) (value : Bool) : UInt8 :=
  if value then b ||| unit i else b &&& ~~~ unit i

def get (bytes : Array UInt8) (i : Nat) : Except Fault Bool :=
  if i / 8 < bytes.size then .ok (test bytes i) else .error .span

def set (bytes : Array UInt8) (i : Nat) (value : Bool) : Except Fault (Array UInt8) :=
  if h : i / 8 < bytes.size then .ok (bytes.set (i / 8) (put bytes[i / 8] i value))
  else .error .span

theorem size_set {bytes changed : Array UInt8} {i : Nat} {value : Bool}
    (h : set bytes i value = .ok changed) : changed.size = bytes.size := by
  unfold set at h
  split at h <;> cases h
  simp

private theorem testBit_unit (i k : Nat) : (unit i).toNat.testBit k = decide (i % 8 = k) := by
  have small : 2 ^ (i % 8) < 2 ^ 8 := Nat.pow_lt_pow_right (by decide) (Nat.mod_lt _ (by decide))
  have bit : (unit i).toNat = 2 ^ (i % 8) := by simpa [unit] using small
  rw [bit, Nat.testBit_two_pow]

private theorem testBit_not (b : UInt8) (k : Nat) (h : k < 8) :
    (~~~ b).toNat.testBit k = !b.toNat.testBit k := by
  change (~~~ b.toBitVec).getLsbD k = !b.toBitVec.getLsbD k
  rw [BitVec.getLsbD_not, decide_eq_true h, Bool.true_and]

private theorem testBit_put (b : UInt8) (i k : Nat) (value : Bool) (h : k < 8) :
    (put b i value).toNat.testBit k = if k = i % 8 then value else b.toNat.testBit k := by
  cases value
  · rw [put, if_neg Bool.false_ne_true, UInt8.toNat_and, Nat.testBit_and, testBit_not _ _ h,
      testBit_unit]
    by_cases same : k = i % 8 <;> simp [same, eq_comm]
  · rw [put, if_pos rfl, UInt8.toNat_or, Nat.testBit_or, testBit_unit]
    by_cases same : k = i % 8 <;> simp [same, eq_comm]

theorem test_set {bytes changed : Array UInt8} {i : Nat} {value : Bool}
    (h : set bytes i value = .ok changed) (j : Nat) :
    test changed j = if j = i then value else test bytes j := by
  unfold set at h
  split at h <;> cases h
  next inside =>
    have below : j % 8 < 8 := Nat.mod_lt _ (by decide)
    by_cases byte : j / 8 = i / 8
    · have place : (j = i) = (j % 8 = i % 8) := by
        apply propext
        omega
      simp only [test, byte, Array.getD_eq_getD_getElem?, Array.getElem?_set_self, Option.getD_some,
        testBit_put _ _ _ _ below, place, Array.getElem?_eq_getElem inside]
    · have other : j ≠ i := fun e => byte (by rw [e])
      simp only [test, Array.getD_eq_getD_getElem?, if_neg other,
        Array.getElem?_set_ne inside (Ne.symm byte)]

/-- A byte is its eight bits. -/
theorem byte_ext {a b : UInt8} (h : ∀ k, k < 8 → a.toNat.testBit k = b.toNat.testBit k) : a = b := by
  apply UInt8.toNat_inj.mp
  apply Nat.eq_of_testBit_eq
  intro k
  by_cases hk : k < 8
  · exact h k hk
  · have beyond (c : UInt8) : c.toNat.testBit k = false :=
      Nat.testBit_lt_two_pow (Nat.lt_of_lt_of_le c.toNat_lt (Nat.pow_le_pow_right (by decide) (Nat.le_of_not_lt hk)))
    rw [beyond, beyond]

private theorem put_testBit (b : UInt8) (i : Nat) : put b i (b.toNat.testBit (i % 8)) = b := by
  apply byte_ext
  intro k hk
  rw [testBit_put _ _ _ _ hk]
  split
  · next same => rw [same]
  · rfl

/-- Bytes are their bits. -/
theorem ext {a b : Array UInt8} (size : a.size = b.size) (h : ∀ i, test a i = test b i) : a = b := by
  apply Array.ext size
  intro n ha hb
  apply byte_ext
  intro k hk
  have place : (8 * n + k) / 8 = n ∧ (8 * n + k) % 8 = k := by omega
  simpa [test, place, ha, hb] using h (8 * n + k)

theorem test_replicate_zero (size i : Nat) : test (Array.replicate size 0) i = false := by
  by_cases inside : i / 8 < size <;> simp [test, inside]

/-- Writing the bit that is there changes nothing. -/
theorem set_test {bytes : Array UInt8} {i : Nat} (h : i / 8 < bytes.size) :
    set bytes i (test bytes i) = .ok bytes := by
  have bit : test bytes i = bytes[i / 8].toNat.testBit (i % 8) := by
    simp only [test, Array.getD_eq_getD_getElem?, Array.getElem?_eq_getElem h, Option.getD_some]
  rw [set, dif_pos h, bit, put_testBit, Array.set_getElem_self]

end Bits

structure Bitmap where
  len : Nat
  data : Array UInt8
  deriving DecidableEq, Repr

namespace Bitmap

def zeros (len : Nat) : Bitmap := ⟨len, Array.replicate (Bits.bytesFor len) 0⟩

instance : EmptyCollection Bitmap := ⟨zeros 0⟩

instance : Inhabited Bitmap := ⟨∅⟩

def isEmpty (b : Bitmap) : Bool := b.len == 0

/-- An index beyond the length is in no bitmap. -/
def contains (b : Bitmap) (i : Nat) : Bool := i < b.len && Bits.test b.data i

def get (b : Bitmap) (i : Nat) : Except Fault Bool :=
  if i < b.len then Bits.get b.data i else .error (.index i b.len)

def set (b : Bitmap) (i : Nat) (value : Bool) : Except Fault Bitmap :=
  if i < b.len then
    match Bits.set b.data i value with
    | .ok data => .ok { b with data }
    | .error fault => .error fault
  else .error (.index i b.len)

def insertAll (b : Bitmap) : List Nat → Except Fault Bitmap
  | [] => .ok b
  | i :: rest =>
    match b.set i true with
    | .ok b => b.insertAll rest
    | .error fault => .error fault

def ofIndices (len : Nat) (indices : List Nat) : Except Fault Bitmap :=
  (zeros len).insertAll indices

def indices (b : Bitmap) : List Nat := (List.range b.len).filter (Bits.test b.data)

def text (b : Bitmap) : String :=
  "[" ++ ", ".intercalate ((List.range b.len).map fun i => toString (Bits.test b.data i)) ++ "]"

theorem mem_indices {b : Bitmap} {i : Nat} : i ∈ b.indices ↔ b.contains i = true := by
  simp [indices, contains]

theorem set_ok {b changed : Bitmap} {i : Nat} {value : Bool} (h : b.set i value = .ok changed) :
    i < b.len ∧ ∃ data, Bits.set b.data i value = .ok data ∧ changed = { b with data } := by
  unfold set at h
  split at h
  · next inside =>
    split at h
    · next data hset =>
      cases h
      exact ⟨inside, data, hset, rfl⟩
    · cases h
  · cases h

theorem len_set {b changed : Bitmap} {i : Nat} {value : Bool}
    (h : b.set i value = .ok changed) : changed.len = b.len := by
  obtain ⟨_, _, _, rfl⟩ := set_ok h
  rfl

theorem len_insertAll {b changed : Bitmap} {is : List Nat}
    (h : b.insertAll is = .ok changed) : changed.len = b.len := by
  induction is generalizing b with
  | nil => cases h; rfl
  | cons i rest ih =>
    unfold insertAll at h
    split at h
    · next hset => rw [ih h, len_set hset]
    · cases h

theorem len_ofIndices {len : Nat} {is : List Nat} {b : Bitmap}
    (h : ofIndices len is = .ok b) : b.len = len :=
  len_insertAll h

theorem contains_zeros (len i : Nat) : (zeros len).contains i = false := by
  simp [contains, zeros, Bits.test_replicate_zero]

theorem contains_set {b changed : Bitmap} {i : Nat} {value : Bool}
    (h : b.set i value = .ok changed) (j : Nat) :
    changed.contains j = if j = i then value else b.contains j := by
  obtain ⟨inside, data, hset, rfl⟩ := set_ok h
  by_cases same : j = i
  · simp [contains, Bits.test_set hset, same, inside]
  · simp [contains, Bits.test_set hset, same]

theorem contains_insertAll {b changed : Bitmap} {is : List Nat}
    (h : b.insertAll is = .ok changed) (j : Nat) :
    changed.contains j = (decide (j ∈ is) || b.contains j) := by
  induction is generalizing b with
  | nil => cases h; simp
  | cons i rest ih =>
    unfold insertAll at h
    split at h
    · next hset =>
      rw [ih h, contains_set hset]
      by_cases same : j = i <;> simp [same]
    · cases h

theorem contains_ofIndices {len : Nat} {is : List Nat} {b : Bitmap}
    (h : ofIndices len is = .ok b) (j : Nat) : b.contains j = decide (j ∈ is) := by
  rw [contains_insertAll h, contains_zeros, Bool.or_false]

end Bitmap

end GroupingSets
