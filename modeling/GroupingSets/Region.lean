/-! Bytes in memory: numbers as bytes, the least significant byte first, regions of bytes, and references from a record
into the heap of its arena. -/
namespace GroupingSets

namespace Word

def toBytes : Nat → Nat → List UInt8
  | 0, _ => []
  | width + 1, n => UInt8.ofNat n :: toBytes width (n / 256)

def ofBytes : List UInt8 → Nat
  | [] => 0
  | b :: rest => b.toNat + 256 * ofBytes rest

@[simp] theorem length_toBytes (width n : Nat) : (toBytes width n).length = width := by
  induction width generalizing n with
  | zero => rfl
  | succ width ih => simp [toBytes, ih]

theorem ofBytes_toBytes (width n : Nat) : ofBytes (toBytes width n) = n % Nat.pow 256 width := by
  induction width generalizing n with
  | zero => simp [toBytes, ofBytes, Nat.mod_one]
  | succ width ih =>
    have split := Nat.mod_mul (x := n) (a := 256) (b := 256 ^ width)
    simp only [toBytes, ofBytes, ih, UInt8.toNat_ofNat', Nat.pow_eq, Nat.pow_succ']
    omega

theorem ofBytes_lt (bytes : List UInt8) : ofBytes bytes < Nat.pow 256 bytes.length := by
  induction bytes with
  | nil => simp [ofBytes]
  | cons b rest ih =>
    have := b.toNat_lt
    simp only [ofBytes, List.length_cons, Nat.pow_eq, Nat.pow_succ'] at ih ⊢
    omega

theorem toBytes_ofBytes (bytes : List UInt8) : toBytes bytes.length (ofBytes bytes) = bytes := by
  induction bytes with
  | nil => rfl
  | cons b rest ih =>
    have small := b.toNat_lt
    have low : UInt8.ofNat (b.toNat + 256 * ofBytes rest) = b := by
      apply UInt8.toNat.inj
      simp only [UInt8.toNat_ofNat']
      omega
    have high : (b.toNat + 256 * ofBytes rest) / 256 = ofBytes rest := by omega
    simp only [List.length_cons, toBytes, ofBytes, low, high, ih]

end Word

namespace Region

def slice (region : Array UInt8) (start length : Nat) : List UInt8 :=
  (region.extract start (start + length)).toList

def overwrite (region : Array UInt8) (start : Nat) : List UInt8 → Array UInt8
  | [] => region
  | b :: rest => overwrite (region.setIfInBounds start b) (start + 1) rest

@[simp] theorem size_overwrite (region : Array UInt8) (start : Nat) (bytes : List UInt8) :
    (overwrite region start bytes).size = region.size := by
  induction bytes generalizing region start with
  | nil => rfl
  | cons b rest ih => simp [overwrite, ih]

theorem getElem?_slice (region : Array UInt8) (start length i : Nat) :
    (slice region start length)[i]? = if i < length then region[start + i]? else none := by
  simp only [slice, Array.getElem?_toList, Array.getElem?_extract]
  by_cases inside : i < length
  · rw [if_pos inside]
    split
    · rfl
    · exact (Array.getElem?_eq_none (by omega)).symm
  · rw [if_neg inside, if_neg (by omega)]

theorem getElem?_overwrite (region : Array UInt8) (start : Nat) (bytes : List UInt8) (i : Nat)
    (fits : start + bytes.length ≤ region.size) :
    (overwrite region start bytes)[i]? =
      if start ≤ i ∧ i < start + bytes.length then bytes[i - start]? else region[i]? := by
  induction bytes generalizing region start with
  | nil => rw [overwrite, if_neg (by simp only [List.length_nil]; omega)]
  | cons b rest ih =>
    simp only [List.length_cons] at fits
    rw [overwrite, ih _ _ (by simpa using by omega)]
    by_cases first : i = start
    · subst first
      have inside : i < region.size := by omega
      rw [if_neg (by omega), if_pos (by simp)]
      simp [inside]
    · by_cases inside : start + 1 ≤ i ∧ i < start + 1 + rest.length
      · have step : i - start = (i - (start + 1)) + 1 := by omega
        simp [inside, step, show start ≤ i by omega, show i < start + (rest.length + 1) by omega]
      · rw [if_neg inside, if_neg (by simp; omega)]
        simp [Ne.symm first]

end Region

structure HeapRef where
  offset : UInt32
  length : UInt32
  deriving DecidableEq, Repr

namespace HeapRef

def width : Nat := 8

def encode (r : HeapRef) : List UInt8 :=
  Word.toBytes 4 r.offset.toNat ++ Word.toBytes 4 r.length.toNat

def decode? (bytes : List UInt8) : Option HeapRef :=
  if width ≤ bytes.length then
    some ⟨.ofNat (Word.ofBytes (bytes.take 4)), .ofNat (Word.ofBytes ((bytes.drop 4).take 4))⟩
  else none

def resolve? (r : HeapRef) (heap : Array UInt8) : Option (List UInt8) :=
  if r.offset.toNat + r.length.toNat ≤ heap.size then
    some (Region.slice heap r.offset.toNat r.length.toNat)
  else none

@[simp] theorem length_encode (r : HeapRef) : r.encode.length = width := by
  simp [encode, width]

theorem decode?_encode (r : HeapRef) (rest : List UInt8) : decode? (r.encode ++ rest) = some r := by
  have word (n : UInt32) : UInt32.ofNat (Word.ofBytes (Word.toBytes 4 n.toNat)) = n := by
    have small : n.toNat < Nat.pow 256 4 := n.toNat_lt
    rw [Word.ofBytes_toBytes, Nat.mod_eq_of_lt small, UInt32.ofNat_toNat]
  have first : (r.encode ++ rest).take 4 = Word.toBytes 4 r.offset.toNat := by
    simp [encode]
  have second : ((r.encode ++ rest).drop 4).take 4 = Word.toBytes 4 r.length.toNat := by
    simp [encode]
  simp [decode?, first, second, word]

end HeapRef

end GroupingSets
