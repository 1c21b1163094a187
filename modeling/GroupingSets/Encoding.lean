import GroupingSets.Error
import GroupingSets.Region

/-! Numbers taken from values, and how values stand in a record. Values of fixed width are written as they are, least
significant byte first; of a value of varying length the record has only a reference into the heap. -/
namespace GroupingSets

namespace Scalar

def toInt64 (v : Scalar) : Except Error Int64 :=
  match v.integer? with
  | some n => .ok n
  | none => .error (.notInteger v)

def toSize (v : Scalar) : Except Error UInt64 :=
  match v.toInt64 with
  | .ok n => if n < 0 then .error (.notSize n) else .ok n.toUInt64
  | .error e => .error e

end Scalar

namespace Encoding

def fixedBytes (t : DataType) (v : Scalar) : Except Error (List UInt8) :=
  match t, v with
  | .boolean, .boolean b => .ok [if b then 1 else 0]
  | .int8, .int8 n => .ok (Word.toBytes 1 n.toUInt8.toNat)
  | .int16, .int16 n => .ok (Word.toBytes 2 n.toUInt16.toNat)
  | .int32, .int32 n => .ok (Word.toBytes 4 n.toUInt32.toNat)
  | .int64, .int64 n => .ok (Word.toBytes 8 n.toUInt64.toNat)
  | .float16, .float16 bits => .ok (Word.toBytes 2 bits.toNat)
  | .float32, .float32 bits => .ok (Word.toBytes 4 bits.toNat)
  | .float64, .float64 bits => .ok (Word.toBytes 8 bits.toNat)
  | t, v => .error (.fixedMismatch t v)

def integerFits (t : DataType) (n : Int64) : Bool :=
  match t with
  | .int8 => Int8.minValue.toInt ≤ n.toInt && n.toInt ≤ Int8.maxValue.toInt
  | .int16 => Int16.minValue.toInt ≤ n.toInt && n.toInt ≤ Int16.maxValue.toInt
  | .int32 => Int32.minValue.toInt ≤ n.toInt && n.toInt ≤ Int32.maxValue.toInt
  | .int64 => true
  | _ => false

/-- A number taken into a type that has the numbers from `least` to `greatest`. -/
def narrow? {α : Type} (least greatest : Int) (take : Int64 → α) (n : Int64) : Option α :=
  if least ≤ n.toInt ∧ n.toInt ≤ greatest then some (take n) else none

def int8? : Int64 → Option Int8 := narrow? Int8.minValue.toInt Int8.maxValue.toInt Int64.toInt8

def int16? : Int64 → Option Int16 := narrow? Int16.minValue.toInt Int16.maxValue.toInt Int64.toInt16

def int32? : Int64 → Option Int32 := narrow? Int32.minValue.toInt Int32.maxValue.toInt Int64.toInt32

/-- The bytes of a number in a slot of some integer type. The range is that of the type the number is taken into, and
is not asked of `integerFits`. -/
def integerBytes (t : DataType) (n : Int64) : Except Error (List UInt8) :=
  match t with
  | .int8 =>
    match int8? n with
    | some v => .ok (Word.toBytes 1 v.toUInt8.toNat)
    | none => .error (.integerRange t n)
  | .int16 =>
    match int16? n with
    | some v => .ok (Word.toBytes 2 v.toUInt16.toNat)
    | none => .error (.integerRange t n)
  | .int32 =>
    match int32? n with
    | some v => .ok (Word.toBytes 4 v.toUInt32.toNat)
    | none => .error (.integerRange t n)
  | .int64 => .ok (Word.toBytes 8 n.toUInt64.toNat)
  | other => .error (.integerMismatch other)

def varlenBytes (t : DataType) (v : Scalar) : Except Error (List UInt8) :=
  match t, v with
  | .utf8, .utf8 s => .ok (Utf8.encode s)
  | .binary, .binary bytes => .ok bytes
  | t, v => .error (.varlenMismatch t v)

def referred (buf : List UInt8) (heap : Array UInt8) : Except Failure (List UInt8) :=
  match HeapRef.decode? buf with
  | none => .error (.fault .span)
  | some ref =>
    match ref.resolve? heap with
    | some bytes => .ok bytes
    | none =>
      .error (.error (.heapRefOutOfBounds ref.offset.toNat ref.length.toNat heap.size))

/-- Read a value of the given type from the first bytes of `buf`. Any byte but zero is true. -/
def decode (t : DataType) (buf : List UInt8) (heap : Array UInt8) : Except Failure Scalar :=
  if buf.length < t.width then .error (.fault .span)
  else
    let word := Word.ofBytes (buf.take t.width)
    match t with
    | .boolean => .ok (.boolean (word ≠ 0))
    | .int8 => .ok (.int8 (UInt8.ofNat word).toInt8)
    | .int16 => .ok (.int16 (UInt16.ofNat word).toInt16)
    | .int32 => .ok (.int32 (UInt32.ofNat word).toInt32)
    | .int64 => .ok (.int64 (UInt64.ofNat word).toInt64)
    | .float16 => .ok (.float16 (UInt16.ofNat word))
    | .float32 => .ok (.float32 (UInt32.ofNat word))
    | .float64 => .ok (.float64 (UInt64.ofNat word))
    | .utf8 =>
      match referred buf heap with
      | .error e => .error e
      | .ok bytes =>
        match Utf8.decode bytes with
        | .ok s => .ok (.utf8 s)
        | .error flaw => .error (.error (.heapText flaw))
    | .binary =>
      match referred buf heap with
      | .error e => .error e
      | .ok bytes => .ok (.binary bytes)

theorem length_fixedBytes {t : DataType} {v : Scalar} {bytes : List UInt8}
    (h : fixedBytes t v = .ok bytes) : bytes.length = t.width := by
  unfold fixedBytes at h
  split at h <;> cases h <;> simp [DataType.width]

theorem integerFits_isInteger {t : DataType} {n : Int64} (h : integerFits t n = true) :
    t.isInteger = true := by
  cases t <;> simp_all [integerFits, DataType.isInteger]

end Encoding

end GroupingSets
