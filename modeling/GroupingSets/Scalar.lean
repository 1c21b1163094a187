import GroupingSets.Decimal

/-! The types that a slot of a tuple can have, and single values of them. -/
namespace GroupingSets

inductive DataType where
  | boolean
  | int8
  | int16
  | int32
  | int64
  | float16
  | float32
  | float64
  | utf8
  | binary
  deriving DecidableEq, Repr

namespace DataType

def all : List DataType :=
  [.boolean, .int8, .int16, .int32, .int64, .float16, .float32, .float64, .utf8, .binary]

def name : DataType → String
  | .boolean => "Boolean"
  | .int8 => "Int8"
  | .int16 => "Int16"
  | .int32 => "Int32"
  | .int64 => "Int64"
  | .float16 => "Float16"
  | .float32 => "Float32"
  | .float64 => "Float64"
  | .utf8 => "Utf8"
  | .binary => "Binary"

instance : ToString DataType := ⟨name⟩

def ofName? (s : String) : Option DataType := all.find? (·.name == s)

/-- Bytes a value of the type takes inside its record. A value of varying length takes the eight
bytes of a reference into the heap. -/
def width : DataType → Nat
  | .boolean | .int8 => 1
  | .int16 | .float16 => 2
  | .int32 | .float32 => 4
  | .int64 | .float64 => 8
  | .utf8 | .binary => 8

def isVarlen : DataType → Bool
  | .utf8 | .binary => true
  | _ => false

def isInteger : DataType → Bool
  | .int8 | .int16 | .int32 | .int64 => true
  | _ => false

theorem ofName?_name (t : DataType) : ofName? t.name = some t := by
  cases t <;> decide

end DataType

/-! Single values of a tuple. Floats are kept by their bits, so that equality of scalars is equality
of what is stored; `sameValue` compares floats as numbers. -/

inductive Scalar where
  | null
  | boolean (value : Bool)
  | int8 (value : Int8)
  | int16 (value : Int16)
  | int32 (value : Int32)
  | int64 (value : Int64)
  | float16 (bits : UInt16)
  | float32 (bits : UInt32)
  | float64 (bits : UInt64)
  | utf8 (value : String)
  | binary (value : List UInt8)
  deriving DecidableEq

namespace Scalar

instance : Inhabited Scalar := ⟨.null⟩

def isNull : Scalar → Bool
  | .null => true
  | _ => false

def datatype? : Scalar → Option DataType
  | .null => none
  | .boolean _ => some .boolean
  | .int8 _ => some .int8
  | .int16 _ => some .int16
  | .int32 _ => some .int32
  | .int64 _ => some .int64
  | .float16 _ => some .float16
  | .float32 _ => some .float32
  | .float64 _ => some .float64
  | .utf8 _ => some .utf8
  | .binary _ => some .binary

def integer? : Scalar → Option Int64
  | .int8 v => some v.toInt64
  | .int16 v => some v.toInt64
  | .int32 v => some v.toInt64
  | .int64 v => some v
  | _ => none

/-- Equality of values of one type, with floats compared as numbers. -/
def sameValue : Scalar → Scalar → Bool
  | .float16 a, .float16 b => FloatFormat.half.sameValue a.toNat b.toNat
  | .float32 a, .float32 b => FloatFormat.single.sameValue a.toNat b.toNat
  | .float64 a, .float64 b => FloatFormat.double.sameValue a.toNat b.toNat
  | a, b => a = b

def hexByte (b : UInt8) : List Char :=
  [Nat.digitChar (b.toNat / 16), Nat.digitChar (b.toNat % 16)]

/-- The text of a value. A half is written as the single of the same value. -/
def text : Scalar → String
  | .null => "NULL"
  | .boolean v => if v then "true" else "false"
  | .int8 v => toString v.toInt
  | .int16 v => toString v.toInt
  | .int32 v => toString v.toInt
  | .int64 v => toString v.toInt
  | .float16 bits =>
    Decimal.text (FloatFormat.single.decode (FloatFormat.singleOfHalf bits.toNat))
  | .float32 bits => Decimal.text (FloatFormat.single.decode bits.toNat)
  | .float64 bits => Decimal.text (FloatFormat.double.decode bits.toNat)
  | .utf8 v => v
  | .binary bytes => String.ofList ('\\' :: 'x' :: bytes.flatMap hexByte)

instance : ToString Scalar := ⟨text⟩

theorem isNull_iff {v : Scalar} : v.isNull = true ↔ v = .null := by
  cases v <;> simp [isNull]

end Scalar

end GroupingSets
