import GroupingSets.Json.Form
import GroupingSets.Json.Real
import GroupingSets.Scalar

/-! The JSON form of values. Integers and floats are numbers, halves are the number of their bits,
and bytes are an array. -/
namespace GroupingSets.Scalar

open Json

variable {α : Type}

def caseOf (read : Reader α) (make : α → Scalar) : Case Scalar :=
  .carrying fun s =>
    match read s with
    | .ok (a, rest) => .ok (make a, rest)
    | .error e => .error e

def case? : String → Option (Case Scalar)
  | "Null" => some (.plain .null)
  | "Boolean" => some (caseOf readBool .boolean)
  | "Int8" => some (caseOf (readInteger Int8.minValue.toInt Int8.maxValue.toInt) fun n => .int8 (.ofInt n))
  | "Int16" => some (caseOf (readInteger Int16.minValue.toInt Int16.maxValue.toInt) fun n => .int16 (.ofInt n))
  | "Int32" => some (caseOf (readInteger Int32.minValue.toInt Int32.maxValue.toInt) fun n => .int32 (.ofInt n))
  | "Int64" => some (caseOf readInt64 .int64)
  | "Float16" => some (caseOf (readNat 16) fun n => .float16 (.ofNat n))
  | "Float32" => some (caseOf readSingle fun f => .float32 f.toBits)
  | "Float64" => some (caseOf readDouble fun f => .float64 f.toBits)
  | "Utf8" => some (caseOf readString .utf8)
  | "Binary" => some (caseOf (readArray (readNat 8)) fun ns => .binary (ns.map UInt8.ofNat))
  | _ => none

def readJson : Reader Scalar := readEnumeration case?

def writeCase (name : String) (payload : List Char) : List Char := writeObject [(name, payload)]

/-- The form of a value. Singles and doubles are read but have no form of their own. -/
def writeJson? : Scalar → Option (List Char)
  | .null => some (writeString "Null")
  | .boolean v => some (writeCase "Boolean" (writeBool v))
  | .int8 n => some (writeCase "Int8" (writeInt n.toInt))
  | .int16 n => some (writeCase "Int16" (writeInt n.toInt))
  | .int32 n => some (writeCase "Int32" (writeInt n.toInt))
  | .int64 n => some (writeCase "Int64" (writeInt n.toInt))
  | .float16 bits => some (writeCase "Float16" (writeNat bits.toNat))
  | .float32 _ | .float64 _ => none
  | .utf8 s => some (writeCase "Utf8" (writeString s))
  | .binary bytes =>
    some (writeCase "Binary" (writeArray (bytes.map fun b => writeNat b.toNat)))

def ofJson (text : String) : Except ReadError Scalar := readAll readJson text

def toJson? (v : Scalar) : Option String := v.writeJson?.map String.ofList

end GroupingSets.Scalar
