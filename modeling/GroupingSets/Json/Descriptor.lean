import GroupingSets.Json.Form
import GroupingSets.Repeat.Plan

/-! The JSON forms of types, of slots and of descriptors. Sets are arrays; they are written in ascending order, and read in
any order and with repetitions. -/
namespace GroupingSets

open Json

namespace DataType

def readJson : Reader DataType := readEnumeration fun name => (ofName? name).map Case.plain

def writeJson (t : DataType) : List Char := writeString t.name

def ofJson (text : String) : Except ReadError DataType := readAll readJson text

def toJson (t : DataType) : String := String.ofList t.writeJson

end DataType

namespace SlotId

def readJson : Reader SlotId := fun s =>
  match readUInt32 s with
  | .ok (n, rest) => .ok (⟨n⟩, rest)
  | .error e => .error e

def writeJson (id : SlotId) : List Char := writeNat id.val.toNat

end SlotId

namespace Slot

structure Parts where
  id : Option SlotId := none
  datatype : Option DataType := none
  nullable : Option Bool := none

def fields : List (FieldReader Parts) :=
  [.ofPlace "id" Parts.id SlotId.readJson fun p v => { p with id := some v },
    .ofPlace "datatype" Parts.datatype DataType.readJson fun p v => { p with datatype := some v },
    .ofPlace "nullable" Parts.nullable readBool fun p v => { p with nullable := some v }]

def Parts.build : Parts → Option Slot
  | ⟨some id, some datatype, some nullable⟩ => some ⟨id, datatype, nullable⟩
  | _ => none

def readJson : Reader Slot := readStructure fields {} Parts.build

def writeJson (slot : Slot) : List Char :=
  writeObject
    [("id", slot.id.writeJson), ("datatype", slot.datatype.writeJson),
      ("nullable", writeBool slot.nullable)]

def ofJson (text : String) : Except ReadError Slot := readAll readJson text

def toJson (slot : Slot) : String := String.ofList slot.writeJson

end Slot

namespace SlotSet

def readJson : Reader SlotSet := fun s =>
  match readArray SlotId.readJson s with
  | .ok (ids, rest) => .ok (ofList ids, rest)
  | .error e => .error e

def writeJson (s : SlotSet) : List Char := writeArray (s.toList.map SlotId.writeJson)

end SlotSet

namespace Repeat.Descriptor

structure Parts where
  groupingSlots : Option SlotSet := none
  keepSets : Option (List SlotSet) := none
  repeatIds : Option (List Int64) := none
  groupingList : Option (List (List Int64)) := none
  outputTuple : Option TupleId := none

def readTuple : Reader TupleId := fun s =>
  match readUInt32 s with
  | .ok (n, rest) => .ok (⟨n⟩, rest)
  | .error e => .error e

def fields : List (FieldReader Parts) :=
  [.ofPlace "grouping_slots" Parts.groupingSlots SlotSet.readJson fun p v =>
      { p with groupingSlots := some v },
    .ofPlace "keep_sets" Parts.keepSets (readArray SlotSet.readJson) fun p v =>
      { p with keepSets := some v },
    .ofPlace "repeat_ids" Parts.repeatIds (readArray readInt64) fun p v =>
      { p with repeatIds := some v },
    .ofPlace "grouping_list" Parts.groupingList (readArray (readArray readInt64)) fun p v =>
      { p with groupingList := some v },
    .ofPlace "output_tuple_id" Parts.outputTuple readTuple fun p v =>
      { p with outputTuple := some v }]

def Parts.build : Parts → Option Descriptor
  | ⟨some groupingSlots, some keepSets, some repeatIds, some groupingList, some outputTuple⟩ =>
    some ⟨groupingSlots, keepSets, repeatIds, groupingList, outputTuple⟩
  | _ => none

def readJson : Reader Descriptor := readStructure fields {} Parts.build

def writeNumbers (ns : List Int64) : List Char := writeArray (ns.map fun n => writeInt n.toInt)

def writeJson (d : Descriptor) : List Char :=
  writeObject
    [("grouping_slots", d.groupingSlots.writeJson),
      ("keep_sets", writeArray (d.keepSets.map SlotSet.writeJson)),
      ("repeat_ids", writeNumbers d.repeatIds),
      ("grouping_list", writeArray (d.groupingList.map writeNumbers)),
      ("output_tuple_id", writeNat d.outputTuple.val.toNat)]

def ofJson (text : String) : Except ReadError Descriptor := readAll readJson text

def toJson (d : Descriptor) : String := String.ofList d.writeJson

end Repeat.Descriptor

end GroupingSets
