import GroupingSets.Json.Form
import GroupingSets.Settings

/-! The JSON form of settings. Fields that are left out have their default values. -/
namespace GroupingSets.Settings

open Json

structure Parts where
  batchSize : Option UInt64 := none
  arenaLimit : Option (Option UInt64) := none

/-- A batch size. Zero is refused as soon as it was read. -/
def readBatchSize : Reader UInt64 := fun s =>
  match readUInt64 s with
  | .error e => .error e
  | .ok (n, rest) => if n = 0 then .error .zeroBatchSize else .ok (n, rest)

def fields : List (FieldReader Parts) :=
  [.ofPlace "batch_size" Parts.batchSize readBatchSize fun p v => { p with batchSize := some v },
    .ofPlace "arena_limit" Parts.arenaLimit (readOption readUInt64) fun p v =>
      { p with arenaLimit := some v }]

def Parts.build (p : Parts) : Settings :=
  let standard : Settings := {}
  ⟨p.batchSize.getD standard.batchSize, p.arenaLimit.getD standard.arenaLimit⟩

def readJson : Reader Settings := readStructure fields {} fun p => some p.build

def writeJson (c : Settings) : List Char :=
  writeObject
    [("batch_size", writeNat c.batchSize.toNat),
      ("arena_limit",
        match c.arenaLimit with
        | some limit => writeNat limit.toNat
        | none => writeNull)]

def ofJson (text : String) : Except ReadError Settings := readAll readJson text

def toJson (c : Settings) : String := String.ofList c.writeJson

end GroupingSets.Settings
