import GroupingSets.Explain
import GroupingSets.Json.Form

/-! The JSON form of descriptions. Of two items under one key the last one counts. -/
namespace GroupingSets.Explain

open Json

def Value.case? : String → Option (Case Value)
  | "Value" => some (.carrying fun s =>
    match readString s with
    | .ok (text, rest) => .ok (.value text, rest)
    | .error e => .error e)
  | "Values" => some (.carrying fun s =>
    match readArray readString s with
    | .ok (texts, rest) => .ok (.values texts, rest)
    | .error e => .error e)
  | _ => none

def Value.readJson : Reader Value := readEnumeration Value.case?

def Value.writeJson : Value → List Char
  | .value text => writeObject [("Value", writeString text)]
  | .values texts => writeObject [("Values", writeArray (texts.map writeString))]

def Items.readJson : Reader Items := fun s =>
  match expect '{' s with
  | .error e => .error e
  | .ok s =>
    readObject readString
      (fun key items s =>
        match Value.readJson s with
        | .ok (v, rest) => .ok (items.insert key v, rest)
        | .error e => .error e)
      ∅ s

def Items.writeJson (items : Items) : List Char :=
  writeObject (items.entries.map fun (key, v) => (key, v.writeJson))

structure Parts where
  name : Option String := none
  items : Option Items := none

def fields : List (FieldReader Parts) :=
  [.ofPlace "name" Parts.name readString fun p v => { p with name := some v },
    .ofPlace "items" Parts.items Items.readJson fun p v => { p with items := some v }]

def Parts.build : Parts → Option Explain
  | ⟨some name, some items⟩ => some ⟨name, items⟩
  | _ => none

def readJson : Reader Explain := readStructure fields {} Parts.build

def writeJson (e : Explain) : List Char :=
  writeObject [("name", writeString e.name), ("items", e.items.writeJson)]

def ofJson (text : String) : Except ReadError Explain := readAll readJson text

def toJson (e : Explain) : String := String.ofList e.writeJson

end GroupingSets.Explain
