import GroupingSets.Json.Ignored

/-! The JSON forms of structures and of enumerations. A structure is an object with its fields as
members, in any order and with members of other names passed over, or an array of its fields in
order. A case of an enumeration is its name, or an object with the name as its only key. -/
namespace GroupingSets.Json

variable {α σ : Type}

/-- A field by its name, with the reader that adds it to the fields gathered so far. -/
abbrev FieldReader (σ : Type) := String × (σ → Reader σ)

def FieldReader.ofPlace (name : String) (place : σ → Option α) (read : Reader α)
    (put : σ → α → σ) : FieldReader σ :=
  (name, fun acc s =>
    if (place acc).isSome then .error .malformed
    else
      match read s with
      | .ok (a, rest) => .ok (put acc a, rest)
      | .error e => .error e)

def readField (fields : List (FieldReader σ)) (key : String) (acc : σ) : Reader σ := fun s =>
  match fields.lookup key with
  | some read => read acc s
  | none =>
    match skipValue s with
    | .ok rest => .ok (acc, rest)
    | .error e => .error e

/-- The elements of an array behind the one for the field before. Fields at the end may be left
out here. -/
def readPositions : List (FieldReader σ) → σ → Reader σ
  | fields, acc, s =>
    match skipBlank s with
    | ']' :: rest => .ok (acc, rest)
    | ',' :: rest =>
      match fields with
      | [] => .error .malformed
      | (_, read) :: fields =>
        match read acc rest with
        | .error e => .error e
        | .ok (acc, rest) => readPositions fields acc rest
    | _ => .error .malformed

def readFields (fields : List (FieldReader σ)) (empty : σ) : Reader σ := fun s =>
  match skipBlank s with
  | '{' :: rest => readObject readString (readField fields) empty rest
  | '[' :: rest =>
    match skipBlank rest, fields with
    | ']' :: rest, _ => .ok (empty, rest)
    | _, [] => .error .malformed
    | rest, (_, read) :: fields =>
      match read empty rest with
      | .error e => .error e
      | .ok (acc, rest) => readPositions fields acc rest
  | _ => .error .malformed

def readStructure (fields : List (FieldReader σ)) (empty : σ) (build : σ → Option α) : Reader α :=
  fun s =>
    match readFields fields empty s with
    | .error e => .error e
    | .ok (acc, rest) =>
      match build acc with
      | some a => .ok (a, rest)
      | none => .error .malformed

inductive Case (α : Type) where
  /-- A case that stands for one value. -/
  | plain (value : α)
  /-- A case that carries something. -/
  | carrying (read : Reader α)

def Case.readPayload : Case α → Reader α
  | .plain a => fun s =>
    match expectNull s with
    | .ok rest => .ok (a, rest)
    | .error e => .error e
  | .carrying read => read

/-- A case by its name, or by an object with the name as its only key. -/
def readEnumeration (case? : String → Option (Case α)) : Reader α := fun s =>
  match skipBlank s with
  | '"' :: rest =>
    match readString ('"' :: rest) with
    | .error e => .error e
    | .ok (name, rest) =>
      match case? name with
      | some (.plain a) => .ok (a, rest)
      | _ => .error .malformed
  | '{' :: rest =>
    match readKey readString rest with
    | .error e => .error e
    | .ok (name, rest) =>
      match case? name with
      | none => .error .malformed
      | some c =>
        match c.readPayload rest with
        | .error e => .error e
        | .ok (a, rest) =>
          match expect '}' rest with
          | .ok rest => .ok (a, rest)
          | .error e => .error e
  | _ => .error .malformed

def writeSeparated : List (List Char) → List Char
  | [] => []
  | [last] => last
  | first :: rest => first ++ ',' :: writeSeparated rest

def writeArray (elements : List (List Char)) : List Char := '[' :: writeSeparated elements ++ [']']

def writeObject (members : List (String × List Char)) : List Char :=
  '{' :: writeSeparated (members.map fun (key, v) => writeString key ++ ':' :: v) ++ ['}']

def writeBool (b : Bool) : List Char :=
  if b then ['t', 'r', 'u', 'e'] else ['f', 'a', 'l', 's', 'e']

def writeNull : List Char := ['n', 'u', 'l', 'l']

end GroupingSets.Json
