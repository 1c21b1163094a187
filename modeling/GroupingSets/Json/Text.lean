import GroupingSets.Json.Reader

/-! Strings of JSON text. -/
namespace GroupingSets.Json

def hexDigit? (c : Char) : Option Nat :=
  if '0' ≤ c ∧ c ≤ '9' then some (c.toNat - '0'.toNat)
  else if 'a' ≤ c ∧ c ≤ 'f' then some (c.toNat - 'a'.toNat + 10)
  else if 'A' ≤ c ∧ c ≤ 'F' then some (c.toNat - 'A'.toNat + 10)
  else none

def readUnit : Reader Nat
  | a :: b :: c :: d :: rest =>
    match hexDigit? a, hexDigit? b, hexDigit? c, hexDigit? d with
    | some a, some b, some c, some d => .ok (((a * 16 + b) * 16 + c) * 16 + d, rest)
    | _, _, _, _ => .error .malformed
  | _ => .error .malformed

def shortEscape? : Char → Option Char
  | '"' => some '"'
  | '\\' => some '\\'
  | '/' => some '/'
  | 'b' => some '\x08'
  | 'f' => some '\x0c'
  | 'n' => some '\n'
  | 'r' => some '\r'
  | 't' => some '\t'
  | _ => none

def isLeading (u : Nat) : Bool := 0xD800 ≤ u && u < 0xDC00

def isTrailing (u : Nat) : Bool := 0xDC00 ≤ u && u < 0xE000

/-- A character given by its units. A pair stands for one character, and half a pair for none. -/
def readUnits : Reader Char := fun s =>
  match readUnit s with
  | .error e => .error e
  | .ok (u, rest) =>
    if isTrailing u then .error .malformed
    else if isLeading u then
      match rest with
      | '\\' :: 'u' :: rest =>
        match readUnit rest with
        | .error e => .error e
        | .ok (v, rest) =>
          if isTrailing v then
            .ok (Char.ofNat ((u - 0xD800) * 0x400 + (v - 0xDC00) + 0x10000), rest)
          else .error .malformed
      | _ => .error .malformed
    else .ok (Char.ofNat u, rest)

def readEscape : Reader Char
  | 'u' :: rest => readUnits rest
  | c :: rest =>
    match shortEscape? c with
    | some d => .ok (d, rest)
    | none => .error .malformed
  | [] => .error .malformed

def readCharacters (s : List Char) : Except ReadError (List Char × List Char) :=
  match s with
  | [] => .error .malformed
  | c :: rest =>
    if c = '"' then .ok ([], rest)
    else if c = '\\' then
      match readEscape rest with
      | .error e => .error e
      | .ok (d, t) =>
        if t.length ≤ rest.length then
          match readCharacters t with
          | .error e => .error e
          | .ok (cs, u) => .ok (d :: cs, u)
        else .error .malformed
    else if c < ' ' then .error .malformed
    else
      match readCharacters rest with
      | .error e => .error e
      | .ok (cs, u) => .ok (c :: cs, u)
termination_by s.length

def readString : Reader String := fun s =>
  match expect '"' s with
  | .error e => .error e
  | .ok s =>
    match readCharacters s with
    | .error e => .error e
    | .ok (cs, rest) => .ok (String.ofList cs, rest)

/-- Pass over the characters up to the closing quote. Units need not form characters. -/
def skipCharacters (s : List Char) : Except ReadError (List Char) :=
  match s with
  | [] => .error .malformed
  | '"' :: rest => .ok rest
  | ['\\'] => .error .malformed
  | '\\' :: c :: rest =>
    if c = 'u' then
      match readUnit rest with
      | .error e => .error e
      | .ok (_, t) => if t.length ≤ rest.length then skipCharacters t else .error .malformed
    else if (shortEscape? c).isSome then skipCharacters rest
    else .error .malformed
  | c :: rest => if c < ' ' then .error .malformed else skipCharacters rest
termination_by s.length

def hexDigit (n : Nat) : Char := Nat.digitChar n

def writeCharacter (c : Char) : List Char :=
  if c = '"' then ['\\', '"']
  else if c = '\\' then ['\\', '\\']
  else if c = '\x08' then ['\\', 'b']
  else if c = '\x0c' then ['\\', 'f']
  else if c = '\n' then ['\\', 'n']
  else if c = '\r' then ['\\', 'r']
  else if c = '\t' then ['\\', 't']
  else if c < ' ' then ['\\', 'u', '0', '0', hexDigit (c.toNat / 16), hexDigit (c.toNat % 16)]
  else [c]

def writeString (s : String) : List Char := '"' :: s.toList.flatMap writeCharacter ++ ['"']

end GroupingSets.Json
