import GroupingSets.Json.Reader

/-! Numbers of JSON text, as they are spelled. -/
namespace GroupingSets.Json

/-- The parts of a number. A number with neither fraction nor exponent is an integer. -/
structure Numeral where
  negative : Bool
  /-- Digits before the point. -/
  whole : List Char
  /-- Digits behind the point, if there is one. -/
  fraction : Option (List Char)
  /-- Sign and digits of the exponent, if there is one. -/
  exponent : Option (Bool × List Char)
  deriving DecidableEq, Repr

def readDigits : Reader (List Char) := fun s =>
  match s.takeWhile Char.isDigit with
  | [] => .error .malformed
  | digits => .ok (digits, s.dropWhile Char.isDigit)

/-- The digits before the point: a single zero, or some that do not start with zero. -/
def readWhole : Reader (List Char) := fun s =>
  match readDigits s with
  | .ok ('0' :: _ :: _, _) => .error .malformed
  | other => other

def readFraction : Reader (Option (List Char))
  | '.' :: s =>
    match readDigits s with
    | .ok (digits, rest) => .ok (some digits, rest)
    | .error e => .error e
  | s => .ok (none, s)

def readSign : List Char → Bool × List Char
  | '-' :: s => (true, s)
  | '+' :: s => (false, s)
  | s => (false, s)

def readExponent : Reader (Option (Bool × List Char)) := fun s =>
  match s with
  | c :: rest =>
    if c = 'e' || c = 'E' then
      match readSign rest with
      | (negative, rest) =>
        match readDigits rest with
        | .ok (digits, rest) => .ok (some (negative, digits), rest)
        | .error e => .error e
    else .ok (none, s)
  | [] => .ok (none, s)

def readNumeral : Reader Numeral := fun s =>
  let (negative, s) := match skipBlank s with
    | '-' :: rest => (true, rest)
    | rest => (false, rest)
  match readWhole s with
  | .error e => .error e
  | .ok (whole, s) =>
    match readFraction s with
    | .error e => .error e
    | .ok (fraction, s) =>
      match readExponent s with
      | .error e => .error e
      | .ok (exponent, s) => .ok (⟨negative, whole, fraction, exponent⟩, s)

def digitsValue (digits : List Char) : Nat := Nat.ofDigitChars 10 digits 0

/-- The integer a number is, within 64 bits of either sign. A zero with a sign is none. -/
def Numeral.integer? (n : Numeral) : Option Int :=
  match n.fraction, n.exponent with
  | none, none =>
    let v := digitsValue n.whole
    if n.negative then if 0 < v ∧ v ≤ Nat.pow 2 63 then some (-v) else none
    else if v < Nat.pow 2 64 then some v
    else none
  | _, _ => none

def readInteger (least greatest : Int) : Reader Int := fun s =>
  match readNumeral s with
  | .error e => .error e
  | .ok (n, rest) =>
    match n.integer? with
    | some v => if least ≤ v ∧ v ≤ greatest then .ok (v, rest) else .error .malformed
    | none => .error .malformed

def readNat (bits : Nat) : Reader Nat := fun s =>
  match readInteger 0 (Nat.pow 2 bits - 1) s with
  | .ok (v, rest) => .ok (v.toNat, rest)
  | .error e => .error e

def readUInt32 : Reader UInt32 := fun s =>
  match readNat 32 s with
  | .ok (v, rest) => .ok (.ofNat v, rest)
  | .error e => .error e

def readUInt64 : Reader UInt64 := fun s =>
  match readNat 64 s with
  | .ok (v, rest) => .ok (.ofNat v, rest)
  | .error e => .error e

def readInt64 : Reader Int64 := fun s =>
  match readInteger Int64.minValue.toInt Int64.maxValue.toInt s with
  | .ok (v, rest) => .ok (.ofInt v, rest)
  | .error e => .error e

def writeNat (n : Nat) : List Char := Nat.toDigits 10 n

def writeInt (n : Int) : List Char :=
  if n < 0 then '-' :: writeNat n.natAbs else writeNat n.natAbs

end GroupingSets.Json
