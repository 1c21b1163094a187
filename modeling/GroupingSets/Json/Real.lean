import GroupingSets.Json.Number

/-! Floats read from numbers of JSON text. Digits are gathered into a word, and the float is that
word times a power of ten, rounded after each step. -/
namespace GroupingSets.Json

/-- A word of digits and the power of ten it is to be multiplied by. -/
structure Scaled where
  significand : UInt64
  exponent : Int

def appendDigit? (significand : UInt64) (digit : Char) : Option UInt64 :=
  let v := significand.toNat * 10 + (digit.toNat - '0'.toNat)
  if v < Nat.pow 2 64 then some (.ofNat v) else none

/-- Gather digits before the point. Those that no longer fit count as zeros. -/
def gatherWhole (significand : UInt64) : List Char → Scaled
  | [] => ⟨significand, 0⟩
  | d :: rest =>
    match appendDigit? significand d with
    | some more => gatherWhole more rest
    | none => ⟨significand, rest.length + 1⟩

/-- Gather digits behind the point. Those that no longer fit are dropped. -/
def gatherFraction (s : Scaled) : List Char → Scaled
  | [] => s
  | d :: rest =>
    match appendDigit? s.significand d with
    | some more => gatherFraction ⟨more, s.exponent - 1⟩ rest
    | none => s

def maxPower : Nat := 308

def powerOfTen (n : Nat) : Float := Float.ofScientific 1 false n

def shrinkBy (f : Float) (n : Nat) : Float :=
  if n ≤ maxPower then f / powerOfTen n
  else if f == 0 then f
  else shrinkBy (f / powerOfTen maxPower) (n - maxPower)
termination_by n
decreasing_by simp only [maxPower] at *; omega

def Scaled.toFloat? (s : Scaled) : Option Float :=
  let f := s.significand.toFloat
  if s.exponent < 0 then some (shrinkBy f s.exponent.natAbs)
  else if s.exponent ≤ maxPower then
    let g := f * powerOfTen s.exponent.toNat
    if g.isInf then none else some g
  else if s.significand = 0 then some f
  else none

/-- The magnitude of a number. An exponent beyond 32 bits gives zero, or is too large. -/
def Numeral.magnitude? (n : Numeral) : Option Float :=
  let gathered := gatherFraction (gatherWhole 0 n.whole) (n.fraction.getD [])
  match n.exponent with
  | none => gathered.toFloat?
  | some (negative, digits) =>
    let e := digitsValue digits
    if e < Nat.pow 2 31 then
      let exponent := if negative then gathered.exponent - e else gathered.exponent + e
      ({ gathered with exponent } : Scaled).toFloat?
    else if negative || gathered.significand = 0 then some 0
    else none

def Numeral.fractional? (n : Numeral) : Option Float :=
  n.magnitude?.map fun f => if n.negative then -f else f

def readDouble : Reader Float := fun s =>
  match readNumeral s with
  | .error e => .error e
  | .ok (n, rest) =>
    match n.integer? with
    | some v =>
      .ok (if v < 0 then (Int64.ofInt v).toFloat else (UInt64.ofNat v.toNat).toFloat, rest)
    | none =>
      match n.fractional? with
      | some f => .ok (f, rest)
      | none => .error .malformed

/-- A single. What is no integer is read as a double first. -/
def readSingle : Reader Float32 := fun s =>
  match readNumeral s with
  | .error e => .error e
  | .ok (n, rest) =>
    match n.integer? with
    | some v =>
      .ok (if v < 0 then (Int64.ofInt v).toFloat32 else (UInt64.ofNat v.toNat).toFloat32, rest)
    | none =>
      match n.fractional? with
      | some f => .ok (f.toFloat32, rest)
      | none => .error .malformed

end GroupingSets.Json
