/-! Floats and their decimal texts. -/
namespace GroupingSets

/-! Floats by their bits: sign, exponent and significand of the three interchange widths. Values
are exact, as `significand * 2 ^ exponent`. -/

structure FloatFormat where
  exponentBits : Nat
  fractionBits : Nat
  deriving DecidableEq, Repr

/-- A nonzero finite magnitude, `significand * 2 ^ exponent`. Below a power of two the next smaller
value is only half as far away as the next larger one: `narrow` says that this is the case. -/
structure Magnitude where
  significand : Nat
  exponent : Int
  narrow : Bool
  deriving DecidableEq, Repr

inductive FloatValue where
  | nan
  | infinite (negative : Bool)
  | zero (negative : Bool)
  | finite (negative : Bool) (magnitude : Magnitude)
  deriving DecidableEq, Repr

namespace FloatFormat

def half : FloatFormat := ⟨5, 10⟩

def single : FloatFormat := ⟨8, 23⟩

def double : FloatFormat := ⟨11, 52⟩

def fraction (f : FloatFormat) (bits : Nat) : Nat := bits % Nat.pow 2 f.fractionBits

def exponentField (f : FloatFormat) (bits : Nat) : Nat :=
  bits / Nat.pow 2 f.fractionBits % Nat.pow 2 f.exponentBits

def negative (f : FloatFormat) (bits : Nat) : Bool :=
  bits.testBit (f.fractionBits + f.exponentBits)

def minExponent (f : FloatFormat) : Int :=
  2 - Nat.pow 2 (f.exponentBits - 1) - f.fractionBits

def decode (f : FloatFormat) (bits : Nat) : FloatValue :=
  let sign := f.negative bits
  let field := f.exponentField bits
  let low := f.fraction bits
  if field + 1 = Nat.pow 2 f.exponentBits then
    if low = 0 then .infinite sign else .nan
  else if field = 0 then
    if low = 0 then .zero sign else .finite sign ⟨low, f.minExponent, false⟩
  else
    .finite sign ⟨Nat.pow 2 f.fractionBits + low, f.minExponent + (field - 1), low = 0 && field ≠ 1⟩

/-- Comparison of two floats of one width: nothing equals a NaN, and the two zeros are equal. -/
def sameValue (f : FloatFormat) (a b : Nat) : Bool :=
  match f.decode a, f.decode b with
  | .nan, _ | _, .nan => false
  | .zero _, .zero _ => true
  | x, y => x = y

/-- The single that has the same value as the half with the given bits. Every half is exact as a
single, and the smallest ones become normal. -/
def singleOfHalf (bits : Nat) : Nat :=
  let sign := if half.negative bits then Nat.pow 2 31 else 0
  let field := half.exponentField bits
  let low := half.fraction bits
  if field = 31 then sign + 255 * Nat.pow 2 23 + low * Nat.pow 2 13
  else if field = 0 then
    if low = 0 then sign
    else sign + (103 + low.log2) * Nat.pow 2 23 + low * Nat.pow 2 (23 - low.log2) % Nat.pow 2 23
  else sign + (field + 112) * Nat.pow 2 23 + low * Nat.pow 2 13

end FloatFormat

/-! The shortest decimal text of a float: the coarsest decimal grid that has a point among the reals
that round to the float, and on that grid the point nearest to it. -/

namespace Decimal

/-- `a * 2 ^ e` and `b * 10 ^ p` over a common denominator, as two natural numbers. -/
def overCommon (a : Nat) (e : Int) (b : Nat) (p : Int) : Nat × Nat :=
  (a * Nat.pow 2 e.toNat * Nat.pow 10 (-p).toNat, b * Nat.pow 10 p.toNat * Nat.pow 2 (-e).toNat)

/-- The reals that round to a magnitude, in quarters of its last place. The ends belong to it when
its significand is even. -/
structure Interval where
  low : Nat
  middle : Nat
  high : Nat
  exponent : Int
  closed : Bool
  deriving Repr

def Interval.around (m : Magnitude) : Interval :=
  ⟨4 * m.significand - (if m.narrow then 1 else 2), 4 * m.significand, 4 * m.significand + 2,
    m.exponent - 2, m.significand % 2 = 0⟩

def Interval.contains (i : Interval) (digits : Nat) (p : Int) : Bool :=
  let (low, x) := overCommon i.low i.exponent digits p
  let (high, y) := overCommon i.high i.exponent digits p
  if i.closed then low ≤ x && y ≤ high else low < x && y < high

/-- The point of the grid `10 ^ p` nearest to the middle, if the interval has a point of the grid.
Of two points equally near the larger one is taken. -/
def Interval.pointOn? (i : Interval) (p : Int) : Option Nat :=
  let (middle, step) := overCommon i.middle i.exponent 1 p
  let below := middle / step
  match i.contains below p, i.contains (below + 1) p with
  | true, true => some (if 2 * (middle % step) < step then below else below + 1)
  | true, false => some below
  | false, true => some (below + 1)
  | false, false => none

def Interval.coarsest (i : Interval) (p : Int) : Nat → Nat × Int
  | 0 => ((i.pointOn? p).getD 0, p)
  | steps + 1 =>
    match i.pointOn? p with
    | some digits => (digits, p)
    | none => i.coarsest (p - 1) steps

/-- The shortest digits that read back as the magnitude. The search starts above the largest double;
on the grid of its last place a magnitude with a negative exponent is itself a point. -/
def shortest (m : Magnitude) : Nat × Int :=
  (Interval.around m).coarsest 309 (309 + m.exponent.natAbs)

def positional (digits : Nat) (p : Int) : String :=
  let text := toString digits
  if 0 ≤ p then text ++ "".pushn '0' p.toNat
  else
    let places := (-p).toNat
    if places < text.length then
      let whole := text.length - places
      String.ofList (text.toList.take whole) ++ "." ++ String.ofList (text.toList.drop whole)
    else "0." ++ "".pushn '0' (places - text.length) ++ text

/-- The text of a float. A NaN has no sign and a zero keeps its own. -/
def text : FloatValue → String
  | .nan => "NaN"
  | .infinite negative => if negative then "-inf" else "inf"
  | .zero negative => if negative then "-0" else "0"
  | .finite negative m =>
    let (digits, p) := shortest m
    (if negative then "-" else "") ++ positional digits p

end Decimal

end GroupingSets
