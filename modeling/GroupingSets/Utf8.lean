/-! Reading text from bytes. A byte string that is no text has a first flaw: a sequence that no
further byte could complete, or one that the end of the input cuts off. -/
namespace GroupingSets.Utf8

/-- Where a byte string stops being text. -/
inductive Flaw where
  /-- The `length` bytes from `start` on begin no character. -/
  | invalid (length start : Nat)
  /-- The input ends inside the character that begins at `start`. -/
  | incomplete (start : Nat)
  deriving DecidableEq, Repr

def Flaw.message : Flaw → String
  | .invalid length start => s!"invalid utf-8 sequence of {length} bytes from index {start}"
  | .incomplete start => s!"incomplete utf-8 byte sequence from index {start}"

structure Owed where
  least : UInt8
  greatest : UInt8
  deriving Repr

def Owed.tail : Owed := ⟨0x80, 0xBF⟩

/-- What must follow a byte that begins a character. The byte after it is bounded so that no
character has a longer form than it needs, is half of a pair, or lies beyond the last one. -/
def owedAfter (lead : UInt8) : Option (List Owed) :=
  if lead < 0x80 then some []
  else if lead < 0xC2 then none
  else if lead < 0xE0 then some [.tail]
  else if lead = 0xE0 then some [⟨0xA0, 0xBF⟩, .tail]
  else if lead = 0xED then some [⟨0x80, 0x9F⟩, .tail]
  else if lead < 0xF0 then some [.tail, .tail]
  else if lead = 0xF0 then some [⟨0x90, 0xBF⟩, .tail, .tail]
  else if lead < 0xF4 then some [.tail, .tail, .tail]
  else if lead = 0xF4 then some [⟨0x80, 0x8F⟩, .tail, .tail]
  else none

/-- The first flaw of the bytes that follow, `seen` bytes into a character that begins at `start`
and still owes `owed`. -/
def flawAfter (start seen : Nat) (owed : List Owed) : List UInt8 → Option Flaw
  | [] => if owed.isEmpty then none else some (.incomplete start)
  | b :: rest =>
    match owed with
    | [] =>
      match owedAfter b with
      | none => some (.invalid 1 (start + seen))
      | some more => flawAfter (start + seen) 1 more rest
    | next :: more =>
      if next.least ≤ b && b ≤ next.greatest then flawAfter start (seen + 1) more rest
      else some (.invalid seen start)

def flaw? (bytes : List UInt8) : Option Flaw := flawAfter 0 0 [] bytes

def encode (s : String) : List UInt8 := s.toUTF8.data.toList

def decode (bytes : List UInt8) : Except Flaw String :=
  match String.fromUTF8? ⟨bytes.toArray⟩ with
  | some s => .ok s
  | none => .error ((flaw? bytes).getD (.incomplete 0))

theorem decode_encode (s : String) : decode (encode s) = .ok s := by
  have valid : String.fromUTF8? s.toByteArray = some s := dif_pos s.isValidUTF8
  have h : String.fromUTF8? ⟨(encode s).toArray⟩ = some s := by simpa [encode] using valid
  simp [decode, h]

theorem encode_of_decode {bytes : List UInt8} {s : String} (h : decode bytes = .ok s) :
    encode s = bytes := by
  unfold decode at h
  split at h
  · next t ht =>
    cases h
    unfold String.fromUTF8? at ht
    split at ht <;> cases ht
    rfl
  · cases h

end GroupingSets.Utf8
