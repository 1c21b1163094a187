import GroupingSets.Proofs.Json.Reader
import Mathlib.Algebra.Ring.Int.Defs
import Mathlib.Algebra.Ring.Nat

/-! Integers are read back from their decimal digits, within the bounds of their type. -/
namespace GroupingSets.Json

/-! Digits. -/

private theorem isDigit_of_mem_writeNat {n : Nat} {c : Char} (h : c ∈ writeNat n) : c.isDigit = true :=
  Nat.isDigit_of_mem_toDigits (by decide) (by decide) h

private theorem writeNat_ne_nil (n : Nat) : writeNat n ≠ [] := Nat.toDigits_ne_nil

private theorem digitsValue_writeNat (n : Nat) : digitsValue (writeNat n) = n := Nat.ofDigitChars_ten_toDigits

private theorem ne_of_isDigit {c d : Char} (h : c.isDigit = true) (hd : d.isDigit = false) : c ≠ d := by
  rintro rfl
  rw [h] at hd
  cases hd

private theorem exists_writeNat_eq_cons (n : Nat) : ∃ c s, writeNat n = c :: s ∧ c.isDigit = true := by
  obtain ⟨c, s, h⟩ := List.exists_cons_of_ne_nil (writeNat_ne_nil n)
  exact ⟨c, s, h, isDigit_of_mem_writeNat (h ▸ List.mem_cons_self)⟩

theorem head?_writeNat_ne (n : Nat) {c : Char} (hc : c.isDigit = false) : (writeNat n).head? ≠ some c := by
  obtain ⟨d, s, h, hd⟩ := exists_writeNat_eq_cons n
  rw [h]
  intro he
  exact ne_of_isDigit hd hc (Option.some.inj he)

/-- Only zero is written with a zero in front. -/
private theorem head?_writeNat {n : Nat} (h : 0 < n) : (writeNat n).head? ≠ some '0' := by
  induction n using Nat.strongRecOn with
  | ind n ih =>
    by_cases hn : n < 10
    · have all : ∀ m < 10, 0 < m → [Nat.digitChar m].head? ≠ some '0' := by decide
      rw [writeNat, Nat.toDigits_of_lt_base hn]
      exact all n hn h
    · have hi := ih (n / 10) (by omega) (by omega)
      rw [writeNat, Nat.toDigits_of_base_le (by decide) (by omega)]
      rwa [List.head?_append_of_ne_nil _ Nat.toDigits_ne_nil]

private theorem Ended.takeWhile_isDigit {rest : List Char} (h : Ended rest) : rest.takeWhile Char.isDigit = [] := by
  cases rest with
  | nil => rfl
  | cons c s => rcases h with rfl | rfl | rfl <;> rfl

private theorem Ended.dropWhile_isDigit {rest : List Char} (h : Ended rest) : rest.dropWhile Char.isDigit = rest := by
  cases rest with
  | nil => rfl
  | cons c s => rcases h with rfl | rfl | rfl <;> rfl

private theorem readDigits_writeNat (n : Nat) {rest : List Char} (h : Ended rest) :
    readDigits (writeNat n ++ rest) = .ok (writeNat n, rest) := by
  have ht : (writeNat n ++ rest).takeWhile Char.isDigit = writeNat n := by
    rw [List.takeWhile_append_of_pos fun c hc => isDigit_of_mem_writeNat hc, h.takeWhile_isDigit,
      List.append_nil]
  have hd : (writeNat n ++ rest).dropWhile Char.isDigit = rest := by
    rw [List.dropWhile_append_of_pos fun c hc => isDigit_of_mem_writeNat hc, h.dropWhile_isDigit]
  rw [readDigits, ht, hd]
  split
  · next hn => exact absurd hn (writeNat_ne_nil n)
  · rfl

private theorem readWhole_writeNat (n : Nat) {rest : List Char} (h : Ended rest) :
    readWhole (writeNat n ++ rest) = .ok (writeNat n, rest) := by
  rw [readWhole, readDigits_writeNat n h]
  split
  · next heq =>
    injection heq with heq
    injection heq with hdigits
    rcases Nat.eq_zero_or_pos n with rfl | hn
    · cases hdigits
    · exact absurd (by rw [hdigits]; rfl) (head?_writeNat hn)
  · rfl

/-! Numerals. -/

private theorem Ended.readFraction {rest : List Char} (h : Ended rest) : readFraction rest = .ok (none, rest) := by
  cases rest with
  | nil => rfl
  | cons c s => rcases h with rfl | rfl | rfl <;> rfl

private theorem Ended.readExponent {rest : List Char} (h : Ended rest) : readExponent rest = .ok (none, rest) := by
  cases rest with
  | nil => rfl
  | cons c s => rcases h with rfl | rfl | rfl <;> rfl

def Numeral.ofInt (v : Int) : Numeral := ⟨decide (v < 0), writeNat v.natAbs, none, none⟩

private theorem integer?_ofInt {v : Int} (hl : -2 ^ 63 ≤ v) (hg : v < 2 ^ 64) :
    (Numeral.ofInt v).integer? = some v := by
  have hs : Nat.pow 2 63 = 9223372036854775808 := rfl
  have hb : Nat.pow 2 64 = 18446744073709551616 := rfl
  simp only [Numeral.integer?, Numeral.ofInt, digitsValue_writeNat, decide_eq_true_eq]
  by_cases hv : v < 0
  · rw [if_pos hv, if_pos (by omega)]
    exact congrArg some (by omega)
  · rw [if_neg hv, if_pos (by omega)]
    exact congrArg some (by omega)

private theorem opens_of_isDigit {c : Char} (h : c.isDigit = true) (s : List Char) : Opens (c :: s) := by
  refine ⟨?_, ne_of_isDigit h rfl⟩
  simp [isBlank, ne_of_isDigit h (d := ' ') rfl, ne_of_isDigit h (d := '\t') rfl,
    ne_of_isDigit h (d := '\n') rfl, ne_of_isDigit h (d := '\r') rfl]

/-- An integer starts with its sign or with a digit. -/
private theorem writeInt_opens (v : Int) : Opens (writeInt v) := by
  obtain ⟨c, s, hw, hc⟩ := exists_writeNat_eq_cons v.natAbs
  rw [writeInt, hw]
  split
  · exact ⟨rfl, by decide⟩
  · exact opens_of_isDigit hc s

private theorem readNumeral_writeInt (v : Int) {rest : List Char} (h : Ended rest) :
    readNumeral (writeInt v ++ rest) = .ok (.ofInt v, rest) := by
  have hw := readWhole_writeNat v.natAbs h
  rw [readNumeral, (writeInt_opens v).skipBlank]
  by_cases hv : v < 0
  · simp [writeInt, hv, hw, h.readFraction, h.readExponent, Numeral.ofInt]
  · obtain ⟨c, s, hs, hc⟩ := exists_writeNat_eq_cons v.natAbs
    rw [writeInt, if_neg hv]
    split
    next negative behind hsign =>
    split at hsign
    · next heq =>
      rw [hs] at heq
      injection heq with heq
      exact absurd heq (ne_of_isDigit hc rfl)
    · cases hsign
      simp [hv, hw, h.readFraction, h.readExponent, Numeral.ofInt]

/-! The types of integers. -/

theorem reads_integer {least greatest v : Int} (hl : -2 ^ 63 ≤ least) (hg : greatest < 2 ^ 64)
    (hv : least ≤ v ∧ v ≤ greatest) : Reads (readInteger least greatest) (writeInt v) v := by
  refine ⟨writeInt_opens v, fun rest hrest => ?_⟩
  rw [readInteger, readNumeral_writeInt v hrest]
  simp only [integer?_ofInt (Int.le_trans hl hv.1) (Int.lt_of_le_of_lt hv.2 hg), if_pos hv]

private theorem writeInt_natCast (n : Nat) : writeInt n = writeNat n := by
  rw [writeInt, if_neg (by omega), Int.natAbs_natCast]

theorem reads_nat {bits n : Nat} (hb : bits ≤ 64) (hn : n < 2 ^ bits) :
    Reads (readNat bits) (writeNat n) n := by
  have hp : (Nat.pow 2 bits : Int) = ((2 ^ bits : Nat) : Int) := by norm_cast
  have hl : 2 ^ bits ≤ 2 ^ 64 := Nat.pow_le_pow_right (by decide) hb
  have hi : Reads (readInteger 0 (Nat.pow 2 bits - 1)) (writeInt n) (n : Int) :=
    reads_integer (by decide) (by omega) ⟨by omega, by omega⟩
  rw [← writeInt_natCast]
  exact hi.map fun h => by simp only [readNat, h, Int.toNat_natCast]

theorem reads_uint32 (n : UInt32) : Reads readUInt32 (writeNat n.toNat) n :=
  (reads_nat (by decide) n.toNat_lt).map fun h => by simp only [readUInt32, h, UInt32.ofNat_toNat]

theorem reads_uint64 (n : UInt64) : Reads readUInt64 (writeNat n.toNat) n :=
  (reads_nat (by decide) n.toNat_lt).map fun h => by simp only [readUInt64, h, UInt64.ofNat_toNat]

theorem reads_int64 (n : Int64) : Reads readInt64 (writeInt n.toInt) n :=
  (reads_integer (by decide) (by decide) ⟨n.minValue_le_toInt, n.toInt_le⟩).map fun h => by
    simp only [readInt64, h, Int64.ofInt_toInt]

end GroupingSets.Json
