import GroupingSets.Proofs.Json.Reader

/-! Strings are read back, whatever characters they have: those that cannot stand in a string as they
are have escapes, and every escape that is written stands for its character. -/
namespace GroupingSets.Json

private theorem hexDigit?_hexDigit {n : Nat} (h : n < 16) : hexDigit? (hexDigit n) = some n := by
  have all : ∀ n < 16, hexDigit? (hexDigit n) = some n := by decide
  exact all n h

/-- The units of a control character stand for it. -/
private theorem readEscape_control {c : Char} (h : c < ' ') (rest : List Char) :
    readEscape ('u' :: '0' :: '0' :: hexDigit (c.toNat / 16) :: hexDigit (c.toNat % 16) :: rest) =
      .ok (c, rest) := by
  have hc : c.toNat < 32 := h
  have hz : hexDigit? '0' = some 0 := rfl
  have hv : ((0 * 16 + 0) * 16 + c.toNat / 16) * 16 + c.toNat % 16 = c.toNat := by omega
  have hu : readUnit ('0' :: '0' :: hexDigit (c.toNat / 16) :: hexDigit (c.toNat % 16) :: rest) =
      .ok (c.toNat, rest) := by
    rw [readUnit, hz, hexDigit?_hexDigit (by omega), hexDigit?_hexDigit (by omega)]
    simp only [hv]
  have ht : isTrailing c.toNat = false := by simp [isTrailing]; omega
  have hl : isLeading c.toNat = false := by simp [isLeading]; omega
  simp [readEscape, readUnits, hu, ht, hl]

/-- A character is written as an escape that stands for it, or as itself where a string may have it. -/
private theorem writeCharacter_cases (c : Char) :
    (∃ escape, writeCharacter c = '\\' :: escape ∧ ∀ rest, readEscape (escape ++ rest) = .ok (c, rest)) ∨
      writeCharacter c = [c] ∧ c ≠ '"' ∧ c ≠ '\\' ∧ ¬ c < ' ' := by
  unfold writeCharacter
  iterate 7
    split
    · next h =>
      subst h
      exact Or.inl ⟨_, rfl, fun rest => rfl⟩
  split
  · next h => exact Or.inl ⟨_, rfl, readEscape_control h⟩
  · next hq hb _ _ _ _ _ hs => exact Or.inr ⟨rfl, hq, hb, hs⟩

private theorem readCharacters_writeCharacter {c : Char} {cs rest behind : List Char}
    (h : readCharacters rest = .ok (cs, behind)) :
    readCharacters (writeCharacter c ++ rest) = .ok (c :: cs, behind) := by
  rcases writeCharacter_cases c with ⟨escape, hw, he⟩ | ⟨hw, hq, hb, hs⟩
  · rw [hw, List.cons_append, readCharacters]
    simp [he, h]
  · rw [hw, List.singleton_append, readCharacters, if_neg hq, if_neg hb, if_neg hs, h]

private theorem readCharacters_written (cs rest : List Char) :
    readCharacters (cs.flatMap writeCharacter ++ '"' :: rest) = .ok (cs, rest) := by
  induction cs with
  | nil => simp [readCharacters]
  | cons c cs ih =>
    rw [List.flatMap_cons, List.append_assoc]
    exact readCharacters_writeCharacter ih

/-- Its quotes end a string, so that anything can stand behind it. -/
theorem readString_written (s : String) (rest : List Char) :
    readString (writeString s ++ rest) = .ok (s, rest) := by
  have hw : writeString s ++ rest = '"' :: (s.toList.flatMap writeCharacter ++ '"' :: rest) := by
    simp [writeString]
  rw [hw, readString, expect_cons rfl]
  simp only [readCharacters_written, String.ofList_toList]

theorem reads_string (s : String) : Reads readString (writeString s) s where
  opens := ⟨rfl, by decide⟩
  ok rest _ := readString_written s rest

end GroupingSets.Json
