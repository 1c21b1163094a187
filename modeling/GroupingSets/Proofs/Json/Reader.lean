import GroupingSets.Json.Form
import Mathlib.Data.List.Forall2

/-! Reading back what was written: a reader takes exactly the text of its value from the front, as long
as what stands behind that text ends the value. -/
namespace GroupingSets.Json
variable {α β : Type}

/-- What can stand behind a value: nothing, or the character that ends it. -/
def Ended : List Char → Prop
  | [] => True
  | c :: _ => c = ',' ∨ c = ']' ∨ c = '}'

/-- A text that begins a value. It is no blank, which would be skipped, and does not close an array. -/
def Opens : List Char → Prop
  | [] => False
  | c :: _ => isBlank c = false ∧ c ≠ ']'

/-- A value is read from its text, and what stands behind the text is left. -/
structure Reads (read : Reader α) (text : List Char) (a : α) : Prop where
  opens : Opens text
  ok : ∀ rest, Ended rest → read (text ++ rest) = .ok (a, rest)

theorem skipBlank_cons {c : Char} (h : isBlank c = false) (s : List Char) :
    skipBlank (c :: s) = c :: s := by
  simp [skipBlank, h]

theorem Opens.skipBlank {text : List Char} (h : Opens text) (rest : List Char) :
    skipBlank (text ++ rest) = text ++ rest := by
  cases text with
  | nil => exact h.elim
  | cons c s => exact skipBlank_cons h.1 (s ++ rest)

private theorem Opens.append_ne {text : List Char} (h : Opens text) (rest s : List Char) :
    text ++ rest ≠ ']' :: s := by
  cases text with
  | nil => exact h.elim
  | cons c t =>
    intro he
    injection he with hc
    exact h.2 hc

theorem expect_cons {c : Char} (h : isBlank c = false) (s : List Char) : expect c (c :: s) = .ok s := by
  simp [expect, skipBlank_cons h]

/-- A value that is the whole text. -/
theorem Reads.readAll {read : Reader α} {text : List Char} {a : α} (h : Reads read text a) :
    readAll read (String.ofList text) = .ok a := by
  have hr := h.ok [] trivial
  rw [List.append_nil] at hr
  simp [Json.readAll, hr, Json.skipBlank]

theorem exists_of_readAll {read : Reader α} {text : String} {a : α} (h : Json.readAll read text = .ok a) :
    ∃ rest, read text.toList = .ok (a, rest) := by
  simp only [Json.readAll] at h
  split at h
  · cases h
  · next b rest hr =>
    split at h <;> cases h
    exact ⟨rest, hr⟩

/-- A reader that makes something of each value it reads. -/
theorem Reads.map {read : Reader α} {text : List Char} {a : α} (h : Reads read text a) {made : Reader β}
    {b : β} (hm : ∀ {s rest}, read s = .ok (a, rest) → made s = .ok (b, rest)) : Reads made text b where
  opens := h.opens
  ok rest hrest := hm (h.ok rest hrest)

/-! Words. -/

private theorem expectWord_append (word rest : List Char) : expectWord word (word ++ rest) = .ok rest := by
  induction word with
  | nil => rfl
  | cons c word ih => simpa [expectWord] using ih

theorem reads_bool (b : Bool) : Reads readBool (writeBool b) b := by
  refine ⟨by cases b <;> exact ⟨rfl, by decide⟩, fun rest _ => ?_⟩
  cases b with
  | true =>
    have h : expectWord ['r', 'u', 'e'] ('r' :: 'u' :: 'e' :: rest) = .ok rest := expectWord_append _ rest
    simp [readBool, writeBool, skipBlank_cons (c := 't') rfl, h]
  | false =>
    have h : expectWord ['a', 'l', 's', 'e'] ('a' :: 'l' :: 's' :: 'e' :: rest) = .ok rest :=
      expectWord_append _ rest
    simp [readBool, writeBool, skipBlank_cons (c := 'f') rfl, h]

theorem reads_null {read : Reader α} : Reads (readOption read) writeNull none := by
  refine ⟨⟨rfl, by decide⟩, fun rest _ => ?_⟩
  have h : expectWord ['u', 'l', 'l'] ('u' :: 'l' :: 'l' :: rest) = .ok rest := expectWord_append _ rest
  simp [readOption, writeNull, skipBlank_cons (c := 'n') rfl, h]

/-- A value that is not taken for `null`. -/
theorem Reads.option {read : Reader α} {text : List Char} {a : α} (h : Reads read text a)
    (hn : text.head? ≠ some 'n') : Reads (readOption read) text (some a) := by
  refine ⟨h.opens, fun rest hrest => ?_⟩
  have hr := h.ok rest hrest
  cases text with
  | nil => exact h.opens.elim
  | cons c s =>
    rw [readOption, h.opens.skipBlank]
    split
    · next heq => simp_all
    · rw [hr]

/-! Arrays. -/

theorem writeSeparated_cons (first : List Char) (rest : List (List Char)) :
    writeSeparated (first :: rest) = first ++ rest.flatMap (',' :: ·) := by
  induction rest generalizing first with
  | nil => simp [writeSeparated]
  | cons second rest ih => simp [writeSeparated, ih second]

theorem ended_elements (texts : List (List Char)) {close : Char} (hc : close = ']' ∨ close = '}')
    (rest : List Char) : Ended (texts.flatMap (',' :: ·) ++ close :: rest) := by
  cases texts with
  | nil => exact Or.inr hc
  | cons text texts => exact Or.inl rfl

private theorem readElements_written {item : Reader α} {texts : List (List Char)} {as : List α}
    (h : List.Forall₂ (Reads item) texts as) (rest : List Char) :
    readElements item (texts.flatMap (',' :: ·) ++ ']' :: rest) = .ok (as, rest) := by
  induction h with
  | nil =>
    rw [readElements]
    simp [skipBlank_cons (c := ']') rfl]
  | @cons text a texts as hr _ ih =>
    have hw : (text :: texts).flatMap (',' :: ·) ++ ']' :: rest =
        ',' :: (text ++ (texts.flatMap (',' :: ·) ++ ']' :: rest)) := by
      simp
    have hi := hr.ok _ (ended_elements texts (Or.inl rfl) rest)
    have hl (t : List Char) : t.length < (',' :: (text ++ t)).length := by
      simp only [List.length_cons, List.length_append]
      omega
    rw [hw, readElements, skipBlank_cons rfl]
    simp only [hi, ih, if_pos (hl _)]

/-- The elements of an array are read in their order. -/
theorem Reads.array {item : Reader α} {texts : List (List Char)} {as : List α}
    (h : List.Forall₂ (Reads item) texts as) : Reads (readArray item) (writeArray texts) as := by
  refine ⟨⟨rfl, by decide⟩, fun rest _ => ?_⟩
  cases h with
  | nil =>
    simp [readArray, writeArray, writeSeparated, expect_cons (c := '[') rfl, skipBlank_cons (c := ']') rfl]
  | @cons text a texts as hr hs =>
    have hw : writeArray (text :: texts) ++ rest =
        '[' :: (text ++ (texts.flatMap (',' :: ·) ++ ']' :: rest)) := by
      simp [writeArray, writeSeparated_cons]
    rw [hw, readArray, expect_cons rfl]
    dsimp only
    rw [hr.opens.skipBlank]
    split
    · next heq => exact absurd heq (hr.opens.append_ne _ _)
    · rw [hr.ok _ (ended_elements texts (Or.inl rfl) rest)]
      dsimp only
      rw [readElements_written hs rest]

/-- An array of values, each with a text of its own. -/
theorem reads_array {item : Reader α} {write : α → List Char} (h : ∀ a, Reads item (write a) a) (as : List α) :
    Reads (readArray item) (writeArray (as.map write)) as :=
  .array (List.forall₂_map_left_iff.mpr (List.forall₂_same.mpr fun a _ => h a))

end GroupingSets.Json
