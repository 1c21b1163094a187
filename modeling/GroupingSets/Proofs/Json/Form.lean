import GroupingSets.Proofs.Json.Text

/-! Objects, structures and enumerations: what is written of them is read back member by member, and
what every field reader keeps is kept by the structure, in whatever form and order the text has it. -/
namespace GroupingSets.Json
variable {α σ : Type}

/-! Objects. -/

/-- Reading the members of an object one after the other leads from what was gathered before to what
is gathered behind them. -/
inductive Gathers (member : String → σ → Reader σ) : σ → List (String × List Char) → σ → Prop
  | nil {acc : σ} : Gathers member acc [] acc
  | cons {acc next last : σ} {key : String} {text : List Char} {rest : List (String × List Char)} :
      Reads (member key acc) text next → Gathers member next rest last →
        Gathers member acc ((key, text) :: rest) last

def writeMember (m : String × List Char) : List Char := writeString m.1 ++ ':' :: m.2

variable {member : String → σ → Reader σ} {acc last : σ} {members : List (String × List Char)}

private theorem readKey_written (key : String) (rest : List Char) :
    readKey readString (writeString key ++ ':' :: rest) = .ok (key, rest) := by
  rw [readKey, readString_written]
  simp only [expect_cons (c := ':') rfl]

private theorem Gathers.readMembers (h : Gathers member acc members last) (rest : List Char) :
    readMembers readString member acc ((members.map writeMember).flatMap (',' :: ·) ++ '}' :: rest) =
      .ok (last, rest) := by
  induction h with
  | nil =>
    rw [Json.readMembers]
    simp [skipBlank_cons (c := '}') rfl]
  | @cons acc next last key text members hr _ ih =>
    have hw : (((key, text) :: members).map writeMember).flatMap (',' :: ·) ++ '}' :: rest =
        ',' :: (writeString key ++
          ':' :: (text ++ ((members.map writeMember).flatMap (',' :: ·) ++ '}' :: rest))) := by
      simp [writeMember]
    have hi := hr.ok _ (ended_elements (members.map writeMember) (Or.inr rfl) rest)
    have hl (t : List Char) : t.length < (',' :: (writeString key ++ ':' :: (text ++ t))).length := by
      simp only [List.length_cons, List.length_append]
      omega
    rw [hw, Json.readMembers, skipBlank_cons rfl]
    simp only [readKey_written, hi, ih, if_pos (hl _)]

theorem Gathers.readObject (h : Gathers member acc members last) (rest : List Char) :
    readObject readString member acc (writeSeparated (members.map writeMember) ++ '}' :: rest) =
      .ok (last, rest) := by
  cases h with
  | nil => simp [Json.readObject, writeSeparated, skipBlank_cons (c := '}') rfl]
  | @cons _ next _ key text members hr hm =>
    have hw : writeSeparated (((key, text) :: members).map writeMember) ++ '}' :: rest =
        writeString key ++ ':' :: (text ++ ((members.map writeMember).flatMap (',' :: ·) ++ '}' :: rest)) := by
      simp [writeSeparated_cons, writeMember]
    rw [hw, Json.readObject, (reads_string key).opens.skipBlank]
    split
    · next heq => cases heq
    · rw [readKey_written]
      dsimp only
      rw [hr.ok _ (ended_elements (members.map writeMember) (Or.inr rfl) rest)]
      exact hm.readMembers rest

theorem writeObject_append (members : List (String × List Char)) (rest : List Char) :
    writeObject members ++ rest = '{' :: (writeSeparated (members.map writeMember) ++ '}' :: rest) := by
  have hm : (fun m : String × List Char => writeString m.1 ++ ':' :: m.2) = writeMember := rfl
  simp [writeObject, hm]

theorem writeObject_opens (members : List (String × List Char)) : Opens (writeObject members) :=
  ⟨rfl, by decide⟩

/-! Structures. -/

section Structures
variable {fields : List (FieldReader σ)} {empty : σ}

/-- A member is read into the place of its field while that is empty. -/
theorem Reads.field {item : Reader α} {text : List Char} {a : α} (h : Reads item text a) {key : String}
    {place : σ → Option α} {put : σ → α → σ}
    (hf : fields.lookup key = some (FieldReader.ofPlace key place item put).2) (hp : place acc = none) :
    Reads (readField fields key acc) text (put acc a) :=
  h.map fun hr => by simp [readField, hf, FieldReader.ofPlace, hp, hr]

/-- A structure is read from the object of its fields. -/
theorem Gathers.structure {build : σ → Option α} {a : α} (h : Gathers (readField fields) empty members last)
    (hb : build last = some a) : Reads (readStructure fields empty build) (writeObject members) a := by
  refine ⟨writeObject_opens members, fun rest _ => ?_⟩
  rw [writeObject_append, readStructure, readFields, skipBlank_cons rfl]
  simp only [h.readObject rest, hb]

end Structures

/-! Enumerations. -/

section Enumerations
variable {case? : String → Option (Case α)} {name : String} {a : α}

/-- A case that carries nothing is its name. -/
theorem reads_plain (h : case? name = some (.plain a)) :
    Reads (readEnumeration case?) (writeString name) a := by
  refine ⟨(reads_string name).opens, fun rest _ => ?_⟩
  have hn := readString_written name rest
  rw [readEnumeration, (reads_string name).opens.skipBlank]
  split
  · next s heq =>
    rw [heq] at hn
    simp only [hn, h]
  · next heq => cases heq
  · next hq _ => exact absurd rfl (hq _)

/-- A case that carries something is an object with its name as the only key. -/
theorem Reads.carrying {read : Reader α} {text : List Char} (hr : Reads read text a)
    (h : case? name = some (.carrying read)) :
    Reads (readEnumeration case?) (writeObject [(name, text)]) a := by
  refine ⟨writeObject_opens _, fun rest _ => ?_⟩
  have hi := hr.ok ('}' :: rest) (Or.inr (Or.inr rfl))
  rw [writeObject_append, readEnumeration, skipBlank_cons rfl]
  simp [writeMember, writeSeparated, readKey_written, h, Case.readPayload, hi, expect_cons (c := '}') rfl]

end Enumerations

/-! What a reader keeps. -/

/-- Whatever is read, what was gathered before stays of one kind. -/
def Keeps (kind : σ → Prop) (read : σ → Reader σ) : Prop :=
  ∀ acc s next rest, kind acc → read acc s = .ok (next, rest) → kind next

section Keeping
variable {kind : σ → Prop} {next empty : σ} {s rest : List Char}

/-- A field keeps what its place may be given. -/
theorem keeps_ofPlace {name : String} {place : σ → Option α} {read : Reader α} {put : σ → α → σ}
    (h : ∀ acc a s rest, kind acc → read s = .ok (a, rest) → kind (put acc a)) :
    Keeps kind (FieldReader.ofPlace name place read put).2 := by
  intro acc s next rest ha hr
  simp only [FieldReader.ofPlace] at hr
  split at hr
  · cases hr
  · split at hr <;> cases hr
    exact h _ _ _ _ ha ‹_›

private theorem keeps_readMembers {key : Reader String} (h : ∀ k, Keeps kind (member k)) (ha : kind acc)
    (hr : readMembers key member acc s = .ok (next, rest)) : kind next := by
  fun_induction readMembers key member acc s with
  | case1 acc s behind hs =>
    cases hr
    exact ha
  | case4 acc s t ht k u hk acc' v hm hlt ih => exact ih (h k _ _ _ _ ha hm) hr
  | _ => cases hr

private theorem keeps_readObject {key : Reader String} (h : ∀ k, Keeps kind (member k)) (ha : kind acc)
    (hr : readObject key member acc s = .ok (next, rest)) : kind next := by
  unfold readObject at hr
  repeat' split at hr
  · cases hr
    exact ha
  · cases hr
  · cases hr
  · next hm => exact keeps_readMembers h (h _ _ _ _ _ ha hm) hr

private theorem keeps_readField {fields : List (FieldReader σ)} (h : ∀ f ∈ fields, Keeps kind f.2) (key : String) :
    Keeps kind (readField fields key) := by
  intro acc s next rest ha hr
  unfold readField at hr
  split at hr
  · next read hf =>
    obtain ⟨before, behind, hl, _⟩ := List.lookup_eq_some_iff.mp hf
    exact h (key, read) (by simp [hl]) _ _ _ _ ha hr
  · split at hr <;> cases hr
    exact ha

private theorem keeps_readPositions {fields : List (FieldReader σ)} (h : ∀ f ∈ fields, Keeps kind f.2) :
    Keeps kind (readPositions fields) := by
  induction fields with
  | nil =>
    intro acc s next rest ha hr
    unfold readPositions at hr
    split at hr <;> cases hr
    exact ha
  | cons f fields ih =>
    intro acc s next rest ha hr
    unfold readPositions at hr
    split at hr
    · cases hr
      exact ha
    · dsimp only at hr
      split at hr
      · cases hr
      · next hf =>
        have hn := h f List.mem_cons_self _ _ _ _ ha hf
        exact ih (fun g hg => h g (List.mem_cons_of_mem _ hg)) _ _ _ _ hn hr
    · cases hr

private theorem keeps_readFields {fields : List (FieldReader σ)} (h : ∀ f ∈ fields, Keeps kind f.2)
    (he : kind empty) (hr : readFields fields empty s = .ok (next, rest)) : kind next := by
  unfold readFields at hr
  split at hr
  · exact keeps_readObject (keeps_readField h) he hr
  · split at hr
    · cases hr
      exact he
    · cases hr
    · split at hr
      · cases hr
      · next hf =>
        have hn := h _ List.mem_cons_self _ _ _ _ he hf
        exact keeps_readPositions (fun g hg => h g (List.mem_cons_of_mem _ hg)) _ _ _ _ hn hr
  · cases hr

/-- What is built from a text is built from fields that are of the kind every reader keeps. -/
theorem exists_parts_of_readStructure {fields : List (FieldReader σ)} {build : σ → Option α} {a : α}
    (h : ∀ f ∈ fields, Keeps kind f.2) (he : kind empty)
    (hr : readStructure fields empty build s = .ok (a, rest)) : ∃ parts, kind parts ∧ build parts = some a := by
  unfold readStructure at hr
  split at hr
  · cases hr
  · next parts _ hf =>
    split at hr <;> cases hr
    exact ⟨parts, keeps_readFields h he hf, ‹_›⟩

end Keeping

end GroupingSets.Json
