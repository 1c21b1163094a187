/-! Descriptions of operators for people: a name, and items in the order of their keys. -/
namespace GroupingSets

def compactList (elements : List String) : String := "[" ++ ",".intercalate elements ++ "]"

namespace Explain

inductive Value where
  | value (text : String)
  | values (texts : List String)
  deriving DecidableEq, Repr

def Value.text : Value → String
  | .value text => text
  | .values texts => "[" ++ ", ".intercalate texts ++ "]"

/-- Items, each under a key of its own. Keys are ordered by code points, which is also the order of
their bytes. -/
structure Items where
  entries : List (String × Value)
  sorted : entries.Pairwise (fun a b => a.1 < b.1)

instance : DecidableEq Items := fun a b =>
  if h : a.entries = b.entries then
    isTrue (by cases a; cases b; cases h; rfl)
  else isFalse fun e => h (e ▸ rfl)

instance : EmptyCollection Items := ⟨⟨[], .nil⟩⟩

instance : Inhabited Items := ⟨∅⟩

def insertEntry (key : String) (v : Value) : List (String × Value) → List (String × Value)
  | [] => [(key, v)]
  | (k, w) :: rest =>
    if key < k then (key, v) :: (k, w) :: rest
    else if k < key then (k, w) :: insertEntry key v rest
    else (key, v) :: rest

private theorem mem_insertEntry {key : String} {v : Value} {entries : List (String × Value)}
    {e : String × Value} (h : e ∈ insertEntry key v entries) : e = (key, v) ∨ e ∈ entries := by
  induction entries with
  | nil => simpa [insertEntry] using h
  | cons head rest ih =>
    obtain ⟨k, w⟩ := head
    unfold insertEntry at h
    split at h
    · simpa using h
    · split at h
      · rcases List.mem_cons.1 h with rfl | h
        · simp
        · rcases ih h with rfl | h <;> simp_all
      · rcases List.mem_cons.1 h with rfl | h <;> simp_all

private theorem insertEntry_sorted {key : String} {v : Value} {entries : List (String × Value)}
    (h : entries.Pairwise (fun a b => a.1 < b.1)) :
    (insertEntry key v entries).Pairwise (fun a b => a.1 < b.1) := by
  induction entries with
  | nil => simp [insertEntry]
  | cons head rest ih =>
    obtain ⟨k, w⟩ := head
    obtain ⟨first, later⟩ := List.pairwise_cons.1 h
    unfold insertEntry
    split
    · next lt =>
      refine List.pairwise_cons.2 ⟨fun e he => ?_, h⟩
      rcases List.mem_cons.1 he with rfl | he
      · exact lt
      · exact String.lt_trans lt (first e he)
    · split
      · next gt =>
        refine List.pairwise_cons.2 ⟨fun e he => ?_, ih later⟩
        rcases mem_insertEntry he with rfl | he
        · exact gt
        · exact first e he
      · next ge gt =>
        have same : key = k := String.le_antisymm gt ge
        subst same
        exact List.pairwise_cons.2 ⟨first, later⟩

def Items.insert (items : Items) (key : String) (v : Value) : Items :=
  ⟨insertEntry key v items.entries, insertEntry_sorted items.sorted⟩

end Explain

structure Explain where
  name : String
  items : Explain.Items := ∅
  deriving DecidableEq

namespace Explain

instance : Inhabited Explain := ⟨{ name := "" }⟩

def withValue (e : Explain) (key value : String) : Explain :=
  { e with items := e.items.insert key (.value value) }

def withValues (e : Explain) (key : String) (values : List String) : Explain :=
  { e with items := e.items.insert key (.values values) }

def text (e : Explain) : String :=
  if e.items.entries.isEmpty then e.name
  else
    e.name ++ " (" ++
      ", ".intercalate (e.items.entries.map fun (key, v) => key ++ " = " ++ v.text) ++ ")"

end Explain

end GroupingSets
