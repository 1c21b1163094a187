/-! Identifiers of slots and of tuple layouts, and finite sets of slots, kept as ascending lists: two sets with the
same members are equal. -/
namespace GroupingSets

structure SlotId where
  val : UInt32
  deriving DecidableEq, Repr

structure TupleId where
  val : UInt32
  deriving DecidableEq, Repr

instance : Inhabited SlotId := ⟨⟨0⟩⟩

instance : Inhabited TupleId := ⟨⟨0⟩⟩

instance : ToString SlotId := ⟨fun id => "#" ++ toString id.val.toNat⟩

instance : ToString TupleId := ⟨fun id => toString id.val.toNat⟩

instance : LT SlotId := ⟨fun a b => a.val < b.val⟩

instance (a b : SlotId) : Decidable (a < b) := inferInstanceAs (Decidable (a.val < b.val))

structure SlotSet where
  ids : List SlotId
  sorted : ids.Pairwise (· < ·)

namespace SlotSet

instance : DecidableEq SlotSet := fun a b =>
  if h : a.ids = b.ids then
    isTrue (by cases a; cases b; cases h; rfl)
  else isFalse fun e => h (e ▸ rfl)

instance : EmptyCollection SlotSet := ⟨⟨[], .nil⟩⟩

instance : Inhabited SlotSet := ⟨∅⟩

instance : Membership SlotId SlotSet := ⟨fun s id => id ∈ s.ids⟩

theorem mem_iff {id : SlotId} {s : SlotSet} : id ∈ s ↔ id ∈ s.ids := Iff.rfl

instance (id : SlotId) (s : SlotSet) : Decidable (id ∈ s) :=
  inferInstanceAs (Decidable (id ∈ s.ids))

def insertId (id : SlotId) : List SlotId → List SlotId
  | [] => [id]
  | head :: rest =>
    if id < head then id :: head :: rest
    else if head < id then head :: insertId id rest
    else head :: rest

private theorem eq_of_not_lt {a b : SlotId} (h : ¬ a < b) (k : ¬ b < a) : a = b := by
  cases a
  cases b
  exact congrArg SlotId.mk (UInt32.le_antisymm (UInt32.not_lt.1 k) (UInt32.not_lt.1 h))

private theorem mem_insertId {id x : SlotId} {ids : List SlotId} :
    x ∈ insertId id ids ↔ x = id ∨ x ∈ ids := by
  induction ids with
  | nil => simp [insertId]
  | cons head rest ih =>
    unfold insertId
    split
    · simp
    · split
      · simp only [List.mem_cons, ih]
        constructor
        · rintro (h | h | h) <;> simp [h]
        · rintro (h | h | h) <;> simp [h]
      · next ge gt => simp [eq_of_not_lt ge gt]

private theorem insertId_sorted {id : SlotId} {ids : List SlotId} (h : ids.Pairwise (· < ·)) :
    (insertId id ids).Pairwise (· < ·) := by
  induction ids with
  | nil => simp [insertId]
  | cons head rest ih =>
    obtain ⟨first, later⟩ := List.pairwise_cons.1 h
    unfold insertId
    split
    · next lt =>
      refine List.pairwise_cons.2 ⟨fun x hx => ?_, h⟩
      rcases List.mem_cons.1 hx with rfl | hx
      · exact lt
      · exact UInt32.lt_trans lt (first x hx)
    · split
      · next gt =>
        refine List.pairwise_cons.2 ⟨fun x hx => ?_, ih later⟩
        rcases mem_insertId.1 hx with rfl | hx
        · exact gt
        · exact first x hx
      · exact h

def insert (s : SlotSet) (id : SlotId) : SlotSet := ⟨insertId id s.ids, insertId_sorted s.sorted⟩

def ofList (ids : List SlotId) : SlotSet := ids.foldl insert ∅

def toList (s : SlotSet) : List SlotId := s.ids

def isSubset (a b : SlotSet) : Bool := a.ids.all fun id => decide (id ∈ b)

theorem mem_insert {s : SlotSet} {id x : SlotId} : x ∈ s.insert id ↔ x = id ∨ x ∈ s :=
  mem_insertId

theorem mem_ofList {ids : List SlotId} {x : SlotId} : x ∈ ofList ids ↔ x ∈ ids := by
  suffices h : ∀ s : SlotSet, x ∈ ids.foldl insert s ↔ x ∈ s ∨ x ∈ ids by
    simpa [ofList, mem_iff, EmptyCollection.emptyCollection] using h ∅
  induction ids with
  | nil => simp
  | cons id rest ih =>
    intro s
    simp only [List.foldl_cons, ih, mem_insert, List.mem_cons]
    constructor
    · rintro ((h | h) | h) <;> simp [h]
    · rintro (h | h | h) <;> simp [h]

theorem isSubset_iff {a b : SlotSet} : a.isSubset b = true ↔ ∀ id ∈ a, id ∈ b := by
  simp [isSubset, mem_iff]

end SlotSet

end GroupingSets
