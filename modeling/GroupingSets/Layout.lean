import GroupingSets.Bitmap
import GroupingSets.Ident

/-! Where the values of a tuple stand in its record. A record starts with one bit for each slot, set when the slot is
null; the values follow in slot order, without gaps. The layouts of a query are found by the id of their tuple. -/
namespace GroupingSets

structure Slot where
  id : SlotId
  datatype : DataType
  nullable : Bool
  deriving DecidableEq, Repr

structure Layout where
  id : TupleId
  slots : List Slot
  deriving DecidableEq, Repr

namespace Layout

def numSlots (l : Layout) : Nat := l.slots.length

def datatypes (l : Layout) : List DataType := l.slots.map (·.datatype)

def nullWidth (l : Layout) : Nat := Bits.bytesFor l.numSlots

def widthOf : List Slot → Nat
  | [] => 0
  | slot :: rest => slot.datatype.width + widthOf rest

def recordWidth (l : Layout) : Nat := l.nullWidth + widthOf l.slots

def offset (l : Layout) (i : Nat) : Nat := l.nullWidth + widthOf (l.slots.take i)

def valueRange (l : Layout) (i : Nat) : Except Fault (Nat × Nat) :=
  match l.slots[i]? with
  | some slot => .ok (l.offset i, l.offset i + slot.datatype.width)
  | none => .error .span

def positionOf? (l : Layout) (id : SlotId) : Option Nat := l.slots.findIdx? (·.id == id)

theorem numSlots_le_nullBits (l : Layout) : l.numSlots ≤ l.nullWidth * 8 :=
  Bits.le_bytesFor_mul l.numSlots

theorem widthOf_append (first second : List Slot) :
    widthOf (first ++ second) = widthOf first + widthOf second := by
  induction first with
  | nil => simp [widthOf]
  | cons slot rest ih => simp [widthOf, ih, Nat.add_assoc]

theorem offset_zero (l : Layout) : l.offset 0 = l.nullWidth := by
  simp [offset, widthOf]

theorem offset_succ (l : Layout) {i : Nat} {slot : Slot} (h : l.slots[i]? = some slot) :
    l.offset (i + 1) = l.offset i + slot.datatype.width := by
  simp [offset, widthOf, widthOf_append, List.take_add_one, h]
  omega

theorem offset_numSlots (l : Layout) : l.offset l.numSlots = l.recordWidth := by
  simp [offset, numSlots, recordWidth]

end Layout

/-- Layouts with the one added last in front. It hides those added before it for the same tuple. -/
structure LayoutTable where
  layouts : List Layout
  deriving DecidableEq, Repr

namespace LayoutTable

instance : EmptyCollection LayoutTable := ⟨⟨[]⟩⟩

instance : Inhabited LayoutTable := ⟨∅⟩

def get? (t : LayoutTable) (id : TupleId) : Option Layout := t.layouts.find? (·.id == id)

/-- Add a layout. A second layout for one tuple is an error, and takes the place of the first. -/
def insert (t : LayoutTable) (layout : Layout) : Except Error Unit × LayoutTable :=
  let result := match t.get? layout.id with
    | some _ => .error (.duplicateTuple layout.id)
    | none => .ok ()
  (result, ⟨layout :: t.layouts⟩)

def ofLayouts (layouts : List Layout) : Except Error LayoutTable :=
  layouts.foldlM (fun t layout =>
    match t.insert layout with
    | (.ok _, t) => .ok t
    | (.error e, _) => .error e) ∅

theorem get?_insert (t : LayoutTable) (layout : Layout) (id : TupleId) :
    (t.insert layout).2.get? id = if layout.id = id then some layout else t.get? id := by
  by_cases h : layout.id = id <;> simp [insert, get?, h]

theorem insert_error_iff (t : LayoutTable) (layout : Layout) :
    (∃ e, (t.insert layout).1 = .error e) ↔ (t.get? layout.id).isSome := by
  unfold insert
  cases t.get? layout.id <;> simp

end LayoutTable

end GroupingSets
