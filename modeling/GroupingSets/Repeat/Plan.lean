import GroupingSets.Bitmap
import GroupingSets.Event
import GroupingSets.Expr

/-! What a planner asks of a repeat: which slots are grouped by, and which of them each grouping set keeps. A plan is
such a descriptor checked against the layout of the output and the expressions for its values, with the slots that
each combination nulls out worked out once. -/
namespace GroupingSets.Repeat

structure Descriptor where
  /-- Slots that some combination may null out. -/
  groupingSlots : SlotSet
  /-- For each combination, the grouping slots that keep their value. -/
  keepSets : List SlotSet
  /-- A number for each combination, for display. -/
  repeatIds : List Int64
  /-- Indicator columns, each with a number for each combination. -/
  groupingList : List (List Int64)
  /-- The tuple of the output. -/
  outputTuple : TupleId
  deriving DecidableEq

instance : Inhabited Descriptor := ⟨⟨∅, [], [], [], ⟨0⟩⟩⟩

structure Plan where
  descriptor : Descriptor
  outputLayout : Layout
  /-- Leading slots of the output that hold values; the others hold indicators. -/
  numValueSlots : Nat
  /-- For each combination, the positions of the value slots that are null. -/
  nullMasks : List Bitmap
  deriving DecidableEq

namespace Plan

def positionsIn (slots : List Slot) (ids : SlotSet) : Except Fault Bitmap :=
  Bitmap.ofIndices slots.length
    ((slots.zipIdx.filter fun (slot, _) => decide (slot.id ∈ ids)).map (·.2))

def checkColumns (d : Descriptor) : Except Error Unit :=
  let combinations := d.keepSets.length
  match d.groupingList.zipIdx.find? fun (column, _) => column.length != combinations with
  | some (column, i) => .error (.indicatorLength i column.length combinations)
  | none => .ok ()

def checkCounts (d : Descriptor) : Except Error Unit :=
  let combinations := d.keepSets.length
  if combinations = 0 then .error .noCombinations
  else if d.repeatIds.length ≠ combinations then
    .error (.repeatIdCount d.repeatIds.length combinations)
  else checkColumns d

def checkSlots (d : Descriptor) (layout : Layout) (exprs : List Expr) : Except Error Unit :=
  if exprs.isEmpty then .error .noExpressions
  else if layout.numSlots ≠ exprs.length + d.groupingList.length then
    .error (.slotCount layout.numSlots exprs.length d.groupingList.length)
  else .ok ()

def checkKeepSets (d : Descriptor) : Except Error Unit :=
  match d.keepSets.zipIdx.find? fun (keep, _) => !keep.isSubset d.groupingSlots with
  | some (_, i) => .error (.keepOutsideGrouping i)
  | none => .ok ()

def checkValueSlot (grouping : Bitmap) (slot : Slot) (expr : Expr) (position : Nat) :
    Except Error Unit :=
  if slot.datatype ≠ expr.datatype then
    .error (.expressionType slot.id slot.datatype expr.datatype)
  else if grouping.contains position && !slot.nullable then .error (.groupingNotNullable slot.id)
  else .ok ()

def checkValueSlots (grouping : Bitmap) (position : Nat) :
    List (Slot × Expr) → Except Error Unit
  | [] => .ok ()
  | (slot, expr) :: rest =>
    match checkValueSlot grouping slot expr position with
    | .error e => .error e
    | .ok _ => checkValueSlots grouping (position + 1) rest

def checkRange (slot : Slot) (column : List Int64) : Except Error Unit :=
  match column.find? fun n => !Encoding.integerFits slot.datatype n with
  | some n => .error (.indicatorRange slot.id slot.datatype n)
  | none => .ok ()

def checkIndicatorSlot (slot : Slot) (column : List Int64) : Except Error Unit :=
  if !slot.datatype.isInteger then .error (.indicatorNotInteger slot.id slot.datatype)
  else checkRange slot column

def checkIndicatorSlots : List (Slot × List Int64) → Except Error Unit
  | [] => .ok ()
  | (slot, column) :: rest =>
    match checkIndicatorSlot slot column with
    | .error e => .error e
    | .ok _ => checkIndicatorSlots rest

/-- The positions that a combination nulls out: grouped by, and not kept. -/
def nullMask (valueSlots : List Slot) (grouping : Bitmap) (keep : SlotSet) :
    Except Fault Bitmap :=
  match positionsIn valueSlots keep with
  | .error fault => .error fault
  | .ok kept =>
    Bitmap.ofIndices valueSlots.length
      ((List.range valueSlots.length).filter fun p => grouping.contains p && !kept.contains p)

def nullMasksOf (valueSlots : List Slot) (grouping : Bitmap) :
    List SlotSet → Except Fault (List Bitmap)
  | [] => .ok []
  | keep :: rest =>
    match nullMask valueSlots grouping keep with
    | .error fault => .error fault
    | .ok mask =>
      match nullMasksOf valueSlots grouping rest with
      | .error fault => .error fault
      | .ok masks => .ok (mask :: masks)

/-- The checks that need no bitmap, in the order in which they are reported. -/
def checkShape (d : Descriptor) (layout : Layout) (exprs : List Expr) : Except Error Unit := do
  checkCounts d
  checkSlots d layout exprs
  checkKeepSets d

/-- Grouping slots that are none of the value slots. They are harmless. -/
def absentSlots (d : Descriptor) (valueSlots : List Slot) : List SlotId :=
  d.groupingSlots.toList.filter fun id => !valueSlots.any (·.id == id)

def splitSlots (layout : Layout) (numValueSlots : Nat) : Except Fault (List Slot × List Slot) :=
  if numValueSlots ≤ layout.numSlots then
    .ok (layout.slots.take numValueSlots, layout.slots.drop numValueSlots)
  else .error .span

/-- Check a descriptor, and work out its masks. Grouping slots that the output lacks are told as
events once everything else is in order. -/
def build (d : Descriptor) (tables : LayoutTable) (exprs : List Expr) :
    Except Failure Plan × List Event :=
  match tables.get? d.outputTuple with
  | none => (.error (.error (.unknownTuple d.outputTuple)), [])
  | some layout =>
    match checkShape d layout exprs with
    | .error e => (.error (.error e), [])
    | .ok _ =>
      match splitSlots layout exprs.length with
      | .error fault => (.error (.fault fault), [])
      | .ok (valueSlots, indicatorSlots) =>
        match positionsIn valueSlots d.groupingSlots with
        | .error fault => (.error (.fault fault), [])
        | .ok grouping =>
          match checkValueSlots grouping 0 (valueSlots.zip exprs) with
          | .error e => (.error (.error e), [])
          | .ok _ =>
            match checkIndicatorSlots (indicatorSlots.zip d.groupingList) with
            | .error e => (.error (.error e), [])
            | .ok _ =>
              let events := (absentSlots d valueSlots).map Event.groupingSlotAbsent
              match nullMasksOf valueSlots grouping d.keepSets with
              | .error fault => (.error (.fault fault), events)
              | .ok nullMasks =>
                (.ok
                  { descriptor := d
                    outputLayout := layout
                    numValueSlots := exprs.length
                    nullMasks },
                  events)

def numCombinations (p : Plan) : Nat := p.nullMasks.length

def mask (p : Plan) (combination : Nat) : Except Fault Bitmap :=
  match p.nullMasks[combination]? with
  | some mask => .ok mask
  | none => .error .span

def indicators (p : Plan) (combination : Nat) : Except Fault (List Int64) :=
  p.descriptor.groupingList.mapM fun column =>
    match column[combination]? with
    | some n => .ok n
    | none => .error .span

end Plan

end GroupingSets.Repeat
