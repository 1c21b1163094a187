import GroupingSets.Arena
import GroupingSets.Encoding
import GroupingSets.Layout

/-! Rows read from their records, and bounded batches of rows of one layout. The arena of a batch is allocated for the
whole capacity when the first row is begun. -/
namespace GroupingSets

/-- A record and the heap that its references point into. -/
structure Row where
  layout : Layout
  record : List UInt8
  heap : Array UInt8

namespace Row

/-- Whether the null bit at `i` is set. The bits behind the last slot can be read too. -/
def isNull (r : Row) (i : Nat) : Except Fault Bool :=
  Bits.get (r.record.take r.layout.nullWidth).toArray i

def value (r : Row) (i : Nat) : Except Failure Scalar :=
  match r.layout.slots[i]? with
  | none => .error (.error (.slotOutOfBounds i r.layout.numSlots))
  | some slot =>
    match r.isNull i with
    | .error fault => .error (.fault fault)
    | .ok true => .ok .null
    | .ok false =>
      Encoding.decode slot.datatype
        ((r.record.drop (r.layout.offset i)).take slot.datatype.width) r.heap

def values (r : Row) : Except Failure (List Scalar) :=
  (List.range r.layout.numSlots).mapM r.value

end Row

structure Batch where
  layout : Layout
  capacity : Nat
  arena : Arena
  deriving DecidableEq

namespace Batch

def new (layout : Layout) (capacity : Nat) (limit : Option Nat) : Batch :=
  ⟨layout, capacity, Arena.new layout.recordWidth limit⟩

def numRows (b : Batch) : Nat := b.arena.len

def isEmpty (b : Batch) : Bool := b.arena.isEmpty

def isFull (b : Batch) : Bool := b.capacity ≤ b.numRows

def reset (b : Batch) : Batch := { b with arena := b.arena.reset }

def row (b : Batch) (i : Nat) : Except Fault Row :=
  match b.arena.record i with
  | .ok record => .ok ⟨b.layout, record, b.arena.heap⟩
  | .error fault => .error fault

def values (b : Batch) (i : Nat) : Except Failure (List Scalar) :=
  match b.row i with
  | .ok row => row.values
  | .error fault => .error (.fault fault)

def toRows (b : Batch) : Except Failure (List (List Scalar)) :=
  (List.range b.numRows).mapM b.values

def summary (b : Batch) : String :=
  s!"RowBatch \x7b tuple_id: TupleId({b.layout.id}), capacity: {b.capacity}, " ++
    s!"num_rows: {b.numRows}, .. \x7d"

theorem numRows_new (layout : Layout) (capacity : Nat) (limit : Option Nat) :
    (new layout capacity limit).numRows = 0 := rfl

theorem isEmpty_iff (b : Batch) : b.isEmpty = true ↔ b.numRows = 0 := by
  simp [isEmpty, numRows, Arena.isEmpty]

end Batch

/-! Writing the rows of a batch. A draft is the record at the end of a batch while it is written; it
becomes a row when it is committed and leaves nothing behind when it is discarded. -/

/-- A batch whose record at `index` is being written. -/
structure Draft where
  batch : Batch
  index : Nat

namespace Draft

inductive Write where
  | value (slot : Nat) (value : Scalar)
  | integer (slot : Nat) (value : Int64)
  | null (slot : Nat)
  | notNull (slot : Nat)
  | clearNulls

def layout (d : Draft) : Layout := d.batch.layout

def withArena (d : Draft) (arena : Arena) : Draft := { d with batch := { d.batch with arena } }

def put (d : Draft) (offset : Nat) (bytes : List UInt8) : Except Failure Unit × Draft :=
  match d.batch.arena.write d.index offset bytes with
  | .ok arena => (.ok (), d.withArena arena)
  | .error fault => (.error (.fault fault), d)

def putNull (d : Draft) (slot : Nat) (isNull : Bool) : Except Failure Unit × Draft :=
  match d.batch.arena.record d.index with
  | .error fault => (.error (.fault fault), d)
  | .ok record =>
    match Bits.set (record.take d.layout.nullWidth).toArray slot isNull with
    | .error fault => (.error (.fault fault), d)
    | .ok bits => d.put 0 bits.toList

def clearNulls (d : Draft) : Except Failure Unit × Draft :=
  d.put 0 (List.replicate d.layout.nullWidth 0)

def putValue (d : Draft) (i : Nat) (slot : Slot) (v : Scalar) : Except Failure Unit × Draft :=
  if slot.datatype.isVarlen then
    match Encoding.varlenBytes slot.datatype v with
    | .error e => (.error (.error e), d)
    | .ok bytes =>
      match d.batch.arena.pushHeap bytes with
      | (.error e, arena) => (.error (.error e), d.withArena arena)
      | (.ok ref, arena) => (d.withArena arena).put (d.layout.offset i) ref.encode
  else
    match Encoding.fixedBytes slot.datatype v with
    | .error e => (.error (.error e), d)
    | .ok bytes => d.put (d.layout.offset i) bytes

/-- Write a value into the slot at `i`. The slot loses its null bit before the value is looked
at. -/
def writeValue (d : Draft) (i : Nat) (v : Scalar) : Except Failure Unit × Draft :=
  match d.layout.slots[i]? with
  | none => (.error (.fault .span), d)
  | some slot =>
    if v.isNull then
      if slot.nullable then d.putNull i true
      else (.error (.error (.nullForNonNullable slot.id)), d)
    else
      match d.putNull i false with
      | (.error failure, d) => (.error failure, d)
      | (.ok _, d) => d.putValue i slot v

/-- Write a number into the integer slot at `i`. The slot loses its null bit before anything is
checked. -/
def writeInteger (d : Draft) (i : Nat) (n : Int64) : Except Failure Unit × Draft :=
  match d.putNull i false with
  | (.error failure, d) => (.error failure, d)
  | (.ok _, d) =>
    match d.layout.slots[i]? with
    | none => (.error (.fault .span), d)
    | some slot =>
      match Encoding.integerBytes slot.datatype n with
      | .error e => (.error (.error e), d)
      | .ok bytes => d.put (d.layout.offset i) bytes

def write (d : Draft) : Write → Except Failure Unit × Draft
  | .value i v => d.writeValue i v
  | .integer i n => d.writeInteger i n
  | .null i => d.putNull i true
  | .notNull i => d.putNull i false
  | .clearNulls => d.clearNulls

def fill (d : Draft) (i : Nat) : List Scalar → Except Failure Unit × Draft
  | [] =>
    if i = d.layout.numSlots then (.ok (), d)
    else (.error (.error (.tooFewValues d.layout.numSlots i)), d)
  | v :: rest =>
    if d.layout.numSlots ≤ i then (.error (.error (.tooManyValues d.layout.numSlots)), d)
    else
      match d.writeValue i v with
      | (.error failure, d) => (.error failure, d)
      | (.ok _, d) => d.fill (i + 1) rest

def commit (d : Draft) : Batch := d.batch

def discard (d : Draft) : Batch := { d.batch with arena := d.batch.arena.pop }

def settle : Except Failure Unit × Draft → Except Failure Unit × Batch
  | (.ok _, d) => (.ok (), d.commit)
  | (.error failure, d) => (.error failure, d.discard)

end Draft

namespace Batch

def beginRecord (b : Batch) : Except Error Nat × Batch :=
  if b.isFull then (.error (.batchFull b.capacity), b)
  else
    match if b.arena.isAllocated then (.ok (), b.arena) else b.arena.allocate b.capacity with
    | (.error e, arena) => (.error e, { b with arena })
    | (.ok _, arena) =>
      match arena.push with
      | (.error e, arena) => (.error e, { b with arena })
      | (.ok index, arena) => (.ok index, { b with arena })

def appendWith (b : Batch) (write : Draft → Except Failure Unit × Draft) :
    Except Failure Unit × Batch :=
  match b.beginRecord with
  | (.error e, b) => (.error (.error e), b)
  | (.ok index, b) => Draft.settle (write ⟨b, index⟩)

def append (b : Batch) (values : List Scalar) : Except Failure Unit × Batch :=
  b.appendWith (·.fill 0 values)

def appendAll (b : Batch) : List (List Scalar) → Except Failure Unit × Batch
  | [] => (.ok (), b)
  | values :: rest =>
    match b.append values with
    | (.error failure, b) => (.error failure, b)
    | (.ok _, b) => b.appendAll rest

end Batch

end GroupingSets
