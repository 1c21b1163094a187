import GroupingSets.Error
import GroupingSets.Region

/-! Memory of a batch. Records of one width stand one behind the other in a fixed region that is
allocated once; bytes of varying length are appended to a heap. Memory is given back only as a
whole, but the record pushed last can be taken back together with the heap bytes behind it.

Operations return their result beside the arena they leave, since an arena outlives a failure. -/
namespace GroupingSets

structure Arena where
  /-- Width of a record in bytes. -/
  stride : Nat
  /-- Bytes that both regions together may take. -/
  limit : Option Nat
  /-- Records the fixed region has room for; zero until it is allocated. -/
  capacity : Nat := 0
  /-- Records handed out. -/
  len : Nat := 0
  fixed : Array UInt8 := #[]
  heap : Array UInt8 := #[]
  /-- Bytes reserved for the heap. -/
  heapCapacity : Nat := 0
  /-- Size of the heap when the last record was pushed. -/
  mark : Nat := 0
  deriving DecidableEq

namespace Arena

def maxSize : Nat := Nat.pow 2 64 - 1

def maxReservation : Nat := Nat.pow 2 63 - 1

/-- The largest heap whose offsets fit into a reference. -/
def maxHeap : Nat := Nat.pow 2 32 - 1

def new (stride : Nat) (limit : Option Nat) : Arena := { stride, limit }

def isEmpty (a : Arena) : Bool := a.len == 0

def isAllocated (a : Arena) : Bool := 0 < a.capacity

def reserved (a : Arena) : Nat := a.fixed.size + a.heapCapacity

def checkLimit (a : Arena) (more : Nat) : Except Error Unit :=
  match a.limit with
  | none => .ok ()
  | some limit =>
    let wanted := min (a.reserved + more) maxSize
    if limit < wanted then .error (.arenaLimit wanted limit) else .ok ()

def allocate (a : Arena) (capacity : Nat) : Except Error Unit × Arena :=
  if a.isAllocated then (.error (.arenaAllocated a.capacity), a)
  else if maxSize < a.stride * capacity then (.error (.arenaOverflow a.stride capacity), a)
  else
    match a.checkLimit (a.stride * capacity) with
    | .error e => (.error e, a)
    | .ok _ =>
      if maxReservation < a.stride * capacity then (.error .arenaReservation, a)
      else (.ok (), { a with capacity, fixed := Array.replicate (a.stride * capacity) 0 })

def push (a : Arena) : Except Error Nat × Arena :=
  if a.capacity ≤ a.len then (.error (.arenaExhausted a.capacity), a)
  else (.ok a.len, { a with len := a.len + 1, mark := a.heap.size })

/-- Take back the record handed out last: its bytes become zero again, and the heap is cut back to
the mark. -/
def pop (a : Arena) : Arena :=
  if a.len = 0 then a
  else
    let last := a.len - 1
    { a with
      len := last
      fixed := Region.overwrite a.fixed (last * a.stride) (List.replicate a.stride 0)
      heap := a.heap.take a.mark }

def record (a : Arena) (i : Nat) : Except Fault (List UInt8) :=
  if i < a.len then .ok (Region.slice a.fixed (i * a.stride) a.stride)
  else .error (.record i a.len)

def write (a : Arena) (i offset : Nat) (bytes : List UInt8) : Except Fault Arena :=
  if i < a.len then
    if offset + bytes.length ≤ a.stride then
      .ok { a with fixed := Region.overwrite a.fixed (i * a.stride + offset) bytes }
    else .error .span
  else .error (.record i a.len)

/-- How many bytes to reserve behind the heap so that `size` more fit. The heap doubles as long as
the limit lets it, and what the limit leaves is measured against what is reserved. -/
def heapGrowth (a : Arena) (size : Nat) : Except Error Nat :=
  let doubled := max size a.heapCapacity
  match a.limit with
  | none => .ok doubled
  | some limit =>
    let available := limit - a.reserved
    if available < size then .error (.heapLimit size available limit)
    else .ok (min doubled available)

def pushHeap (a : Arena) (bytes : List UInt8) : Except Error HeapRef × Arena :=
  let size := a.heap.size + bytes.length
  let ref : HeapRef := ⟨.ofNat a.heap.size, .ofNat bytes.length⟩
  if maxHeap < size then (.error (.heapOverflow size), a)
  else if size ≤ a.heapCapacity then (.ok ref, { a with heap := a.heap.appendList bytes })
  else
    match a.heapGrowth bytes.length with
    | .error e => (.error e, a)
    | .ok more =>
      let heapCapacity := a.heap.size + more
      (.ok ref, { a with heap := a.heap.appendList bytes, heapCapacity })

def reset (a : Arena) : Arena := new a.stride a.limit

theorem allocate_error {a b : Arena} {capacity : Nat} {e : Error}
    (h : a.allocate capacity = (.error e, b)) : b = a := by
  unfold allocate at h
  repeat' split at h
  all_goals simp_all

theorem push_error {a b : Arena} {e : Error} (h : a.push = (.error e, b)) : b = a := by
  unfold push at h
  split at h <;> simp_all

theorem pushHeap_error {a b : Arena} {bytes : List UInt8} {e : Error}
    (h : a.pushHeap bytes = (.error e, b)) : b = a := by
  unfold pushHeap at h
  dsimp only at h
  repeat' split at h
  all_goals simp_all

end Arena

end GroupingSets
