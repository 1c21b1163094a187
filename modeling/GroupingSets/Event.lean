import GroupingSets.Ident

/-! What operators tell about their work while they run. -/
namespace GroupingSets

/-- What a pull says about the batches after it. -/
inductive Progress where
  /-- More batches may follow. -/
  | hasMore
  /-- No batch follows. -/
  | exhausted
  deriving DecidableEq, Repr

def Progress.name : Progress → String
  | .hasMore => "HasMore"
  | .exhausted => "Exhausted"

structure RepeatStats where
  childBatches : Nat := 0
  outputBatches : Nat := 0
  rowsProduced : Nat := 0
  deriving DecidableEq, Repr

inductive Level where
  | warn
  | debug
  | trace
  deriving DecidableEq, Repr

namespace Level

def name : Level → String
  | .warn => "WARN"
  | .debug => "DEBUG"
  | .trace => "TRACE"

def rank : Level → Nat
  | .warn => 0
  | .debug => 1
  | .trace => 2

end Level

inductive Event where
  /-- A grouping slot is none of the value slots of the output. -/
  | groupingSlotAbsent (slot : SlotId)
  | repeatCreated (combinations valueSlots : Nat) (output : TupleId)
  | batchPulled (rows : Nat) (progress : Progress)
  /-- The child said that it had more, but its batch was empty. -/
  | emptyBatch
  | combinationWritten (combination rows : Nat)
  | repeatClosing (stats : RepeatStats)
  deriving DecidableEq, Repr

namespace Event

/-- A detail of an event, kept as a number where it counts something. -/
inductive Detail where
  | count (n : Nat)
  | text (s : String)
  deriving DecidableEq, Repr

def level : Event → Level
  | .groupingSlotAbsent _ => .warn
  | .repeatCreated .. | .emptyBatch | .repeatClosing _ => .debug
  | .batchPulled .. | .combinationWritten .. => .trace

def message : Event → String
  | .groupingSlotAbsent _ => "grouping slot not present in repeat output"
  | .repeatCreated .. => "created repeat operator"
  | .batchPulled .. => "pulled batch from child"
  | .emptyBatch => "child produced an empty batch, ending repeat output"
  | .combinationWritten .. => "wrote repeat combination"
  | .repeatClosing _ => "closing repeat operator"

def details : Event → List (String × Detail)
  | .groupingSlotAbsent slot => [("slot", .text (toString slot))]
  | .repeatCreated combinations valueSlots output =>
    [("combinations", .count combinations), ("value_slots", .count valueSlots),
      ("output_tuple", .text (toString output))]
  | .batchPulled rows progress => [("rows", .count rows), ("poll", .text progress.name)]
  | .emptyBatch => []
  | .combinationWritten combination rows =>
    [("combination", .count combination), ("rows", .count rows)]
  | .repeatClosing stats =>
    [("child_batches", .count stats.childBatches), ("output_batches", .count stats.outputBatches),
      ("rows_produced", .count stats.rowsProduced)]

def upTo (level : Level) (events : List Event) : List Event :=
  events.filter fun e => e.level.rank ≤ level.rank

end Event

end GroupingSets
