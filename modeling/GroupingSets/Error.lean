import GroupingSets.Ident
import GroupingSets.Report
import GroupingSets.Scalar
import GroupingSets.Utf8

/-! The causes for which a call can fail, and the one place where they are put into words. Accesses outside of a
structure are a mistake of the caller and never a property of the data, so they are kept apart from the errors that a
query can report. -/
namespace GroupingSets

inductive Fault where
  /-- A bit of a bitmap with `len` bits. -/
  | index (index len : Nat)
  /-- A record of an arena that holds `len` records. -/
  | record (index len : Nat)
  /-- A position of a plain list, or a span of bytes. -/
  | span
  deriving DecidableEq, Repr

namespace Fault

def message? : Fault → Option String
  | .index i n => some s!"index {i} out of bounds for len {n}"
  | .record i n => some s!"record {i} out of bounds for len {n}"
  | .span => none

end Fault

inductive Error where
  /-- A number was wanted from a value that is none. -/
  | notInteger (value : Scalar)
  /-- A size was wanted from a negative number. -/
  | notSize (value : Int64)
  | unknownSetting (name : String)
  | zeroBatchSize
  | cancelled
  /-- A second layout for one tuple. -/
  | duplicateTuple (tuple : TupleId)
  | arenaAllocated (capacity : Nat)
  | arenaOverflow (stride capacity : Nat)
  /-- The records alone would exceed the limit. -/
  | arenaLimit (wanted limit : Nat)
  /-- No memory is that large. -/
  | arenaReservation
  | arenaExhausted (capacity : Nat)
  /-- The heap would no longer be addressable. -/
  | heapOverflow (wanted : Nat)
  | heapLimit (wanted available limit : Nat)
  | batchFull (capacity : Nat)
  | tooManyValues (slots : Nat)
  | tooFewValues (slots values : Nat)
  | nullForNonNullable (slot : SlotId)
  | slotOutOfBounds (index slots : Nat)
  | fixedMismatch (datatype : DataType) (value : Scalar)
  | varlenMismatch (datatype : DataType) (value : Scalar)
  | integerMismatch (datatype : DataType)
  | integerRange (datatype : DataType) (value : Int64)
  | heapRefOutOfBounds (offset length heap : Nat)
  | heapText (flaw : Utf8.Flaw)
  | untypedNull
  | columnMissing (index columns : Nat)
  | columnType (index : Nat) (expected found : DataType)
  | unknownTuple (tuple : TupleId)
  | noCombinations
  | repeatIdCount (ids combinations : Nat)
  | indicatorLength (indicator length combinations : Nat)
  | noExpressions
  | slotCount (slots expressions indicators : Nat)
  | keepOutsideGrouping (combination : Nat)
  | expressionType (slot : SlotId) (declared found : DataType)
  | groupingNotNullable (slot : SlotId)
  | indicatorNotInteger (slot : SlotId) (datatype : DataType)
  | indicatorRange (slot : SlotId) (datatype : DataType) (value : Int64)
  | alreadyOpened
  | openedAfterClose
  | pulledBeforeOpen
  | pulledAfterClose
  | outputNotEmpty (rows : Nat)
  | outputTooSmall (capacity rows : Nat)
  | inputMissing
  | rowLength (row expected found : Nat)
  /-- An error that an operator defined elsewhere reports in its own words. -/
  | foreign (report : Report)

namespace Error

open Report

def report : Error → Report
  | .notInteger value => internal s!"Not an integer: {value}"
  | .notSize value => internal s!"Not a valid usize: {value.toInt}"
  | .unknownSetting name => internal s!"Missing setting for '{name}'"
  | .zeroBatchSize => internal "Batch size must be greater than zero"
  | .cancelled => Report.cancelled
  | .duplicateTuple tuple =>
    (internal "Duplicate tuple layout").withFields [("tuple_id", toString tuple)]
  | .arenaAllocated capacity =>
    (internal "Record arena already allocated").withFields [("capacity", toString capacity)]
  | .arenaOverflow stride capacity =>
    (allocation "Record arena size overflows").withFields
      [("stride", toString stride), ("capacity", toString capacity)]
  | .arenaLimit wanted limit =>
    (allocation "Record arena limit exceeded").withFields
      [("wanted", toString wanted), ("limit", toString limit)]
  | .arenaReservation => reservation
  | .arenaExhausted capacity =>
    (allocation "Record arena exhausted").withFields [("capacity", toString capacity)]
  | .heapOverflow wanted =>
    (allocation "Record arena heap exceeds max size").withFields [("wanted", toString wanted)]
  | .heapLimit wanted available limit =>
    (allocation "Record arena limit exceeded").withFields
      [("wanted", toString wanted), ("available", toString available), ("limit", toString limit)]
  | .batchFull capacity =>
    (internal "Row batch is full").withFields [("capacity", toString capacity)]
  | .tooManyValues slots =>
    (internal "Too many values for row").withFields [("num_slots", toString slots)]
  | .tooFewValues slots values =>
    (internal "Not enough values for row").withFields
      [("num_slots", toString slots), ("num_values", toString values)]
  | .nullForNonNullable slot =>
    (internal "Null value for non-nullable slot").withFields [("slot", toString slot)]
  | .slotOutOfBounds index slots =>
    (internal "Slot index out of bounds").withFields
      [("idx", toString index), ("num_slots", toString slots)]
  | .fixedMismatch datatype value =>
    (internal "Value does not match fixed-width slot type").withFields
      [("datatype", datatype.name), ("value", value.text)]
  | .varlenMismatch datatype value =>
    (internal "Value does not match varlen slot type").withFields
      [("datatype", datatype.name), ("value", value.text)]
  | .integerMismatch datatype =>
    (internal "Slot type is not an integer").withFields [("datatype", datatype.name)]
  | .integerRange datatype value =>
    (internal "Integer out of range for slot type").withFields
      [("datatype", datatype.name), ("value", toString value.toInt)]
  | .heapRefOutOfBounds offset length heap =>
    (internal "Heap reference out of bounds").withFields
      [("offset", toString offset), ("len", toString length), ("heap_len", toString heap)]
  | .heapText flaw => context "Invalid utf8 in record heap" flaw.message
  | .untypedNull => internal "Cannot infer type for a null literal"
  | .columnMissing index columns =>
    (internal "Column expression references missing input column").withFields
      [("idx", toString index), ("num_columns", toString columns)]
  | .columnType index expected found =>
    (internal "Column expression type does not match input").withFields
      [("idx", toString index), ("expected", expected.name), ("input", found.name)]
  | .unknownTuple tuple =>
    (initialization "Failed to get tuple descriptor").withFields [("tuple_id", toString tuple)]
  | .noCombinations => initialization "Repeat requires at least one grouping combination"
  | .repeatIdCount ids combinations =>
    (initialization "Number of repeat ids does not match number of combinations").withFields
      [("repeat_ids", toString ids), ("combinations", toString combinations)]
  | .indicatorLength indicator length combinations =>
    (initialization "Grouping indicator length does not match number of combinations").withFields
      [("indicator", toString indicator), ("len", toString length),
        ("combinations", toString combinations)]
  | .noExpressions => initialization "Repeat requires at least one value expression"
  | .slotCount slots expressions indicators =>
    (initialization
        "Output layout does not match value expressions and grouping indicators").withFields
      [("layout_slots", toString slots), ("value_exprs", toString expressions),
        ("indicators", toString indicators)]
  | .keepOutsideGrouping combination =>
    (initialization "Keep set contains slots not in the grouping slots").withFields
      [("combination", toString combination)]
  | .expressionType slot declared found =>
    (initialization "Value expression type does not match output slot").withFields
      [("slot", toString slot), ("slot_type", declared.name), ("expr_type", found.name)]
  | .groupingNotNullable slot =>
    (initialization "Grouping slot must be nullable").withFields [("slot", toString slot)]
  | .indicatorNotInteger slot datatype =>
    (initialization "Grouping indicator slot must be an integer").withFields
      [("slot", toString slot), ("datatype", datatype.name)]
  | .indicatorRange slot datatype value =>
    (initialization "Grouping indicator value does not fit in slot type").withFields
      [("slot", toString slot), ("datatype", datatype.name), ("value", toString value.toInt)]
  | .alreadyOpened => internal "Repeat operator already opened"
  | .openedAfterClose => internal "Cannot open a closed repeat operator"
  | .pulledBeforeOpen => internal "Repeat operator polled before open"
  | .pulledAfterClose => internal "Repeat operator polled after close"
  | .outputNotEmpty rows =>
    (internal "Repeat output batch must be empty").withFields [("num_rows", toString rows)]
  | .outputTooSmall capacity rows =>
    (internal "Output batch too small for input batch").withFields
      [("output_capacity", toString capacity), ("input_rows", toString rows)]
  | .inputMissing => missing "buffered input batch"
  | .rowLength row expected found =>
    (initialization "Values row has incorrect number of columns").withFields
      [("row", toString row), ("expected", toString expected), ("got", toString found)]
  | .foreign report => report

def kind (e : Error) : ErrorKind := e.report.kind

def text (e : Error) : String := e.report.text

end Error

/-- Why a call did not return a value: it reports an error, or it faults. -/
inductive Failure where
  | error (e : Error)
  | fault (f : Fault)

namespace Failure

def ofError {α : Type} : Except Error α → Except Failure α
  | .ok a => .ok a
  | .error e => .error (.error e)

def ofFault {α : Type} : Except Fault α → Except Failure α
  | .ok a => .ok a
  | .error f => .error (.fault f)

end Failure

end GroupingSets
