import GroupingSets.Batch
import GroupingSets.Operator

/-! An operator that emits given rows, as many at a time as a batch has room for. -/
namespace GroupingSets

structure Values where
  layout : Layout
  rows : List (List Scalar)
  /-- Rows emitted so far. -/
  offset : Nat := 0
  deriving DecidableEq

namespace Values

def numRows (v : Values) : Nat := v.rows.length

def checkRows (layout : Layout) (rows : List (List Scalar)) : Except Error Unit :=
  match rows.zipIdx.find? fun (row, _) => row.length != layout.numSlots with
  | some (row, i) => .error (.rowLength i layout.numSlots row.length)
  | none => .ok ()

def start (v : Values) : Reply Values :=
  match checkRows v.layout v.rows with
  | .error e => { result := .error (.error e), state := v }
  | .ok _ => { result := .ok (), state := { v with offset := 0 } }

/-- Emit the next rows. Unless all of them are written, none counts as emitted. -/
def pull (c : Context) (v : Values) (output : Batch) : Pulled Values :=
  match c.check with
  | .error e => { result := .error (.error e), state := v, output }
  | .ok _ =>
    let chunk := (v.rows.drop v.offset).take output.capacity
    match output.appendAll chunk with
    | (.error failure, output) => { result := .error failure, state := v, output }
    | (.ok _, output) =>
      let offset := v.offset + chunk.length
      { result := .ok (if v.numRows ≤ offset then .exhausted else .hasMore)
        state := { v with offset }
        output }

def explain (v : Values) : Explain :=
  (({ name := "Values" } : Explain).withValue "num_rows" (toString v.numRows)).withValues
    "datatypes" (v.layout.datatypes.map (·.name))

instance : Operator Values where
  name _ := "Values"
  outputLayout v := v.layout
  start _ v := v.start
  pull := pull
  close _ v := { result := .ok (), state := v }
  explain _ v := v.explain

end Values

end GroupingSets
