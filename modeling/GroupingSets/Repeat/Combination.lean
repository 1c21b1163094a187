import GroupingSets.Batch
import GroupingSets.Repeat.Plan

/-! Writing the output rows of one combination. -/
namespace GroupingSets.Repeat.Plan

/-- Write the value slots from `position` on. An expression whose slot is masked is not
evaluated. -/
def writeValues (mask : Bitmap) (row : Row) (position : Nat) :
    List Expr → Draft → Except Failure Unit × Draft
  | [], d => (.ok (), d)
  | expr :: rest, d =>
    match mask.get position with
    | .error fault => (.error (.fault fault), d)
    | .ok true =>
      match d.putNull position true with
      | (.error failure, d) => (.error failure, d)
      | (.ok _, d) => writeValues mask row (position + 1) rest d
    | .ok false =>
      match expr.eval row with
      | .error failure => (.error failure, d)
      | .ok v =>
        match d.writeValue position v with
        | (.error failure, d) => (.error failure, d)
        | (.ok _, d) => writeValues mask row (position + 1) rest d

def writeIndicators (position : Nat) : List Int64 → Draft → Except Failure Unit × Draft
  | [], d => (.ok (), d)
  | n :: rest, d =>
    match d.writeInteger position n with
    | (.error failure, d) => (.error failure, d)
    | (.ok _, d) => writeIndicators (position + 1) rest d

def writeRow (p : Plan) (exprs : List Expr) (combination : Nat) (mask : Bitmap) (row : Row)
    (d : Draft) : Except Failure Unit × Draft :=
  match d.clearNulls with
  | (.error failure, d) => (.error failure, d)
  | (.ok _, d) =>
    match writeValues mask row 0 exprs d with
    | (.error failure, d) => (.error failure, d)
    | (.ok _, d) =>
      match p.indicators combination with
      | .error fault => (.error (.fault fault), d)
      | .ok numbers => writeIndicators p.numValueSlots numbers d

def writeRows (p : Plan) (exprs : List Expr) (combination : Nat) (mask : Bitmap) (input : Batch) :
    List Nat → Batch → Except Failure Unit × Batch
  | [], output => (.ok (), output)
  | i :: rest, output =>
    match input.row i with
    | .error fault => (.error (.fault fault), output)
    | .ok row =>
      match output.appendWith (p.writeRow exprs combination mask row) with
      | (.error failure, output) => (.error failure, output)
      | (.ok _, output) => p.writeRows exprs combination mask input rest output

/-- Write one output row for every input row. After a failure the output has some of them. That there are as many
expressions as value slots, which a checking build asserts here, is seen to by `build`. -/
def writeCombination (p : Plan) (exprs : List Expr) (input : Batch) (combination : Nat)
    (output : Batch) : Except Failure Unit × Batch :=
  if output.capacity < input.numRows then
    (.error (.error (.outputTooSmall output.capacity input.numRows)), output)
  else
    match p.mask combination with
    | .error fault => (.error (.fault fault), output)
    | .ok mask => p.writeRows exprs combination mask input (List.range input.numRows) output

end GroupingSets.Repeat.Plan
