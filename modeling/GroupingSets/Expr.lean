import GroupingSets.Batch

/-! Expressions that compute one value from each input row. -/
namespace GroupingSets

inductive Expr where
  /-- The slot of the input at `index`. `bound` records that it was checked against the input. -/
  | column (index : Nat) (datatype : DataType) (bound : Bool)
  /-- The same value for every row. The type is kept for nulls, which have none of their own. -/
  | literal (value : Scalar) (datatype : DataType)
  deriving DecidableEq

namespace Expr

def ofColumn (index : Nat) (datatype : DataType) : Expr := .column index datatype false

def ofValue (value : Scalar) : Except Error Expr :=
  match value.datatype? with
  | some datatype => .ok (.literal value datatype)
  | none => .error .untypedNull

def typedNull (datatype : DataType) : Expr := .literal .null datatype

def datatype : Expr → DataType
  | .column _ t _ => t
  | .literal _ t => t

def bind (e : Expr) (input : Layout) : Except Error Expr :=
  match e with
  | .literal .. => .ok e
  | .column index t _ =>
    match input.slots[index]? with
    | none => .error (.columnMissing index input.numSlots)
    | some slot =>
      if slot.datatype = t then .ok (.column index t true)
      else .error (.columnType index t slot.datatype)

/-- The value of an expression for one row. This is the optimised build: a checking build asserts that a column is
bound before it is evaluated, here nothing looks at it. -/
def eval (e : Expr) (row : Row) : Except Failure Scalar :=
  match e with
  | .literal value _ => .ok value
  | .column index _ _ => row.value index

def unbind : Expr → Expr
  | .column index t _ => .column index t false
  | e => e

def sameAs : Expr → Expr → Bool
  | .literal v t, .literal w u => v.sameValue w && t = u
  | e, f => e = f

def text : Expr → String
  | .column index _ _ => "#" ++ toString index
  | .literal value _ => value.text

instance : ToString Expr := ⟨text⟩

/-- Check expressions in turn. Those before the one that is refused stay bound. -/
def bindAll (input : Layout) : List Expr → Except Error Unit × List Expr
  | [] => (.ok (), [])
  | e :: rest =>
    match e.bind input with
    | .error err => (.error err, e :: rest)
    | .ok bound =>
      match bindAll input rest with
      | (result, rest) => (result, bound :: rest)

end Expr

end GroupingSets
