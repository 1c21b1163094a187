/-! What the caller of a query is told about an error: its kind, a message, named details in the
order they were attached, and the text of the error behind it, if there is one. -/
namespace GroupingSets

inductive ErrorKind where
  /-- An operator cannot be set up and will never run. -/
  | initialization
  /-- Memory for a batch is not to be had. -/
  | allocationFailure
  /-- The query was cancelled while it ran. -/
  | cancelled
  /-- Everything else. -/
  | internal
  deriving DecidableEq, Repr

def ErrorKind.name : ErrorKind → String
  | .initialization => "Initialization"
  | .allocationFailure => "Allocation failure"
  | .cancelled => "Cancelled"
  | .internal => "Internal"

structure Report where
  kind : ErrorKind
  message : String
  fields : List (String × String) := []
  source : Option String := none
  deriving DecidableEq, Repr

namespace Report

instance : Inhabited Report := ⟨⟨.internal, "", [], none⟩⟩

def internal (message : String) : Report := { kind := .internal, message }

def initialization (message : String) : Report := { kind := .initialization, message }

def allocation (message : String) : Report := { kind := .allocationFailure, message }

def cancelled : Report := { kind := .cancelled, message := "Query canceled" }

def withField (r : Report) (key value : String) : Report :=
  { r with fields := r.fields ++ [(key, value)] }

def withFields (r : Report) (fields : List (String × String)) : Report :=
  { r with fields := r.fields ++ fields }

def field? (r : Report) (key : String) : Option String :=
  (r.fields.find? (·.1 == key)).map (·.2)

def fieldsText (fields : List (String × String)) : String :=
  if fields.isEmpty then ""
  else " (" ++ ", ".intercalate (fields.map fun (key, value) => key ++ ": " ++ value) ++ ")"

def text (r : Report) : String :=
  r.message ++ fieldsText r.fields ++
    match r.source with
    | some source => "\nError source: " ++ source
    | none => ""

def verbose (r : Report) : String := r.kind.name ++ " error: " ++ r.text

def because (kind : ErrorKind) (message source : String) : Report :=
  { kind, message, source := some source }

def context (message source : String) : Report := because .internal message source

def missing (what : String) : Report := internal s!"Missing required value: {what}"

def format : Report :=
  context "Format error" "an error occurred when formatting an argument"

/-- A region larger than any allocation can be was asked for. -/
def reservation : Report :=
  because .allocationFailure "Failed to reserve memory"
    "memory allocation failed because the computed capacity exceeded the collection's maximum"

def require {α : Type} (what : String) : Option α → Except Report α
  | some a => .ok a
  | none => .error (missing what)

def inContext {α : Type} (message : String) : Except String α → Except Report α
  | .ok a => .ok a
  | .error source => .error (context message source)

end Report

end GroupingSets
