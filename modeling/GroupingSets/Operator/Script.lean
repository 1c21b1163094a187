import GroupingSets.Batch
import GroupingSets.Operator

/-! An operator that follows a script, for trying out the operators above it. It checks nothing and
counts the calls it receives. -/
namespace GroupingSets

structure Script.Entry where
  rows : List (List Scalar)
  answer : Except Report Progress

structure Script where
  layout : Layout
  /-- The pulls that are left. -/
  entries : List Script.Entry
  /-- The outcomes of the starts that are left; those beyond succeed. -/
  startErrors : List (Option Report) := []
  /-- The error of the first close. -/
  closeError : Option Report := none
  starts : Nat := 0
  pulls : Nat := 0
  closes : Nat := 0

namespace Script

def outcome : Option Report → Except Failure Unit
  | some report => .error (.error (.foreign report))
  | none => .ok ()

def start (s : Script) : Reply Script :=
  { result := outcome s.startErrors.head?.join
    state := { s with starts := s.starts + 1, startErrors := s.startErrors.tail } }

/-- Follow the next entry. A row that is refused ends the pull with that error. -/
def pull (s : Script) (output : Batch) : Pulled Script :=
  let counted := { s with pulls := s.pulls + 1, entries := s.entries.tail }
  match s.entries with
  | [] => { result := .ok .exhausted, state := counted, output }
  | entry :: _ =>
    match output.appendAll entry.rows with
    | (.error failure, output) => { result := .error failure, state := counted, output }
    | (.ok _, output) =>
      match entry.answer with
      | .ok progress => { result := .ok progress, state := counted, output }
      | .error report =>
        { result := .error (.error (.foreign report)), state := counted, output }

def close (s : Script) : Reply Script :=
  { result := outcome s.closeError
    state := { s with closes := s.closes + 1, closeError := none } }

instance : Operator Script where
  name _ := "Scripted"
  outputLayout s := s.layout
  start _ s := s.start
  pull _ := pull
  close _ s := s.close
  explain _ _ := { name := "Scripted" }

end Script

end GroupingSets
