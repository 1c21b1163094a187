import GroupingSets.Operator
import GroupingSets.Repeat.Combination

/-! The operator for grouping sets. It holds one batch of its child at a time and emits it once for
each combination, with the slots that the combination does not keep nulled out and with its
indicators. -/
namespace GroupingSets

inductive Repeat.Phase where
  | created
  | opened
  | closed
  deriving DecidableEq, Repr

structure Repeat (σ : Type) where
  plan : Repeat.Plan
  exprs : List Expr
  child : σ
  phase : Repeat.Phase := .created
  /-- The batch that the child writes to, kept from pull to pull. -/
  input : Option Batch := none
  /-- Whether the input has rows that are still to be emitted. -/
  buffered : Bool := false
  /-- The combination that is emitted next. -/
  combination : Nat := 0
  /-- Whether the child is not to be pulled again. -/
  childExhausted : Bool := false
  stats : RepeatStats := {}

namespace Repeat

variable {σ : Type}

def create (tables : LayoutTable) (d : Descriptor) (exprs : List Expr) (child : σ) :
    Except Failure (Repeat σ) × List Event :=
  match Plan.build d tables exprs with
  | (.error failure, events) => (.error failure, events)
  | (.ok plan, events) =>
    (.ok { plan, exprs, child },
      events ++ [.repeatCreated plan.numCombinations plan.numValueSlots plan.outputLayout.id])

/-- Emit the next combination of the buffered rows. A failure leaves the output empty and the
combination to be emitted again. -/
def emit (r : Repeat σ) (output : Batch) : Pulled (Repeat σ) :=
  match r.input with
  | none => { result := .error (.error .inputMissing), state := r, output }
  | some input =>
    match r.plan.writeCombination r.exprs input r.combination output with
    | (.error (.fault fault), output) => { result := .error (.fault fault), state := r, output }
    | (.error (.error e), output) =>
      { result := .error (.error e), state := r, output := output.reset }
    | (.ok _, output) =>
      let stats :=
        { r.stats with
          outputBatches := r.stats.outputBatches + 1
          rowsProduced := r.stats.rowsProduced + output.numRows }
      let state :=
        if r.combination + 1 = r.plan.numCombinations then
          { r with stats, combination := 0, buffered := false, input := some input.reset }
        else { r with stats, combination := r.combination + 1 }
      { result := .ok .hasMore
        state
        output
        events := [.combinationWritten r.combination output.numRows] }

variable [Operator σ]

def start (c : Context) (r : Repeat σ) : Reply (Repeat σ) :=
  match r.phase with
  | .opened => { result := .error (.error .alreadyOpened), state := r }
  | .closed => { result := .error (.error .openedAfterClose), state := r }
  | .created =>
    match Expr.bindAll (Operator.outputLayout r.child) r.exprs with
    | (.error e, exprs) => { result := .error (.error e), state := { r with exprs } }
    | (.ok _, exprs) =>
      match c.check with
      | .error e => { result := .error (.error e), state := { r with exprs } }
      | .ok _ =>
        let reply := Operator.start c r.child
        let phase := match reply.result with
          | .ok _ => .opened
          | .error _ => r.phase
        { result := reply.result
          state := { r with exprs, phase, child := reply.state }
          events := reply.events }

/-- Pull a batch from the child into the input. The result says whether there are rows to emit: an
empty batch is the end of the rows, even if the child has more. -/
def refill (c : Context) (r : Repeat σ) : Except Failure Bool × Repeat σ × List Event :=
  if r.childExhausted then (.ok false, r, [])
  else
    let input := (r.input.getD (c.newBatch (Operator.outputLayout r.child))).reset
    let pulled := Operator.pull c r.child input
    let r := { r with child := pulled.state, input := some pulled.output }
    match pulled.result with
    | .error failure => (.error failure, r, pulled.events)
    | .ok progress =>
      let rows := pulled.output.numRows
      let stats := { r.stats with childBatches := r.stats.childBatches + 1 }
      let events := pulled.events ++ [.batchPulled rows progress]
      if rows = 0 then
        (.ok false, { r with stats, childExhausted := true },
          if progress = .hasMore then events ++ [.emptyBatch] else events)
      else
        (.ok true,
          { r with
            stats
            childExhausted := decide (progress = .exhausted)
            buffered := true
            combination := 0 },
          events)

def pull (c : Context) (r : Repeat σ) (output : Batch) : Pulled (Repeat σ) :=
  match c.check with
  | .error e => { result := .error (.error e), state := r, output }
  | .ok _ =>
    match r.phase with
    | .created => { result := .error (.error .pulledBeforeOpen), state := r, output }
    | .closed => { result := .error (.error .pulledAfterClose), state := r, output }
    | .opened =>
      if !output.isEmpty then
        { result := .error (.error (.outputNotEmpty output.numRows)), state := r, output }
      else if r.buffered then r.emit output
      else
        match r.refill c with
        | (.error failure, r, events) => { result := .error failure, state := r, output, events }
        | (.ok false, r, events) => { result := .ok .exhausted, state := r, output, events }
        | (.ok true, r, events) =>
          let pulled := r.emit output
          { pulled with events := events ++ pulled.events }

def close (c : Context) (r : Repeat σ) : Reply (Repeat σ) :=
  match r.phase with
  | .closed => { result := .ok (), state := r }
  | _ =>
    let reply := Operator.close c r.child
    { result := reply.result
      state :=
        { r with
          phase := .closed
          input := none
          buffered := false
          exprs := r.exprs.map (·.unbind)
          child := reply.state }
      events := .repeatClosing r.stats :: reply.events }

omit [Operator σ] in
def explain (verbose : Bool) (r : Repeat σ) : Explain :=
  let d := r.plan.descriptor
  let numbers (ns : List Int64) : String := compactList (ns.map fun n => toString n.toInt)
  let ids (s : SlotSet) : String := compactList (s.toList.map toString)
  let entry :=
    (({ name := "Repeat" } : Explain).withValue "repeat_ids" (numbers d.repeatIds)).withValues
      "grouping_list" (d.groupingList.map numbers)
  if verbose then
    (((entry.withValue "grouping_slots" (ids d.groupingSlots)).withValues
      "keep_sets" (d.keepSets.map ids)).withValue
      "output_tuple" (toString d.outputTuple)).withValues
      "exprs" (r.exprs.map (·.text))
  else entry

instance : Operator (Repeat σ) where
  name _ := "Repeat"
  outputLayout r := r.plan.outputLayout
  start := start
  pull := pull
  close := close
  explain := explain

end Repeat

end GroupingSets
