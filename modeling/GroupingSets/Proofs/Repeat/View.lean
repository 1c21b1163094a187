import GroupingSets.Proofs.Repeat.Run

/-! Looking at a child in another way. Where the calls of one operator are those of another, so are the
calls of the repeats over them. -/
namespace GroupingSets

variable {τ σ : Type}

def Reply.map (f : τ → σ) (reply : Reply τ) : Reply σ := { reply with state := f reply.state }

def Pulled.map (f : τ → σ) (pulled : Pulled τ) : Pulled σ := { pulled with state := f pulled.state }

/-- Calls through `f` come to the same as calls before it. -/
structure Operator.View [Operator τ] [Operator σ] (f : τ → σ) : Prop where
  outputLayout : ∀ s, Operator.outputLayout (f s) = Operator.outputLayout s
  start : ∀ c s, Operator.start c (f s) = (Operator.start c s).map f
  pull : ∀ c s output, Operator.pull c (f s) output = (Operator.pull c s output).map f
  close : ∀ c s, Operator.close c (f s) = (Operator.close c s).map f

namespace Repeat

def view (f : τ → σ) (r : Repeat τ) : Repeat σ := { r with child := f r.child }

private theorem advanced_view (f : τ → σ) (r : Repeat τ) (input : Batch) (rows : Nat) :
    (r.view f).advanced input rows = (r.advanced input rows).view f := by
  unfold advanced
  dsimp only
  rw [apply_ite (view f)]
  rfl

private theorem emit_view (f : τ → σ) (r : Repeat τ) (output : Batch) :
    (r.view f).emit output = (r.emit output).map (view f) := by
  cases hi : r.input with
  | none =>
    rw [emit_none hi, emit_none (show (r.view f).input = none from hi)]
    rfl
  | some input =>
    rw [emit_eq hi, emit_eq (show (r.view f).input = some input from hi)]
    rw [show (r.view f).plan.writeCombination (r.view f).exprs input (r.view f).combination output =
      r.plan.writeCombination r.exprs input r.combination output from rfl]
    split
    · rfl
    · rfl
    · next b _ =>
      exact congrArg (fun state => (⟨.ok .hasMore, state, b, _⟩ : Pulled (Repeat σ)))
        (advanced_view f r input b.numRows)

variable [Operator τ] [Operator σ] {f : τ → σ}

theorem start_view (hf : Operator.View f) (c : Context) (r : Repeat τ) :
    (r.view f).start c = (r.start c).map (view f) := by
  unfold start
  rw [show (r.view f).phase = r.phase from rfl]
  cases r.phase with
  | opened => rfl
  | closed => rfl
  | created =>
    dsimp only
    rw [show Operator.outputLayout (r.view f).child = Operator.outputLayout r.child from hf.outputLayout _,
      show (r.view f).exprs = r.exprs from rfl,
      show Operator.start c (r.view f).child = (Operator.start c r.child).map f from hf.start c _]
    rcases Expr.bindAll (Operator.outputLayout r.child) r.exprs with ⟨e | u, exprs⟩
    · rfl
    · cases c.check <;> rfl

private theorem fetch_view (hf : Operator.View f) (c : Context) (r : Repeat τ) :
    (r.view f).fetch c = (r.fetch c).map f := by
  rw [fetch, fetch, ← hf.pull, handed, handed,
    show Operator.outputLayout (r.view f).child = Operator.outputLayout r.child from hf.outputLayout _]
  rfl

private theorem received_view (hf : Operator.View f) (c : Context) (r : Repeat τ) :
    (r.view f).received c = (r.received c).view f := by
  rw [received, received, fetch_view hf]
  rfl

private theorem loaded_view (hf : Operator.View f) (c : Context) (r : Repeat τ) (progress : Progress) :
    (r.view f).loaded c progress = (r.loaded c progress).view f := by
  rw [loaded, loaded, received_view hf]
  rfl

private theorem drained_view (hf : Operator.View f) (c : Context) (r : Repeat τ) :
    (r.view f).drained c = (r.drained c).view f := by
  rw [drained, drained, received_view hf]
  rfl

private theorem refill_view (hf : Operator.View f) (c : Context) (r : Repeat τ) :
    (r.view f).refill c = ((r.refill c).1, (r.refill c).2.1.view f, (r.refill c).2.2) := by
  rw [refill_eq, refill_eq, fetch_view hf, received_view hf, drained_view hf,
    show (r.view f).childExhausted = r.childExhausted from rfl]
  cases r.childExhausted with
  | true => rfl
  | false =>
    rw [if_neg Bool.false_ne_true, if_neg Bool.false_ne_true]
    rw [show ((r.fetch c).map f).result = (r.fetch c).result from rfl]
    cases (r.fetch c).result with
    | error failure => rfl
    | ok progress =>
      dsimp only
      rw [loaded_view hf, show ((r.fetch c).map f).output = (r.fetch c).output from rfl]
      split <;> rfl

theorem pull_view (hf : Operator.View f) (c : Context) (r : Repeat τ) (output : Batch) :
    (r.view f).pull c output = (r.pull c output).map (view f) := by
  unfold pull
  cases c.check with
  | error e => rfl
  | ok u =>
    dsimp only
    rw [show (r.view f).phase = r.phase from rfl]
    cases r.phase with
    | created => rfl
    | closed => rfl
    | opened =>
      dsimp only
      split
      · rfl
      · rw [show (r.view f).buffered = r.buffered from rfl]
        split
        · exact emit_view f r output
        · rw [refill_view hf]
          rcases r.refill c with ⟨failure | ready, s, events⟩
          · rfl
          · cases ready with
            | false => rfl
            | true =>
              dsimp only
              rw [emit_view]
              rfl

private theorem close_view (hf : Operator.View f) (c : Context) (r : Repeat τ) :
    (r.view f).close c = (r.close c).map (view f) := by
  unfold close
  rw [show (r.view f).phase = r.phase from rfl,
    show Operator.close c (r.view f).child = (Operator.close c r.child).map f from hf.close c _]
  cases r.phase <;> rfl

private theorem step_view (hf : Operator.View f) (r : Repeat τ) (call : Call) :
    (r.view f).step call = (r.step call).view f := by
  cases call with
  | start c => rw [step, start_view hf]; rfl
  | pull c output => rw [step, pull_view hf]; rfl
  | close c => rw [step, close_view hf]; rfl

theorem run_view (hf : Operator.View f) (r : Repeat τ) (calls : List Call) :
    (r.view f).run calls = (r.run calls).view f := by
  induction calls generalizing r with
  | nil => rfl
  | cons call rest ih =>
    rw [run, run, List.foldl_cons, List.foldl_cons, step_view hf]
    exact ih (r.step call)

private theorem emits_view (hf : Operator.View f) (r : Repeat τ) (call : Call) :
    (r.view f).emits call = r.emits call := by
  cases call with
  | start c => rfl
  | pull c output => rw [emits, pull_view hf]; rfl
  | close c => rfl

theorem emitted_view (hf : Operator.View f) (r : Repeat τ) (calls : List Call) :
    (r.view f).emitted calls = r.emitted calls := by
  induction calls generalizing r with
  | nil => rfl
  | cons call rest ih => rw [emitted, emitted, emits_view hf, step_view hf, ih]

end Repeat

theorem Watched.view_inner [Operator σ] : Operator.View (Watched.inner : Watched σ → σ) where
  outputLayout _ := rfl
  start _ _ := rfl
  pull _ _ _ := rfl
  close _ _ := rfl

/-- Watching the child changes nothing that is emitted. -/
theorem Repeat.emitted_unwatched [Operator σ] (r : Repeat (Watched σ)) (calls : List Call) :
    r.unwatched.emitted calls = r.emitted calls :=
  emitted_view Watched.view_inner r calls

end GroupingSets
