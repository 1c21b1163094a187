import GroupingSets.Operator.Script
import GroupingSets.Operator.Values
import GroupingSets.Proofs.Batch.Operation
import GroupingSets.Repeat

/-! Runs of a repeat: any calls in any order, whether they succeed or fail. A child can be watched
without being changed. -/
namespace GroupingSets

def Pulled.emitted {σ : Type} (p : Pulled σ) : List Batch :=
  match p.result with
  | .ok .hasMore => [p.output]
  | _ => []

namespace Expr

private theorem unbind_bind {e bound : Expr} {input : Layout} (h : e.bind input = .ok bound) :
    bound.unbind = e.unbind := by
  unfold bind at h
  repeat' split at h
  all_goals cases h
  all_goals rfl

theorem map_unbind_unbind (exprs : List Expr) :
    (exprs.map (·.unbind)).map (·.unbind) = exprs.map (·.unbind) := by
  rw [List.map_map]
  refine List.map_congr_left fun e _ => ?_
  cases e <;> rfl

/-- Binding changes nothing but what is bound. -/
private theorem map_unbind_bindAll (input : Layout) (exprs : List Expr) :
    (bindAll input exprs).2.map (·.unbind) = exprs.map (·.unbind) := by
  induction exprs with
  | nil => rfl
  | cons e rest ih =>
    unfold bindAll
    split
    · rfl
    · next bound hb =>
      rw [List.map_cons, List.map_cons, unbind_bind hb]
      exact congrArg _ ih

end Expr

namespace Repeat
variable {σ : Type}

inductive Call where
  | start (c : Context)
  | pull (c : Context) (output : Batch)
  | close (c : Context)

theorem ne_closed_of_created {r : Repeat σ} (h : r.phase = .created) : r.phase ≠ .closed := by
  rw [h]
  exact Phase.noConfusion

theorem ne_closed_of_opened {r : Repeat σ} (h : r.phase = .opened) : r.phase ≠ .closed := by
  rw [h]
  exact Phase.noConfusion

section Running
variable [Operator σ]

def step (r : Repeat σ) : Call → Repeat σ
  | .start c => (r.start c).state
  | .pull c output => (r.pull c output).state
  | .close c => (r.close c).state

def run (r : Repeat σ) (calls : List Call) : Repeat σ := calls.foldl step r

def emits (r : Repeat σ) : Call → List Batch
  | .start _ => []
  | .pull c output => (r.pull c output).emitted
  | .close _ => []

def emitted (r : Repeat σ) : List Call → List Batch
  | [] => []
  | call :: rest => r.emits call ++ (r.step call).emitted rest

theorem run_append (r : Repeat σ) (first second : List Call) :
    r.run (first ++ second) = (r.run first).run second := List.foldl_append

/-- What holds of a state and what it has emitted, and is kept by every call, holds after a run. -/
theorem run_induction (Inv : Repeat σ → List Batch → Prop) (allowed : Call → Prop)
    (hstep : ∀ r outs call, allowed call → Inv r outs → Inv (r.step call) (outs ++ r.emits call))
    {r : Repeat σ} {outs : List Batch} (h : Inv r outs) {calls : List Call}
    (ha : ∀ call ∈ calls, allowed call) : Inv (r.run calls) (outs ++ r.emitted calls) := by
  induction calls generalizing r outs with
  | nil => rwa [emitted, List.append_nil]
  | cons call rest ih =>
    rw [emitted, ← List.append_assoc]
    exact ih (hstep r outs call (ha call List.mem_cons_self) h) fun c hc => ha c (List.mem_cons_of_mem _ hc)

/-! What a call can come to. -/

omit [Operator σ] in
theorem create_ok_iff {tables : LayoutTable} {d : Descriptor} {exprs : List Expr} {child : σ}
    {r : Repeat σ} :
    (create tables d exprs child).1 = .ok r ↔
      ∃ p, (Plan.build d tables exprs).1 = .ok p ∧ r = { plan := p, exprs, child } := by
  unfold create
  constructor
  · intro h
    split at h
    · cases h
    · next p events hb =>
      cases h
      exact ⟨p, by rw [hb], rfl⟩
  · rintro ⟨p, hb, rfl⟩
    split
    · next he =>
      rw [he] at hb
      cases hb
    · next he =>
      rw [he] at hb
      cases hb
      rfl

/-- What a start can come to: it is refused, the child does not start, or the repeat is open. The child is
started only by a repeat that was created and not opened yet. -/
inductive Started (r : Repeat σ) (c : Context) : Reply (Repeat σ) → Prop
  | refused (e : Error) (exprs : List Expr) : exprs.map (·.unbind) = r.exprs.map (·.unbind) →
    Started r c { result := .error (.error e), state := { r with exprs } }
  | failed (failure : Failure) (exprs : List Expr) (events : List Event) :
    exprs.map (·.unbind) = r.exprs.map (·.unbind) → r.phase = .created →
    (Operator.start c r.child).result = .error failure →
    Started r c
      { result := .error failure
        state := { r with exprs, child := (Operator.start c r.child).state }
        events }
  | opened (exprs : List Expr) (events : List Event) :
    exprs.map (·.unbind) = r.exprs.map (·.unbind) → r.phase = .created →
    (Operator.start c r.child).result = .ok () →
    Started r c
      { result := .ok ()
        state := { r with exprs, phase := .opened, child := (Operator.start c r.child).state }
        events }

/-- Every start is one of the above. -/
theorem started (r : Repeat σ) (c : Context) : Started r c (r.start c) := by
  have hb := Expr.map_unbind_bindAll (Operator.outputLayout r.child) r.exprs
  unfold start
  split
  · exact .refused _ r.exprs rfl
  · exact .refused _ r.exprs rfl
  · next hp =>
    split
    · next exprs he =>
      rw [he] at hb
      exact .refused _ exprs hb
    · next exprs he =>
      rw [he] at hb
      split
      · exact .refused _ exprs hb
      · cases hr : (Operator.start c r.child).result with
        | error failure =>
          dsimp only
          rw [hr]
          exact .failed failure exprs _ hb hp hr
        | ok u =>
          dsimp only
          rw [hr]
          exact .opened exprs _ hb hp hr

/-- A start binds expressions, opens what was only created, and starts the child at most. -/
theorem start_state (r : Repeat σ) (c : Context) :
    ∃ exprs phase, exprs.map (·.unbind) = r.exprs.map (·.unbind) ∧
      (phase = r.phase ∨ r.phase = .created ∧ phase = .opened) ∧
      ((r.start c).state = { r with exprs, phase } ∨
        (r.start c).state = { r with exprs, phase, child := (Operator.start c r.child).state }) := by
  have hst := r.started c
  generalize r.start c = reply at hst
  cases hst with
  | refused e exprs hu => exact ⟨exprs, r.phase, hu, Or.inl rfl, Or.inl rfl⟩
  | failed failure exprs events hu _ _ => exact ⟨exprs, r.phase, hu, Or.inl rfl, Or.inr rfl⟩
  | opened exprs events hu hp _ => exact ⟨exprs, .opened, hu, Or.inr ⟨hp, rfl⟩, Or.inr rfl⟩

/-- A close leaves a closed repeat, and gives up what another one holds. -/
theorem close_state (r : Repeat σ) (c : Context) :
    (r.phase = .closed ∧ (r.close c).state = r) ∨
      (r.close c).state =
        { r with
          phase := .closed
          input := none
          buffered := false
          exprs := r.exprs.map (·.unbind)
          child := (Operator.close c r.child).state } := by
  unfold close
  split
  · next hp => exact Or.inl ⟨hp, rfl⟩
  · exact Or.inr rfl

def Passes (r : Repeat σ) (c : Context) (output : Batch) : Prop :=
  c.check = .ok () ∧ r.phase = .opened ∧ output.isEmpty = true

def handed (r : Repeat σ) (c : Context) : Batch :=
  (r.input.getD (c.newBatch (Operator.outputLayout r.child))).reset

def fetch (r : Repeat σ) (c : Context) : Pulled σ := Operator.pull c r.child (r.handed c)

def received (r : Repeat σ) (c : Context) : Repeat σ :=
  { r with child := (r.fetch c).state, input := some (r.fetch c).output }

def loaded (r : Repeat σ) (c : Context) (progress : Progress) : Repeat σ :=
  { r.received c with
    stats := { r.stats with childBatches := r.stats.childBatches + 1 }
    childExhausted := decide (progress = .exhausted)
    buffered := true
    combination := 0 }

def drained (r : Repeat σ) (c : Context) : Repeat σ :=
  { r.received c with
    stats := { r.stats with childBatches := r.stats.childBatches + 1 }
    childExhausted := true }

theorem refill_eq (r : Repeat σ) (c : Context) :
    r.refill c =
      if r.childExhausted then (.ok false, r, [])
      else
        match (r.fetch c).result with
        | .error failure => (.error failure, r.received c, (r.fetch c).events)
        | .ok progress =>
          let events := (r.fetch c).events ++ [.batchPulled (r.fetch c).output.numRows progress]
          if (r.fetch c).output.numRows = 0 then
            (.ok false, r.drained c, if progress = .hasMore then events ++ [.emptyBatch] else events)
          else (.ok true, r.loaded c progress, events) := rfl

/-- What a pull can come to: it is refused, it emits what is buffered, there is nothing more, the child
fails, the child has nothing more, or it emits what the child delivers. -/
inductive Polled (r : Repeat σ) (c : Context) (output : Batch) : Pulled (Repeat σ) → Prop
  | refused (e : Error) : ¬ r.Passes c output →
    Polled r c output { result := .error (.error e), state := r, output }
  | again : r.Passes c output → r.buffered = true → Polled r c output (r.emit output)
  | finished : r.Passes c output → r.buffered = false → r.childExhausted = true →
    Polled r c output { result := .ok .exhausted, state := r, output }
  | failed (failure : Failure) (events : List Event) : r.Passes c output → r.buffered = false →
    r.childExhausted = false → (r.fetch c).result = .error failure →
    Polled r c output { result := .error failure, state := r.received c, output, events }
  | drained (progress : Progress) (events : List Event) : r.Passes c output → r.buffered = false →
    r.childExhausted = false → (r.fetch c).result = .ok progress → (r.fetch c).output.numRows = 0 →
    Polled r c output { result := .ok .exhausted, state := r.drained c, output, events }
  | loaded (progress : Progress) (events : List Event) : r.Passes c output → r.buffered = false →
    r.childExhausted = false → (r.fetch c).result = .ok progress → (r.fetch c).output.numRows ≠ 0 →
    Polled r c output
      { (r.loaded c progress).emit output with
        events := events ++ ((r.loaded c progress).emit output).events }

/-- Every pull is one of the above. -/
theorem polled (r : Repeat σ) (c : Context) (output : Batch) : Polled r c output (r.pull c output) := by
  unfold pull
  split
  · next e hc =>
    refine .refused e fun hp => ?_
    rw [hp.1] at hc
    cases hc
  · next u hc =>
    split
    · next ho => exact .refused _ fun hp => by rw [hp.2.1] at ho; cases ho
    · next ho => exact .refused _ fun hp => by rw [hp.2.1] at ho; cases ho
    · next ho =>
      split
      · next hn =>
        refine .refused _ fun hp => ?_
        rw [hp.2.2] at hn
        cases hn
      · next hn =>
        have hp : r.Passes c output := ⟨hc, ho, by simpa using hn⟩
        split
        · next hb => exact .again hp hb
        · next hb =>
          replace hb : r.buffered = false := by simpa using hb
          rw [refill_eq]
          cases hx : r.childExhausted with
          | true => exact .finished hp hb hx
          | false =>
            cases hf : (r.fetch c).result with
            | error failure => exact .failed failure _ hp hb hx hf
            | ok progress =>
              dsimp only
              by_cases hz : (r.fetch c).output.numRows = 0
              · rw [if_pos hz]
                exact .drained progress _ hp hb hx hf hz
              · rw [if_neg hz]
                exact .loaded progress _ hp hb hx hf hz

/-- A pull that succeeds has passed its checks. -/
theorem passes_of_ok {r : Repeat σ} {c : Context} {output : Batch} {progress : Progress}
    (h : (r.pull c output).result = .ok progress) : r.Passes c output := by
  have hpoll := polled r c output
  generalize r.pull c output = pulled at hpoll h
  cases hpoll with
  | refused e _ => cases h
  | again hp _ => exact hp
  | finished hp _ _ => exact hp
  | failed failure events hp _ _ _ => exact hp
  | drained progress events hp _ _ _ _ => exact hp
  | loaded progress events hp _ _ _ _ => exact hp

theorem pull_refused {r : Repeat σ} {c : Context} {output : Batch} (h : ¬ r.Passes c output) :
    (r.pull c output).state = r := by
  have hpoll := polled r c output
  generalize r.pull c output = pulled at hpoll
  cases hpoll with
  | refused e _ => rfl
  | again hp _ => exact absurd hp h
  | finished hp _ _ => exact absurd hp h
  | failed failure events hp _ _ _ => exact absurd hp h
  | drained progress events hp _ _ _ _ => exact absurd hp h
  | loaded progress events hp _ _ _ _ => exact absurd hp h

/-- A closed repeat stays as it is. -/
theorem run_closed {r : Repeat σ} (h : r.phase = .closed) (calls : List Call) : r.run calls = r := by
  induction calls with
  | nil => rfl
  | cons call rest ih =>
    have hs : r.step call = r := by
      cases call with
      | start c =>
        rw [step, Repeat.start, h]
      | pull c output =>
        refine pull_refused fun hp => ?_
        rw [hp.2.1] at h
        cases h
      | close c =>
        rw [step, Repeat.close, h]
    rw [run, List.foldl_cons, hs]
    exact ih

end Running

def advanced (r : Repeat σ) (input : Batch) (rows : Nat) : Repeat σ :=
  let stats :=
    { r.stats with
      outputBatches := r.stats.outputBatches + 1
      rowsProduced := r.stats.rowsProduced + rows }
  if r.combination + 1 = r.plan.numCombinations then
    { r with stats, combination := 0, buffered := false, input := some input.reset }
  else { r with stats, combination := r.combination + 1 }

@[simp] theorem advanced_plan (r : Repeat σ) (input : Batch) (rows : Nat) :
    (r.advanced input rows).plan = r.plan := by
  unfold advanced
  split <;> rfl

@[simp] theorem advanced_exprs (r : Repeat σ) (input : Batch) (rows : Nat) :
    (r.advanced input rows).exprs = r.exprs := by
  unfold advanced
  split <;> rfl

@[simp] theorem advanced_child (r : Repeat σ) (input : Batch) (rows : Nat) :
    (r.advanced input rows).child = r.child := by
  unfold advanced
  split <;> rfl

@[simp] theorem advanced_phase (r : Repeat σ) (input : Batch) (rows : Nat) :
    (r.advanced input rows).phase = r.phase := by
  unfold advanced
  split <;> rfl

@[simp] theorem advanced_childExhausted (r : Repeat σ) (input : Batch) (rows : Nat) :
    (r.advanced input rows).childExhausted = r.childExhausted := by
  unfold advanced
  split <;> rfl

inductive Emission (r : Repeat σ) (input output : Batch) : Pulled (Repeat σ) → Prop
  | faulted (fault : Fault) (b : Batch) :
    r.plan.writeCombination r.exprs input r.combination output = (.error (.fault fault), b) →
    Emission r input output { result := .error (.fault fault), state := r, output := b }
  | failed (e : Error) (b : Batch) :
    r.plan.writeCombination r.exprs input r.combination output = (.error (.error e), b) →
    Emission r input output { result := .error (.error e), state := r, output := b.reset }
  | written (b : Batch) (events : List Event) :
    r.plan.writeCombination r.exprs input r.combination output = (.ok (), b) →
    Emission r input output
      { result := .ok .hasMore, state := r.advanced input b.numRows, output := b, events }

theorem emit_none {r : Repeat σ} (h : r.input = none) (output : Batch) :
    r.emit output = { result := .error (.error .inputMissing), state := r, output } := by
  rw [emit, h]

theorem emit_eq {r : Repeat σ} {input : Batch} (h : r.input = some input) (output : Batch) :
    r.emit output =
      match r.plan.writeCombination r.exprs input r.combination output with
      | (.error (.fault fault), b) => { result := .error (.fault fault), state := r, output := b }
      | (.error (.error e), b) => { result := .error (.error e), state := r, output := b.reset }
      | (.ok _, b) =>
        { result := .ok .hasMore
          state := r.advanced input b.numRows
          output := b
          events := [.combinationWritten r.combination b.numRows] } := by
  obtain ⟨plan, exprs, child, phase, _, buffered, combination, childExhausted, stats⟩ := r
  cases h
  rfl

theorem emission {r : Repeat σ} {input : Batch} (h : r.input = some input) (output : Batch) :
    Emission r input output (r.emit output) := by
  rw [emit_eq h]
  split
  · next hw => exact .faulted _ _ hw
  · next hw => exact .failed _ _ hw
  · next b hw => exact .written b _ hw

/-- An emission that succeeds has written the combination that is due. -/
theorem emit_hasMore {r : Repeat σ} {input output : Batch} (h : r.input = some input)
    (hm : (r.emit output).result = .ok .hasMore) :
    r.plan.writeCombination r.exprs input r.combination output = (.ok (), (r.emit output).output) := by
  have hem := emission h output
  generalize r.emit output = pulled at hem hm ⊢
  cases hem with
  | faulted fault b _ => cases hm
  | failed e b _ => cases hm
  | written b events hw => exact hw

private theorem emit_keeps (r : Repeat σ) (output : Batch) :
    (r.emit output).state.plan = r.plan ∧ (r.emit output).state.exprs = r.exprs := by
  cases hi : r.input with
  | none =>
    rw [emit_none hi]
    exact ⟨rfl, rfl⟩
  | some input =>
    have hem := emission hi output
    generalize r.emit output = pulled at hem
    cases hem with
    | faulted fault b _ => exact ⟨rfl, rfl⟩
    | failed e b _ => exact ⟨rfl, rfl⟩
    | written b events _ => simp

/-- Emitting does nothing to the child. -/
theorem emit_leaves (r : Repeat σ) (output : Batch) :
    (r.emit output).state.child = r.child ∧ (r.emit output).state.phase = r.phase ∧
      (r.emit output).state.childExhausted = r.childExhausted := by
  cases hi : r.input with
  | none =>
    rw [emit_none hi]
    exact ⟨rfl, rfl, rfl⟩
  | some input =>
    have hem := emission hi output
    generalize r.emit output = pulled at hem
    cases hem with
    | faulted fault b _ => exact ⟨rfl, rfl, rfl⟩
    | failed e b _ => exact ⟨rfl, rfl, rfl⟩
    | written b events _ => simp

/-- Emitting keeps the input, or resets it after the last combination. -/
theorem emit_input {r : Repeat σ} {output b : Batch} (h : (r.emit output).state.input = some b) :
    r.input = some b ∨ ∃ input, r.input = some input ∧ b = input.reset := by
  cases hi : r.input with
  | none =>
    rw [emit_none hi] at h
    exact Or.inl (hi.symm.trans h)
  | some input =>
    have hem := emission hi output
    generalize r.emit output = pulled at hem h
    cases hem with
    | faulted fault b _ => exact Or.inl (hi.symm.trans h)
    | failed e b _ => exact Or.inl (hi.symm.trans h)
    | written b events _ =>
      dsimp only at h
      unfold advanced at h
      dsimp only at h
      split at h
      · cases h
        exact Or.inr ⟨input, rfl, rfl⟩
      · exact Or.inl (hi.symm.trans h)

/-- A call leaves the plan, and the expressions but for what is bound. -/
theorem step_keeps [Operator σ] (r : Repeat σ) (call : Call) :
    (r.step call).plan = r.plan ∧ (r.step call).exprs.map (·.unbind) = r.exprs.map (·.unbind) := by
  cases call with
  | start c =>
    obtain ⟨exprs, phase, hu, _, hs | hs⟩ := r.start_state c
    · rw [step, hs]
      exact ⟨rfl, hu⟩
    · rw [step, hs]
      exact ⟨rfl, hu⟩
  | pull c output =>
    have hpoll := polled r c output
    rw [step]
    generalize r.pull c output = pulled at hpoll
    cases hpoll with
    | refused e _ => exact ⟨rfl, rfl⟩
    | again _ _ =>
      obtain ⟨hp, he⟩ := r.emit_keeps output
      exact ⟨hp, by rw [he]⟩
    | finished _ _ _ => exact ⟨rfl, rfl⟩
    | failed failure events _ _ _ _ => exact ⟨rfl, rfl⟩
    | drained progress events _ _ _ _ _ => exact ⟨rfl, rfl⟩
    | loaded progress events _ _ _ _ _ =>
      obtain ⟨hp, he⟩ := (r.loaded c progress).emit_keeps output
      exact ⟨hp, by rw [he]; rfl⟩
  | close c =>
    rcases r.close_state c with ⟨_, hs⟩ | hs
    · rw [step, hs]
      exact ⟨rfl, rfl⟩
    · rw [step, hs]
      exact ⟨rfl, Expr.map_unbind_unbind r.exprs⟩

theorem run_keeps [Operator σ] (r : Repeat σ) (calls : List Call) :
    (r.run calls).plan = r.plan ∧ (r.run calls).exprs.map (·.unbind) = r.exprs.map (·.unbind) := by
  induction calls generalizing r with
  | nil => exact ⟨rfl, rfl⟩
  | cons call rest ih =>
    obtain ⟨hp, he⟩ := r.step_keeps call
    obtain ⟨hp', he'⟩ := ih (r.step call)
    exact ⟨hp'.trans hp, he'.trans he⟩

/-- Only a close closes a repeat, and a closed repeat stays closed. -/
theorem step_phase_closed [Operator σ] (r : Repeat σ) (call : Call) :
    (r.step call).phase = .closed ↔ r.phase = .closed ∨ ∃ c, call = .close c := by
  cases call with
  | start c =>
    have hs := r.started c
    rw [step, or_iff_left (by rintro ⟨_, hc⟩; cases hc)]
    generalize r.start c = reply at hs
    cases hs with
    | refused e exprs _ => exact Iff.rfl
    | failed failure exprs events _ _ _ => exact Iff.rfl
    | opened exprs events _ hp _ =>
      rw [hp]
      exact ⟨Phase.noConfusion, Phase.noConfusion⟩
  | pull c output =>
    have hpoll := polled r c output
    rw [step, or_iff_left (by rintro ⟨_, hc⟩; cases hc)]
    generalize r.pull c output = pulled at hpoll
    cases hpoll with
    | refused e _ => exact Iff.rfl
    | again _ _ => rw [(r.emit_leaves output).2.1]
    | finished _ _ _ => exact Iff.rfl
    | failed failure events _ _ _ _ => exact Iff.rfl
    | drained progress events _ _ _ _ _ => exact Iff.rfl
    | loaded progress events _ _ _ _ _ =>
      dsimp only
      rw [((r.loaded c progress).emit_leaves output).2.1]
      exact Iff.rfl
  | close c =>
    refine iff_of_true ?_ (Or.inr ⟨c, rfl⟩)
    rcases r.close_state c with ⟨hp, hs⟩ | hs
    · rw [step, hs, hp]
    · rw [step, hs]

theorem run_phase_closed [Operator σ] (r : Repeat σ) (calls : List Call) :
    (r.run calls).phase = .closed ↔ r.phase = .closed ∨ ∃ c, .close c ∈ calls := by
  induction calls generalizing r with
  | nil => simp [run]
  | cons call rest ih =>
    rw [run, List.foldl_cons]
    refine (ih (r.step call)).trans ?_
    rw [step_phase_closed]
    simp only [List.mem_cons, exists_or, or_assoc, eq_comm]

theorem emit_ne_exhausted (r : Repeat σ) (output : Batch) : (r.emit output).result ≠ .ok .exhausted := by
  intro he
  cases hi : r.input with
  | none =>
    rw [emit_none hi] at he
    cases he
  | some input =>
    have hem := emission hi output
    generalize r.emit output = pulled at hem he
    cases hem <;> cases he

/-- A pull that says that there is nothing more leaves nothing buffered and the child done, and does not
touch its output. -/
theorem pull_exhausted [Operator σ] {r : Repeat σ} {c : Context} {output : Batch}
    (h : (r.pull c output).result = .ok .exhausted) :
    (r.pull c output).state.buffered = false ∧ (r.pull c output).state.phase = .opened ∧
      (r.pull c output).emitted = [] ∧ (r.pull c output).state.childExhausted = true ∧
      (r.pull c output).output = output := by
  have hpoll := polled r c output
  generalize r.pull c output = pulled at hpoll h
  cases hpoll with
  | refused e _ => cases h
  | again _ _ => exact absurd h (emit_ne_exhausted r output)
  | finished hp hb hx => exact ⟨hb, hp.2.1, rfl, hx, rfl⟩
  | failed failure events _ _ _ _ => cases h
  | drained progress events hp hb _ _ _ => exact ⟨hb, hp.2.1, rfl, rfl, rfl⟩
  | loaded progress events _ _ _ _ _ => exact absurd h (emit_ne_exhausted _ output)

end Repeat

/-! Watching a child. -/

/-- An operator with a record of what its pulls came to. -/
structure Watched (σ : Type) where
  inner : σ
  pulls : List (Except Failure Progress × Batch) := []

namespace Watched
variable {σ : Type} [Operator σ]

instance : Operator (Watched σ) where
  name w := Operator.name w.inner
  outputLayout w := Operator.outputLayout w.inner
  start c w :=
    let reply := Operator.start c w.inner
    { reply with state := { w with inner := reply.state } }
  pull c w output :=
    let pulled := Operator.pull c w.inner output
    { pulled with state := ⟨pulled.state, w.pulls ++ [(pulled.result, pulled.output)]⟩ }
  close c w :=
    let reply := Operator.close c w.inner
    { reply with state := { w with inner := reply.state } }
  explain verbose w := Operator.explain verbose w.inner

omit [Operator σ] in
def delivered (w : Watched σ) : List Batch :=
  w.pulls.filterMap fun
    | (.ok _, b) => if b.numRows = 0 then none else some b
    | (.error _, _) => none

end Watched

namespace Repeat

def unwatched {σ : Type} (r : Repeat (Watched σ)) : Repeat σ := { r with child := r.child.inner }

section Fetching
variable {σ : Type} [Operator σ] {r : Repeat (Watched σ)} {c : Context}

/-- Rows that the child delivers without an error are the last that it has delivered. -/
theorem delivered_fetch {progress : Progress} (hf : (r.fetch c).result = .ok progress)
    (hz : (r.fetch c).output.numRows ≠ 0) :
    (r.fetch c).state.delivered = r.child.delivered ++ [(r.fetch c).output] := by
  have hp : (r.fetch c).state.pulls = r.child.pulls ++ [((r.fetch c).result, (r.fetch c).output)] := rfl
  rw [Watched.delivered, hp, List.filterMap_append, hf]
  simp [Watched.delivered, hz]

/-- Any other pull of the child delivers nothing. -/
theorem delivered_fetch_none
    (h : ∀ progress, (r.fetch c).result = .ok progress → (r.fetch c).output.numRows = 0) :
    (r.fetch c).state.delivered = r.child.delivered := by
  have hp : (r.fetch c).state.pulls = r.child.pulls ++ [((r.fetch c).result, (r.fetch c).output)] := rfl
  rw [Watched.delivered, hp, List.filterMap_append]
  cases hf : (r.fetch c).result with
  | error failure => simp [Watched.delivered]
  | ok progress => simp [Watched.delivered, h progress hf]

end Fetching

end Repeat

/-! Operators that fill the batches they are given. -/

/-- Pulls change the batch they are given by operations on it only. -/
def Fills (σ : Type) [Operator σ] : Prop :=
  ∀ (c : Context) (s : σ) (b : Batch), ∃ ops, (Operator.pull c s b).output = b.after ops

theorem fills_watched {σ : Type} [Operator σ] (h : Fills σ) : Fills (Watched σ) := fun c w b =>
  h c w.inner b

private theorem exists_ops_appendAll (rows : List (List Scalar)) (b : Batch) :
    ∃ ops, (b.appendAll rows).2 = b.after ops := by
  induction rows generalizing b with
  | nil => exact ⟨[], rfl⟩
  | cons values rest ih =>
    unfold Batch.appendAll
    split
    · next c hc =>
      refine ⟨[.append values], ?_⟩
      rw [Batch.after, List.foldl_cons, List.foldl_nil, Batch.apply, hc]
    · next c hc =>
      obtain ⟨ops, ho⟩ := ih c
      refine ⟨.append values :: ops, ?_⟩
      rw [ho, Batch.after, Batch.after, List.foldl_cons, Batch.apply, hc]

theorem fills_script : Fills Script := by
  intro c s b
  show ∃ ops, (s.pull b).output = b.after ops
  unfold Script.pull
  dsimp only
  split
  · exact ⟨[], rfl⟩
  · next entry rest _ =>
    obtain ⟨ops, ho⟩ := exists_ops_appendAll entry.rows b
    split
    · next hr =>
      rw [hr] at ho
      exact ⟨ops, ho⟩
    · next hr =>
      rw [hr] at ho
      split <;> exact ⟨ops, ho⟩

theorem fills_values : Fills Values := by
  intro c v b
  show ∃ ops, (v.pull c b).output = b.after ops
  unfold Values.pull
  split
  · exact ⟨[], rfl⟩
  · obtain ⟨ops, ho⟩ := exists_ops_appendAll ((v.rows.drop v.offset).take b.capacity) b
    dsimp only
    split
    · next hr =>
      rw [hr] at ho
      exact ⟨ops, ho⟩
    · next hr =>
      rw [hr] at ho
      exact ⟨ops, ho⟩

/-! A small repeat: two columns and one indicator, with the second column hidden by both combinations. -/

namespace Repeat

namespace Sample

def layout : Layout := ⟨⟨1⟩, [⟨⟨10⟩, .int32, true⟩, ⟨⟨11⟩, .utf8, true⟩, ⟨⟨12⟩, .int64, false⟩]⟩

def descriptor : Descriptor := ⟨.ofList [⟨10⟩, ⟨11⟩], [.ofList [⟨10⟩], ∅], [0, 1], [[5, 6]], ⟨1⟩⟩

def exprs : List Expr := [.ofColumn 0 .int32, .ofColumn 1 .utf8]

def plan : Plan := ⟨descriptor, layout, 2, [⟨2, #[2]⟩, ⟨2, #[3]⟩]⟩

theorem build_eq : (Plan.build descriptor ⟨[layout]⟩ exprs).1 = .ok plan :=
  ok_of_toOption (by decide +kernel)

def fresh {σ : Type} (child : σ) : Repeat σ := { plan, exprs, child }

theorem create_eq {σ : Type} (child : σ) : (create ⟨[layout]⟩ descriptor exprs child).1 = .ok (fresh child) :=
  create_ok_iff.mpr ⟨plan, build_eq, rfl⟩

def child : Script where
  layout := ⟨⟨0⟩, [⟨⟨1⟩, .int32, true⟩, ⟨⟨2⟩, .utf8, true⟩]⟩
  entries := [⟨[[.int32 7, .utf8 "a"], [.null, .utf8 "b"]], .ok .hasMore⟩]

def context : Context := .new { batchSize := 2 } ⟨[layout]⟩

end Sample

end Repeat

end GroupingSets
