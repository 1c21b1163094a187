import GroupingSets.Proofs.Repeat.Protocol

/-! A repeat after its query was cancelled. Signals stay raised, so every later call finds the query cancelled,
whatever happens to the other signals in the meantime. -/
namespace GroupingSets

namespace Signals

def Has (s : Signals) (t : CancelToken) : Prop := t.signal < s.raised.length

/-- What the signals can become: more are made, and some are raised. -/
inductive Leads : Signals → Signals → Prop
  | refl (s : Signals) : Leads s s
  | newToken {s t : Signals} : Leads s t → Leads s t.newToken.2
  | cancel {s t : Signals} (token : CancelToken) : Leads s t → Leads s (t.cancel token)

variable {s t : Signals} {token : CancelToken}

private theorem has_newToken (s : Signals) : s.newToken.2.Has s.newToken.1 := by
  simp [Has, newToken]

private theorem isCancelled_iff : s.isCancelled token = true ↔ s.raised[token.signal]? = some true := by
  rw [isCancelled, List.getD_eq_getElem?_getD]
  cases s.raised[token.signal]? <;> simp

private theorem isCancelled_cancel (h : s.Has token) : (s.cancel token).isCancelled token = true := by
  rw [isCancelled_iff, cancel, List.getElem?_set_self h]

private theorem isCancelled_newToken (h : s.isCancelled token = true) : s.newToken.2.isCancelled token = true := by
  rw [isCancelled_iff] at h ⊢
  rw [newToken, List.getElem?_append_left (List.getElem?_eq_some_iff.mp h).1, h]

/-- Raising a signal lowers no other. -/
private theorem isCancelled_cancel_of (other : CancelToken) (h : s.isCancelled token = true) :
    (s.cancel other).isCancelled token = true := by
  by_cases he : other.signal = token.signal
  · rw [isCancelled_iff] at h ⊢
    rw [cancel, he, List.getElem?_set_self (List.getElem?_eq_some_iff.mp h).1]
  · rw [isCancelled_iff] at h ⊢
    rw [cancel, List.getElem?_set_ne he, h]

private theorem Leads.isCancelled (h : s.Leads t) (hc : s.isCancelled token = true) :
    t.isCancelled token = true := by
  induction h with
  | refl => exact hc
  | newToken _ ih => exact isCancelled_newToken ih
  | cancel other _ ih => exact isCancelled_cancel_of other ih

end Signals

def Context.Cancelled (signals : Signals) (token : CancelToken) (c : Context) : Prop :=
  c.token = token ∧ (signals.cancel token).Leads c.signals

private theorem Context.Cancelled.check {signals : Signals} {token : CancelToken} {c : Context}
    (hs : signals.Has token) (h : c.Cancelled signals token) : c.check = .error .cancelled := by
  obtain ⟨rfl, hl⟩ := h
  rw [Context.check, Signals.check, if_pos (hl.isCancelled (Signals.isCancelled_cancel hs))]

namespace Repeat
variable {σ : Type}

def Call.context : Call → Context
  | .start c => c
  | .pull c _ => c
  | .close c => c

section Refusing
variable [Operator σ] {c : Context} {e : Error}

/-- A start that the query refuses binds expressions at most. -/
private theorem start_of_check (h : c.check = .error e) (r : Repeat σ) :
    ∃ reason exprs, r.start c = { result := .error (.error reason), state := { r with exprs } } := by
  unfold start
  split
  · exact ⟨_, r.exprs, rfl⟩
  · exact ⟨_, r.exprs, rfl⟩
  · split
    · exact ⟨_, _, rfl⟩
    · exact ⟨e, _, by rw [h]⟩

/-- The query is asked before anything else. -/
private theorem pull_of_check (h : c.check = .error e) (r : Repeat σ) (output : Batch) :
    r.pull c output = { result := .error (.error e), state := r, output } := by
  rw [pull, h]

private theorem close_of_ne_closed {r : Repeat σ} (h : r.phase ≠ .closed) (c : Context) :
    (r.close c).result = (Operator.close c r.child).result ∧
      (r.close c).state.child = (Operator.close c r.child).state := by
  unfold close
  split
  · next hp => exact absurd hp h
  · exact ⟨rfl, rfl⟩

/-- A call that the query refuses closes the child, or leaves it alone. -/
private theorem trace_of_check {call : Call} (h : call.context.check = .error e) (r : Repeat (Traced σ)) :
    ∃ closes, (r.step call).child.trace = r.child.trace ++ closes ∧ ∀ x ∈ closes, x.isClose = true := by
  cases call with
  | start c =>
    obtain ⟨_, _, hs⟩ := start_of_check (c := c) h r
    exact ⟨[], by rw [step, hs, List.append_nil], fun _ hx => nomatch hx⟩
  | pull c output =>
    have hp := pull_of_check (c := c) h r output
    exact ⟨[], by rw [step, hp, List.append_nil], fun _ hx => nomatch hx⟩
  | close c =>
    rcases r.close_state c with ⟨_, hs⟩ | hs
    · exact ⟨[], by rw [step, hs, List.append_nil], fun _ hx => nomatch hx⟩
    · refine ⟨[.close (Operator.close c r.child.inner).result], by rw [step, hs]; rfl, fun x hx => ?_⟩
      rw [List.mem_singleton.mp hx]
      rfl

private theorem trace_run_of_check {calls : List Call} (h : ∀ call ∈ calls, call.context.check = .error e)
    (r : Repeat (Traced σ)) :
    ∃ closes, (r.run calls).child.trace = r.child.trace ++ closes ∧ ∀ x ∈ closes, x.isClose = true := by
  induction calls generalizing r with
  | nil => exact ⟨[], (List.append_nil _).symm, fun _ hx => nomatch hx⟩
  | cons call rest ih =>
    obtain ⟨first, hf, hfc⟩ := trace_of_check (h call List.mem_cons_self) r
    obtain ⟨more, hm, hmc⟩ := ih (fun c hc => h c (List.mem_cons_of_mem _ hc)) (r.step call)
    refine ⟨first ++ more, ?_, List.forall_mem_append.mpr ⟨hfc, hmc⟩⟩
    rw [run, List.foldl_cons, ← List.append_assoc, ← hf]
    exact hm

end Refusing

variable [Operator σ]

/-- Once its query was cancelled, a repeat does nothing but close, whatever state it was in and however it is
called from then on. Starts and pulls fail and do not reach the child, and a pull, whatever its output, leaves
the state and the output as they were. A close closes the child of a repeat that was not closed, so that over
all its calls the child is closed once if the repeat is. -/
theorem cancelled_only_closes {tables : LayoutTable} {d : Descriptor} {exprs : List Expr} {child : σ}
    {r : Repeat (Traced σ)} (h : (create tables d exprs ⟨child, []⟩).1 = .ok r) {signals : Signals}
    {token : CancelToken} (hs : signals.Has token) (before : List Call) {calls : List Call}
    (hcalls : ∀ call ∈ calls, call.context.Cancelled signals token) :
    let s := (r.run before).run calls
    (∀ c, c.Cancelled signals token →
      (∃ reason, (s.start c).result = .error (.error reason)) ∧ (s.start c).state.child = s.child ∧
        (∃ e : Error, e.kind = .cancelled ∧
          ∀ output, s.pull c output = { result := .error (.error e), state := s, output }) ∧
        (s.close c).state.phase = .closed ∧
        (s.phase ≠ .closed → (s.close c).result = (Operator.close c s.child).result ∧
          (s.close c).state.child = (Operator.close c s.child).state)) ∧
      (∃ closes, s.child.trace = (r.run before).child.trace ++ closes ∧ ∀ x ∈ closes, x.isClose = true) ∧
      ∀ c, .close c ∈ before ++ calls → s.child.trace.countP (·.isClose) = 1 := by
  intro s
  obtain ⟨p, _, rfl⟩ := create_ok_iff.mp h
  refine ⟨fun c hc => ?_, ?_, fun c hc => ?_⟩
  · have hcheck := hc.check hs
    obtain ⟨reason, exprs, hstart⟩ := start_of_check hcheck s
    refine ⟨⟨reason, by rw [hstart]⟩, by rw [hstart], ⟨.cancelled, rfl, pull_of_check hcheck s⟩, ?_,
      fun hp => close_of_ne_closed hp c⟩
    exact (step_phase_closed s (.close c)).mpr (Or.inr ⟨c, rfl⟩)
  · exact trace_run_of_check (fun call hc => (hcalls call hc).check hs) _
  · have hrun : s = Repeat.run _ (before ++ calls) := (run_append _ before calls).symm
    have ht := (tends_new p exprs child).run (before ++ calls)
    rw [hrun, ht.closed, if_pos ((run_phase_closed _ _).mpr (Or.inr ⟨c, hc⟩))]

/-- A repeat that is cancelled between the two combinations of its first batch. It is then pulled into an
output that has a row, started again, and closed twice. -/
theorem cancelled_between_combinations :
    let r := Sample.fresh (⟨Sample.child, []⟩ : Traced Script)
    let c := Sample.context
    let late : Context := { c with signals := (c.signals.cancel c.token).newToken.2 }
    let output := Batch.new Sample.layout 2 none
    let filled := (output.append [.null, .null, .int64 1]).2
    let before := [Call.start c, .pull c output]
    let s := (r.run before).run [.pull late filled, .start late]
    s.buffered = true ∧ filled.isEmpty = false ∧ (∃ reason, (s.start late).result = .error (.error reason)) ∧
      (∃ e : Error, e.kind = .cancelled ∧
        s.pull late filled = { result := .error (.error e), state := s, output := filled }) ∧
      (s.run [.close late, .close late]).child.trace.countP (·.isClose) = 1 := by
  intro r c late output filled before s
  have hr : (create ⟨[Sample.layout]⟩ Sample.descriptor Sample.exprs
      (⟨Sample.child, []⟩ : Traced Script)).1 = .ok r := Sample.create_eq _
  have hs : c.signals.Has c.token := Signals.has_newToken ∅
  have hlate : late.Cancelled c.signals c.token := ⟨rfl, .newToken (.refl _)⟩
  have hrefused : ∀ call ∈ [Call.pull late filled, .start late],
      call.context.Cancelled c.signals c.token :=
    List.forall_mem_cons.mpr ⟨hlate, List.forall_mem_singleton.mpr hlate⟩
  have hclosing : ∀ call ∈ [Call.pull late filled, .start late] ++ [.close late, .close late],
      call.context.Cancelled c.signals c.token :=
    List.forall_mem_append.mpr
      ⟨hrefused, List.forall_mem_cons.mpr ⟨hlate, List.forall_mem_singleton.mpr hlate⟩⟩
  obtain ⟨hnow, _, _⟩ := cancelled_only_closes hr hs before hrefused
  obtain ⟨_, _, hclosed⟩ := cancelled_only_closes hr hs before hclosing
  obtain ⟨hstart, _, ⟨e, he, hpull⟩, _⟩ := hnow late hlate
  rw [run_append] at hclosed
  exact ⟨by decide +kernel, by decide +kernel, hstart, ⟨e, he, hpull filled⟩, hclosed late (by simp)⟩

end Repeat

end GroupingSets
