import GroupingSets.Proofs.Repeat.Counters
import GroupingSets.Proofs.Repeat.View

/-! What a repeat asks of its child. However the repeat is called, and whatever its calls and those of the
child come to, the child is called as an operator may be called. -/
namespace GroupingSets

inductive Received where
  | start (result : Except Failure Unit)
  | pull (input : Batch) (result : Except Failure Progress) (output : Batch)
  | close (result : Except Failure Unit)

namespace Received

def isClose : Received → Bool
  | .close _ => true
  | _ => false

/-- Whether the caller was told that no rows follow: by the answer, or by a batch without rows. -/
def isEnd : Received → Bool
  | .pull _ (.ok progress) output => decide (progress = .exhausted) || output.isEmpty
  | _ => false

/-- Whether an operator may be called after the calls it has received. Once it was closed it is not called
any more. It is started again only until it has started, and then pulled with empty batches until it has no
more rows. -/
def MayFollow (before : List Received) (x : Received) : Prop :=
  (∀ y ∈ before, y.isClose = false) ∧
    match x with
    | .start _ => .start (.ok ()) ∉ before
    | .pull input _ _ => .start (.ok ()) ∈ before ∧ input.isEmpty = true ∧ ∀ y ∈ before, y.isEnd = false
    | .close _ => True

def pulled? : Received → Option (Except Failure Progress × Batch)
  | .pull _ result output => some (result, output)
  | _ => none

end Received

inductive Orderly : List Received → Prop
  | nil : Orderly []
  | concat {before : List Received} {x : Received} : Orderly before → x.MayFollow before →
    Orderly (before ++ [x])

structure Traced (σ : Type) where
  inner : σ
  trace : List Received := []

namespace Traced
variable {σ : Type}

instance [Operator σ] : Operator (Traced σ) where
  name t := Operator.name t.inner
  outputLayout t := Operator.outputLayout t.inner
  start c t :=
    let reply := Operator.start c t.inner
    { reply with state := ⟨reply.state, t.trace ++ [.start reply.result]⟩ }
  pull c t input :=
    let pulled := Operator.pull c t.inner input
    { pulled with state := ⟨pulled.state, t.trace ++ [.pull input pulled.result pulled.output]⟩ }
  close c t :=
    let reply := Operator.close c t.inner
    { reply with state := ⟨reply.state, t.trace ++ [.close reply.result]⟩ }
  explain verbose t := Operator.explain verbose t.inner

def watched (t : Traced σ) : Watched σ := ⟨t.inner, t.trace.filterMap Received.pulled?⟩

theorem view_watched [Operator σ] : Operator.View (watched : Traced σ → Watched σ) where
  outputLayout _ := rfl
  start c t := by simp [Operator.start, Reply.map, watched, Received.pulled?]
  pull c t input := by simp [Operator.pull, Pulled.map, watched, Received.pulled?]
  close c t := by simp [Operator.close, Reply.map, watched, Received.pulled?]

end Traced

namespace Repeat
variable {σ : Type}

inductive Asks (r s : Repeat (Traced σ)) : Prop
  | nothing : s.child.trace = r.child.trace → s.phase = r.phase →
    s.childExhausted = r.childExhausted → Asks r s
  | start (result : Except Failure Unit) : r.phase = .created →
    s.child.trace = r.child.trace ++ [.start result] →
    s.phase = (if result.isOk then .opened else .created) →
    s.childExhausted = r.childExhausted → Asks r s
  | pull (input : Batch) (result : Except Failure Progress) (output : Batch) :
    r.phase = .opened → r.buffered = false → r.childExhausted = false → input.isEmpty = true →
    s.child.trace = r.child.trace ++ [.pull input result output] → s.phase = .opened →
    s.childExhausted = (Received.pull input result output).isEnd → Asks r s
  | close (result : Except Failure Unit) : r.phase ≠ .closed →
    s.child.trace = r.child.trace ++ [.close result] → s.phase = .closed →
    s.childExhausted = r.childExhausted → Asks r s

variable [Operator σ]

theorem asks_step (r : Repeat (Traced σ)) (call : Call) : Asks r (r.step call) := by
  cases call with
  | start c =>
    have hs := r.started c
    rw [step]
    generalize r.start c = reply at hs
    cases hs with
    | refused e exprs _ => exact .nothing rfl rfl rfl
    | failed failure exprs events _ hp hr =>
      exact .start (.error failure) hp (by rw [← hr]; rfl) hp rfl
    | opened exprs events _ hp hr => exact .start (.ok ()) hp (by rw [← hr]; rfl) rfl rfl
  | pull c output =>
    have hpoll := polled r c output
    rw [step]
    generalize r.pull c output = pulled at hpoll
    cases hpoll with
    | refused e _ => exact .nothing rfl rfl rfl
    | again _ _ =>
      obtain ⟨hc, hp, hx⟩ := r.emit_leaves output
      exact .nothing (by rw [hc]) hp hx
    | finished _ _ _ => exact .nothing rfl rfl rfl
    | failed failure events hp hb hx hf =>
      exact .pull (r.handed c) (.error failure) _ hp.2.1 hb hx rfl (by rw [← hf]; rfl) hp.2.1 hx
    | drained progress events hp hb hx hf hz =>
      refine .pull (r.handed c) (.ok progress) (r.fetch c).output hp.2.1 hb hx rfl (by rw [← hf]; rfl)
        hp.2.1 ?_
      rw [Received.isEnd, (Batch.isEmpty_iff _).mpr hz, Bool.or_true]
      rfl
    | loaded progress events hp hb hx hf hz =>
      obtain ⟨hc, hp', hx'⟩ := (r.loaded c progress).emit_leaves output
      refine .pull (r.handed c) (.ok progress) (r.fetch c).output hp.2.1 hb hx rfl ?_
        (hp'.trans hp.2.1) ?_
      · dsimp only
        rw [hc, ← hf]
        rfl
      · have hn : (r.fetch c).output.isEmpty = false := by
          rw [Bool.eq_false_iff, Ne, Batch.isEmpty_iff]
          exact hz
        rw [Received.isEnd, hn, Bool.or_false]
        exact hx'
  | close c =>
    rcases r.close_state c with ⟨_, hs⟩ | hs
    · rw [step, hs]
      exact .nothing rfl rfl rfl
    · by_cases hp : r.phase = .closed
      · rw [show r.step (.close c) = r from run_closed hp [.close c]]
        exact .nothing rfl rfl rfl
      · rw [step, hs]
        exact .close (Operator.close c r.child.inner).result hp rfl rfl rfl

/-- The child has been called as it may be called, and the state of the repeat says what may follow. -/
structure Tends (r : Repeat (Traced σ)) : Prop where
  orderly : Orderly r.child.trace
  unstarted : r.phase = .created → .start (.ok ()) ∉ r.child.trace
  started : r.phase = .opened → .start (.ok ()) ∈ r.child.trace
  ended : r.childExhausted = false → ∀ x ∈ r.child.trace, x.isEnd = false
  closed : r.child.trace.countP (·.isClose) = if r.phase = .closed then 1 else 0

omit [Operator σ] in
theorem tends_new (p : Plan) (exprs : List Expr) (child : σ) :
    Tends { plan := p, exprs, child := (⟨child, []⟩ : Traced σ) } where
  orderly := .nil
  unstarted _ h := nomatch h
  started h := nomatch h
  ended _ _ h := nomatch h
  closed := rfl

section Tending
variable {r s : Repeat (Traced σ)}

omit [Operator σ] in
private theorem Tends.unclosed (h : Tends r) (hp : r.phase ≠ .closed) : ∀ y ∈ r.child.trace, y.isClose = false := by
  have hc := h.closed
  rw [if_neg hp, List.countP_eq_zero] at hc
  exact fun y hy => Bool.eq_false_iff.mpr (hc y hy)

omit [Operator σ] in
/-- One more call of the child, if it may follow and the state takes account of it. -/
private theorem Tends.concat {x : Received} (h : Tends r) (ht : s.child.trace = r.child.trace ++ [x])
    (hx : x.MayFollow r.child.trace)
    (hunstarted : s.phase = .created → r.phase = .created ∧ x ≠ .start (.ok ()))
    (hstarted : s.phase = .opened → r.phase = .opened ∨ x = .start (.ok ()))
    (hended : s.childExhausted = false → r.childExhausted = false ∧ x.isEnd = false)
    (hclosed : x.isClose = true ↔ s.phase = .closed) : Tends s where
  orderly := by
    rw [ht]
    exact h.orderly.concat hx
  unstarted hp := by
    obtain ⟨hr, hne⟩ := hunstarted hp
    rw [ht, List.mem_append, List.mem_singleton]
    rintro (hm | he)
    · exact h.unstarted hr hm
    · exact hne he.symm
  started hp := by
    rw [ht, List.mem_append, List.mem_singleton]
    exact (hstarted hp).imp h.started Eq.symm
  ended hf := by
    obtain ⟨hr, he⟩ := hended hf
    rw [ht]
    exact List.forall_mem_append.mpr ⟨h.ended hr, List.forall_mem_singleton.mpr he⟩
  closed := by
    have hnone : r.child.trace.countP (·.isClose) = 0 :=
      List.countP_eq_zero.mpr fun y hy => by rw [hx.1 y hy]; exact Bool.false_ne_true
    rw [ht, List.countP_append, hnone, Nat.zero_add, List.countP_singleton]
    simp only [hclosed]

omit [Operator σ] in
private theorem Tends.asks (h : Tends r) (ha : Asks r s) : Tends s := by
  cases ha with
  | nothing ht hp hx =>
    exact
      { orderly := by rw [ht]; exact h.orderly
        unstarted := by rw [ht, hp]; exact h.unstarted
        started := by rw [ht, hp]; exact h.started
        ended := by rw [ht, hx]; exact h.ended
        closed := by rw [ht, hp]; exact h.closed }
  | start result hcreated ht hp hx =>
    have hopen : r.phase ≠ .closed := ne_closed_of_created hcreated
    refine h.concat ht ⟨h.unclosed hopen, h.unstarted hcreated⟩ ?_ ?_ ?_ ?_
    · intro hs
      refine ⟨hcreated, fun he => ?_⟩
      cases he
      rw [hp] at hs
      cases hs
    · intro hs
      cases result with
      | error failure => rw [hp] at hs; cases hs
      | ok u => exact Or.inr rfl
    · intro hf
      exact ⟨hx ▸ hf, rfl⟩
    · rw [hp]
      cases result <;> exact ⟨Bool.noConfusion, Phase.noConfusion⟩
  | pull input result output hopened hb hexhausted he ht hp hx =>
    have hopen : r.phase ≠ .closed := ne_closed_of_opened hopened
    refine h.concat ht ⟨h.unclosed hopen, h.started hopened, he, h.ended hexhausted⟩ ?_ ?_ ?_ ?_
    · intro hs
      rw [hp] at hs
      cases hs
    · intro _
      exact Or.inl hopened
    · intro hf
      exact ⟨hexhausted, hx ▸ hf⟩
    · rw [hp]
      exact ⟨Bool.noConfusion, Phase.noConfusion⟩
  | close result hopen ht hp hx =>
    refine h.concat ht ⟨h.unclosed hopen, trivial⟩ ?_ ?_ ?_ ?_
    · intro hs
      rw [hp] at hs
      cases hs
    · intro hs
      rw [hp] at hs
      cases hs
    · intro hf
      exact ⟨hx ▸ hf, rfl⟩
    · exact iff_of_true rfl hp

theorem Tends.run (h : Tends r) (calls : List Call) : Tends (r.run calls) := by
  induction calls generalizing r with
  | nil => exact h
  | cons call rest ih => exact ih (h.asks (r.asks_step call))

end Tending

end Repeat

/-! The layout of the batches that a child is handed. -/

/-- An operator has one layout, and hands a batch back with the layout it had. -/
structure KeepsLayout (σ : Type) [Operator σ] : Prop where
  start : ∀ (c : Context) (s : σ), Operator.outputLayout (Operator.start c s).state = Operator.outputLayout s
  pull : ∀ (c : Context) (s : σ) (b : Batch),
    Operator.outputLayout (Operator.pull c s b).state = Operator.outputLayout s
  output : ∀ (c : Context) (s : σ) (b : Batch), (Operator.pull c s b).output.layout = b.layout

/-- An operator with one layout that fills the batches it is given keeps theirs. -/
private theorem Fills.keepsLayout {σ : Type} [Operator σ] (h : Fills σ)
    (hstart : ∀ (c : Context) (s : σ),
      Operator.outputLayout (Operator.start c s).state = Operator.outputLayout s)
    (hpull : ∀ (c : Context) (s : σ) (b : Batch),
      Operator.outputLayout (Operator.pull c s b).state = Operator.outputLayout s) : KeepsLayout σ where
  start := hstart
  pull := hpull
  output c s b := by
    obtain ⟨ops, ho⟩ := h c s b
    rw [ho]
    exact congrArg (·.layout) (b.reset_after ops)

theorem keepsLayout_script : KeepsLayout Script :=
  fills_script.keepsLayout (fun _ _ => rfl) fun _ s b => by
    show (s.pull b).state.layout = s.layout
    unfold Script.pull
    repeat' split
    all_goals rfl

theorem keepsLayout_repeat {σ : Type} [Operator σ] : KeepsLayout (Repeat σ) :=
  Repeat.fills_repeat.keepsLayout
    (fun c r => congrArg Repeat.Plan.outputLayout (r.step_keeps (.start c)).1)
    fun c r b => congrArg Repeat.Plan.outputLayout (r.step_keeps (.pull c b)).1

theorem keepsLayout_values : KeepsLayout Values := by
  refine fills_values.keepsLayout (fun _ v => ?_) fun c v b => ?_
  · show v.start.state.layout = v.layout
    unfold Values.start
    split <;> rfl
  · show (v.pull c b).state.layout = v.layout
    unfold Values.pull
    dsimp only
    repeat' split
    all_goals rfl

namespace Repeat
variable {σ : Type} [Operator σ] {l : Layout} {r : Repeat (Traced σ)}

/-- The batches that the child was handed and the one that is kept for it have one layout, which is the
child's for as long as it may be pulled. -/
structure Fitted (l : Layout) (r : Repeat (Traced σ)) : Prop where
  child : r.phase ≠ .closed → Operator.outputLayout r.child = l
  input : ∀ b, r.input = some b → b.layout = l
  pulls : ∀ input result output, .pull input result output ∈ r.child.trace → input.layout = l

omit [Operator σ] in
/-- One more call of the child, if it hands over no batch of another layout. -/
private theorem pulls_concat {before : List Received} {x : Received}
    (h : ∀ input result output, .pull input result output ∈ before → input.layout = l)
    (hx : ∀ input result output, x = .pull input result output → input.layout = l) :
    ∀ input result output, .pull input result output ∈ before ++ [x] → input.layout = l := by
  intro input result output hm
  rcases List.mem_append.mp hm with hm | hm
  · exact h input result output hm
  · exact hx input result output (List.mem_singleton.mp hm).symm

private theorem fitted_new (p : Plan) (exprs : List Expr) (child : σ) :
    Fitted (Operator.outputLayout child) { plan := p, exprs, child := (⟨child, []⟩ : Traced σ) } where
  child _ := rfl
  input b hb := by cases hb
  pulls input result output hm := by cases hm

private theorem Fitted.emit (h : Fitted l r) (output : Batch) : Fitted l (r.emit output).state := by
  obtain ⟨hc, hp, _⟩ := r.emit_leaves output
  refine ⟨by rw [hc, hp]; exact h.child, fun b hb => ?_, by rw [hc]; exact h.pulls⟩
  rcases emit_input hb with hi | ⟨input, hi, rfl⟩
  · exact h.input b hi
  · exact h.input input hi

private theorem Fitted.handed (h : Fitted l r) (hp : r.phase ≠ .closed) (c : Context) : (r.handed c).layout = l := by
  rw [Repeat.handed]
  cases hi : r.input with
  | none => exact h.child hp
  | some input => exact h.input input hi

/-- A pull of a child that keeps layouts, whatever it comes to. -/
private theorem Fitted.received (hk : KeepsLayout σ) (h : Fitted l r) (hp : r.phase ≠ .closed) (c : Context) :
    Fitted l (r.received c) where
  child _ := (hk.pull c r.child.inner (r.handed c)).trans (h.child hp)
  input b hb := by
    cases hb
    exact (hk.output c r.child.inner (r.handed c)).trans (h.handed hp c)
  pulls := pulls_concat h.pulls fun input result output he => by
    cases he
    exact h.handed hp c

private theorem Fitted.step (hk : KeepsLayout σ) (h : Fitted l r) (call : Call) : Fitted l (r.step call) := by
  cases call with
  | start c =>
    have hs := r.started c
    rw [Repeat.step]
    generalize r.start c = reply at hs
    cases hs with
    | refused e exprs _ => exact ⟨h.child, h.input, h.pulls⟩
    | failed failure exprs events _ hp _ =>
      exact ⟨fun hc => (hk.start c r.child.inner).trans (h.child hc), h.input,
        pulls_concat h.pulls fun _ _ _ he => by cases he⟩
    | opened exprs events _ hp _ =>
      have hopen : r.phase ≠ .closed := ne_closed_of_created hp
      exact ⟨fun _ => (hk.start c r.child.inner).trans (h.child hopen), h.input,
        pulls_concat h.pulls fun _ _ _ he => by cases he⟩
  | pull c output =>
    have hpoll := polled r c output
    rw [Repeat.step]
    generalize r.pull c output = pulled at hpoll
    have hopen (hp : r.Passes c output) : r.phase ≠ .closed := ne_closed_of_opened hp.2.1
    cases hpoll with
    | refused e _ => exact h
    | again _ _ => exact h.emit output
    | finished _ _ _ => exact h
    | failed failure events hp _ _ _ => exact h.received hk (hopen hp) c
    | drained progress events hp _ _ _ _ =>
      have hr := h.received hk (hopen hp) c
      exact ⟨hr.child, hr.input, hr.pulls⟩
    | loaded progress events hp _ _ _ _ =>
      have hr := h.received hk (hopen hp) c
      exact Fitted.emit (r := r.loaded c progress) ⟨hr.child, hr.input, hr.pulls⟩ output
  | close c =>
    rcases r.close_state c with ⟨_, hs⟩ | hs
    · rw [Repeat.step, hs]
      exact h
    · rw [Repeat.step, hs]
      refine ⟨fun hc => absurd rfl hc, fun b hb => ?_, pulls_concat h.pulls fun _ _ _ he => by cases he⟩
      cases hb

private theorem Fitted.run (hk : KeepsLayout σ) (h : Fitted l r) (calls : List Call) : Fitted l (r.run calls) := by
  induction calls generalizing r with
  | nil => exact h
  | cons call rest ih => exact ih (h.step hk call)

/-- Until a repeat is closed, its numbers are right for the pulls among the calls of its child. -/
theorem tallies_traced {p : Plan} (hp : 0 < p.numCombinations) (exprs : List Expr) (child : σ)
    {calls : List Call} :
    let r : Repeat (Traced σ) := { plan := p, exprs, child := ⟨child, []⟩ }
    (r.run calls).phase ≠ .closed →
      Tallies p.numCombinations ((r.run calls).view Traced.watched)
        ((r.view Traced.watched).sources calls) := by
  intro r hopen
  have hnew : Tallies p.numCombinations (r.view Traced.watched) [] := tallies_new hp exprs child
  have hview : (r.view Traced.watched).run calls = (r.run calls).view Traced.watched :=
    run_view Traced.view_watched r calls
  have hopen' : ((r.view Traced.watched).run calls).phase ≠ .closed := by
    rw [hview]
    exact hopen
  have ht := hnew.run hopen'
  rwa [hview, List.nil_append] at ht

/-- When the child is pulled, every batch that it has delivered has been emitted for every combination. -/
private theorem all_emitted_of_pull {p : Plan} (hp : 0 < p.numCombinations) (exprs : List Expr) (child : σ)
    {calls : List Call} {call : Call} {input output : Batch} {result : Except Failure Progress} :
    let r : Repeat (Traced σ) := { plan := p, exprs, child := ⟨child, []⟩ }
    ((r.run calls).step call).child.trace = (r.run calls).child.trace ++ [.pull input result output] →
      (r.emitted calls).length = p.numCombinations * (r.run calls).child.watched.delivered.length := by
  intro r htrace
  have hpulled : (r.run calls).phase = .opened ∧ (r.run calls).buffered = false := by
    cases (r.run calls).asks_step call with
    | nothing ht _ _ => simp [ht] at htrace
    | start result _ ht _ _ => simp [ht] at htrace
    | pull input result output ho hb _ _ _ _ _ => exact ⟨ho, hb⟩
    | close result _ ht _ _ => simp [ht] at htrace
  have hopen : (r.run calls).phase ≠ .closed := ne_closed_of_opened hpulled.1
  have ht := tallies_traced hp exprs child hopen
  obtain ⟨_, ho⟩ := ht.idle hpulled.2
  rw [ht.outputs, length_sources] at ho
  rw [← emitted_view Traced.view_watched]
  exact ho

/-- A repeat calls its child as it may be called, however it is called itself and whatever the calls come
to. The child gets batches of its own layout if it keeps to one. A call of the repeat makes at most one call
of the child, and pulls it only when all that it has delivered has been emitted. The child is closed once if
the repeat is, and from then on closing the repeat does nothing and succeeds. -/
theorem child_called_in_order {tables : LayoutTable} {d : Descriptor} {exprs : List Expr} {child : σ}
    {r : Repeat (Traced σ)} (h : (create tables d exprs ⟨child, []⟩).1 = .ok r) (calls : List Call) :
    let s := r.run calls
    Orderly s.child.trace ∧
      (KeepsLayout σ → ∀ input result output, .pull input result output ∈ s.child.trace →
        input.layout = Operator.outputLayout child) ∧
      (∀ call, ∃ more, (s.step call).child.trace = s.child.trace ++ more ∧ more.length ≤ 1 ∧
        ∀ input result output, more = [.pull input result output] →
          (r.emitted calls).length = d.keepSets.length * s.child.watched.delivered.length) ∧
      ((∀ c, .close c ∉ calls) → ∀ x ∈ s.child.trace, x.isClose = false) ∧
      ∀ c, .close c ∈ calls →
        s.child.trace.countP (·.isClose) = 1 ∧ ∀ c, s.close c = { result := .ok (), state := s } := by
  intro s
  obtain ⟨p, hp, rfl⟩ := create_ok_iff.mp h
  obtain ⟨rfl, _, hs⟩ := Plan.build_ok hp
  have ht := (tends_new p exprs child).run calls
  refine ⟨ht.orderly, fun hk => ?_, fun call => ?_, fun hcalls => ?_, fun c hc => ?_⟩
  · exact ((fitted_new p exprs child).run hk calls).pulls
  · have hone : ∃ more, (s.step call).child.trace = s.child.trace ++ more ∧ more.length ≤ 1 := by
      cases s.asks_step call with
      | nothing ht _ _ => exact ⟨[], by rw [ht, List.append_nil], Nat.zero_le _⟩
      | start result _ ht _ _ => exact ⟨_, ht, Nat.le_refl _⟩
      | pull input result output _ _ _ _ ht _ _ => exact ⟨_, ht, Nat.le_refl _⟩
      | close result _ ht _ _ => exact ⟨_, ht, Nat.le_refl _⟩
    obtain ⟨more, hmore, hle⟩ := hone
    refine ⟨more, hmore, hle, fun input result output he => ?_⟩
    rw [he] at hmore
    rw [← hs.numCombinations]
    exact all_emitted_of_pull hs.combinations_pos exprs child hmore
  · refine ht.unclosed fun hclosed => ?_
    rcases (run_phase_closed _ calls).mp hclosed with hp | ⟨c, hc⟩
    · cases hp
    · exact hcalls c hc
  · have hclosed : s.phase = .closed := (run_phase_closed _ calls).mpr (Or.inr ⟨c, hc⟩)
    refine ⟨ht.closed.trans (if_pos hclosed), fun c => ?_⟩
    rw [close, hclosed]

/-- A child that does not start the first time. It is pulled twice, and only once the two rows of the first
pull have been emitted for both combinations. -/
theorem child_called_after_failed_start :
    let child : Script := { Sample.child with startErrors := [some (.internal "not ready")] }
    let r := Sample.fresh (⟨child, []⟩ : Traced Script)
    let pull : Call := .pull Sample.context (.new Sample.layout 2 none)
    let calls := [pull, .start Sample.context, pull, .start Sample.context, pull, pull, pull,
      .close Sample.context, pull, .start Sample.context, .close Sample.context]
    Orderly (r.run calls).child.trace ∧ (r.run calls).child.trace.length = 5 ∧
      (∀ input result output, .pull input result output ∈ (r.run calls).child.trace →
        input.layout = child.layout) ∧
      (r.run calls).child.trace.countP (·.isClose) = 1 := by
  intro child r pull calls
  have hr : (create ⟨[Sample.layout]⟩ Sample.descriptor Sample.exprs
      (⟨child, []⟩ : Traced Script)).1 = .ok r := Sample.create_eq _
  obtain ⟨horderly, hlayout, _, _, hclosed⟩ := child_called_in_order hr calls
  exact ⟨horderly, by decide +kernel, hlayout keepsLayout_script,
    (hclosed Sample.context (by simp [calls])).1⟩

end Repeat

end GroupingSets
