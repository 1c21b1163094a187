import GroupingSets.Proofs.Repeat.Failure
import GroupingSets.Proofs.Repeat.Protocol

/-! The end of the rows of a repeat. A pull that says that there may be more has rows, and one that says that
there is nothing more is right, now and for as long as the repeat is open. -/
namespace GroupingSets.Repeat
variable {σ : Type}

/-- An open repeat without rows to emit, whose child is not pulled again. -/
structure Spent (r : Repeat σ) : Prop where
  phase : r.phase = .opened
  buffered : r.buffered = false
  childExhausted : r.childExhausted = true

section Spending
variable [Operator σ] {r : Repeat σ} {c : Context} {output : Batch}

private theorem spent_of_exhausted (h : (r.pull c output).result = .ok .exhausted) : (r.pull c output).state.Spent := by
  obtain ⟨hb, hp, _, hx, _⟩ := pull_exhausted h
  exact ⟨hp, hb, hx⟩

/-- A pull that finds rows to emit does not say that there is nothing more. -/
private theorem not_buffered_of_exhausted (h : (r.pull c output).result = .ok .exhausted) : r.buffered = false := by
  refine Bool.eq_false_iff.mpr fun hb => ?_
  rw [pull_again (passes_of_ok h) hb] at h
  exact emit_ne_exhausted r output h

private theorem Spent.pull (h : r.Spent) (hp : r.Passes c output) :
    r.pull c output = { result := .ok .exhausted, state := r, output } := by
  have hpoll := polled r c output
  generalize r.pull c output = pulled at hpoll
  cases hpoll with
  | refused e hn => exact absurd hp hn
  | again _ hb => rw [h.buffered] at hb; cases hb
  | finished _ _ _ => rfl
  | failed failure events _ _ hx _ => rw [h.childExhausted] at hx; cases hx
  | drained progress events _ _ hx _ _ => rw [h.childExhausted] at hx; cases hx
  | loaded progress events _ _ hx _ _ => rw [h.childExhausted] at hx; cases hx

/-- Only a close changes a repeat that is spent. -/
private theorem Spent.step (h : r.Spent) {call : Call} (hcall : ∀ c, call ≠ .close c) : r.step call = r := by
  cases call with
  | start c => rw [Repeat.step, Repeat.start, h.phase]
  | pull c output =>
    by_cases hp : r.Passes c output
    · rw [Repeat.step, h.pull hp]
    · exact pull_refused hp
  | close c => exact absurd rfl (hcall c)

private theorem Spent.run (h : r.Spent) {calls : List Call} (hcalls : ∀ c, .close c ∉ calls) : r.run calls = r := by
  induction calls with
  | nil => rfl
  | cons call rest ih =>
    have hs : r.step call = r := h.step fun c he => hcalls c (he ▸ List.mem_cons_self)
    rw [Repeat.run, List.foldl_cons, hs]
    exact ih fun c hm => hcalls c (List.mem_cons_of_mem _ hm)

end Spending

section Telling
variable {r s : Repeat (Traced σ)}

/-- If the child is not to be pulled again, it has told that no rows follow. -/
def Told (r : Repeat (Traced σ)) : Prop := r.childExhausted = true → ∃ x ∈ r.child.trace, x.isEnd = true

private theorem Told.asks (h : Told r) (ha : Asks r s) : Told s := by
  have grown {x : Received} (ht : s.child.trace = r.child.trace ++ [x])
      (hx : s.childExhausted = r.childExhausted) : Told s := by
    intro hs
    obtain ⟨y, hy, he⟩ := h (hx ▸ hs)
    exact ⟨y, ht ▸ List.mem_append_left _ hy, he⟩
  cases ha with
  | nothing ht _ hx => rwa [Told, ht, hx]
  | start result _ ht _ hx => exact grown ht hx
  | pull input result output _ _ _ _ ht _ hx =>
    intro hs
    exact ⟨_, ht ▸ List.mem_append_right _ (List.mem_singleton_self _), hx.symm.trans hs⟩
  | close result _ ht _ hx => exact grown ht hx

private theorem Told.run [Operator σ] (h : Told r) (calls : List Call) : Told (r.run calls) := by
  induction calls generalizing r with
  | nil => exact h
  | cons call rest ih => exact ih (h.asks (r.asks_step call))

end Telling

variable [Operator σ]

/-- The output of a pull that says that there may be more has the rows of the batch that the child delivered
last, as many as were buffered. -/
private theorem rows_of_hasMore {p : Plan} (hp : 0 < p.numCombinations) (exprs : List Expr) (child : σ)
    {calls : List Call} {c : Context} {output : Batch} :
    let fresh : Repeat (Traced σ) := { plan := p, exprs, child := ⟨child, []⟩ }
    let pulled := (fresh.run calls).pull c output
    pulled.result = .ok .hasMore →
      ∃ input, pulled.state.child.watched.delivered.getLast? = some input ∧
        ((fresh.run calls).buffered = true → (fresh.run calls).input = some input) ∧
        pulled.output.numRows = input.numRows ∧ pulled.output.numRows ≠ 0 := by
  intro fresh pulled hm
  have hpass := passes_of_ok hm
  have hopen : (fresh.run calls).phase ≠ .closed := ne_closed_of_opened hpass.2.1
  have hpull : ((fresh.run calls).view Traced.watched).pull c output = pulled.map (view Traced.watched) :=
    pull_view Traced.view_watched c _ output
  have hm' : (((fresh.run calls).view Traced.watched).pull c output).result = .ok .hasMore := by
    rw [hpull]
    exact hm
  obtain ⟨input, hlast, hz, hbuf, hw⟩ := (tallies_traced hp exprs child hopen).written hm'
  have hrows := Plan.numRows_writeCombination _ _ _ hw
  rw [(Batch.isEmpty_iff output).mp hpass.2.2, Nat.zero_add, hpull] at hrows
  rw [hpull] at hlast
  exact ⟨input, hlast, hbuf, hrows, fun h => hz (hrows.symm.trans h)⟩

/-- What a pull says about the rows is so, over any child and after any calls. If it says that there may be
more, its output has as many rows as the batch it was written from, which is the one the child delivered last,
and at least one. If it says that there is nothing more, its output has no rows, none are buffered, and the
child has told that no rows follow. From then on, until the repeat is closed, no call changes anything, and
every pull that is not cancelled and has an empty output says so again. -/
theorem end_exact_and_sticky {tables : LayoutTable} {d : Descriptor} {exprs : List Expr} {child : σ}
    {r : Repeat (Traced σ)} (h : (create tables d exprs ⟨child, []⟩).1 = .ok r) (calls : List Call)
    (c : Context) (output : Batch) :
    let s := r.run calls
    let pulled := s.pull c output
    (pulled.result = .ok .hasMore →
      ∃ input, pulled.state.child.watched.delivered.getLast? = some input ∧
        (s.buffered = true → s.input = some input) ∧
        pulled.output.numRows = input.numRows ∧ pulled.output.numRows ≠ 0) ∧
    (pulled.result = .ok .exhausted →
      pulled.output.numRows = 0 ∧ s.buffered = false ∧ pulled.state.buffered = false ∧
        (∃ x ∈ pulled.state.child.trace, x.isEnd = true) ∧
        ∀ later, (∀ c, .close c ∉ later) →
          pulled.state.run later = pulled.state ∧
          ∀ c output, c.check = .ok () → output.numRows = 0 →
            (pulled.state.run later).pull c output =
              { result := .ok .exhausted, state := pulled.state, output }) := by
  intro s pulled
  obtain ⟨p, hp, rfl⟩ := create_ok_iff.mp h
  obtain ⟨_, _, hs⟩ := Plan.build_ok hp
  refine ⟨rows_of_hasMore hs.combinations_pos exprs child, fun he => ?_⟩
  have hspent : pulled.state.Spent := spent_of_exhausted he
  have hnew : Told ({ plan := p, exprs, child := ⟨child, []⟩ } : Repeat (Traced σ)) := fun hx => nomatch hx
  have htold : Told pulled.state := (hnew.run calls).asks (s.asks_step (.pull c output))
  refine ⟨?_, not_buffered_of_exhausted he, hspent.buffered, htold hspent.childExhausted,
    fun later hlater => ?_⟩
  · rw [(pull_exhausted he).2.2.2.2]
    exact (Batch.isEmpty_iff output).mp (passes_of_ok he).2.2
  · have hrun := hspent.run hlater
    refine ⟨hrun, fun c output hc ho => ?_⟩
    rw [hrun]
    exact hspent.pull ⟨hc, hspent.phase, (Batch.isEmpty_iff output).mpr ho⟩

/-- The child delivers two rows and then a batch without rows, which is the end although it says that there
may be more. An output without room comes back as it is. -/
theorem end_after_empty_batch :
    let more : Script.Entry := ⟨[[.int32 7, .utf8 "a"], [.null, .utf8 "b"]], .ok .hasMore⟩
    let child : Script := { Sample.child with entries := [more, ⟨[], .ok .hasMore⟩, more] }
    let r := Sample.fresh (⟨child, []⟩ : Traced Script)
    let pull (capacity : Nat) : Call := .pull Sample.context (.new Sample.layout capacity none)
    let output := Batch.new Sample.layout 2 none
    let second := (r.run [.start Sample.context, pull 2]).pull Sample.context output
    let third := (r.run [.start Sample.context, pull 2, pull 3]).pull Sample.context output
    second.result = .ok .hasMore ∧ second.output.numRows ≠ 0 ∧ third.result = .ok .exhausted ∧
      (∃ x ∈ third.state.child.trace, x.isEnd = true) ∧
      third.state.run [pull 0, .start Sample.context, pull 2] = third.state := by
  intro more child r pull output second third
  have hr : (create ⟨[Sample.layout]⟩ Sample.descriptor Sample.exprs
      (⟨child, []⟩ : Traced Script)).1 = .ok r := Sample.create_eq _
  have hmore : second.result = .ok .hasMore := ok_of_toOption (by decide +kernel)
  have hend : third.result = .ok .exhausted := ok_of_toOption (by decide +kernel)
  obtain ⟨_, _, _, _, hrows⟩ :=
    (end_exact_and_sticky hr [.start Sample.context, pull 2] Sample.context output).1 hmore
  obtain ⟨_, _, _, htold, hsticky⟩ :=
    (end_exact_and_sticky hr [.start Sample.context, pull 2, pull 3] Sample.context output).2 hend
  exact ⟨hmore, hrows, hend, htold, (hsticky _ (by simp [pull])).1⟩

end GroupingSets.Repeat
