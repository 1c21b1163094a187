import GroupingSets.Proofs.Repeat.Expansion
import GroupingSets.Proofs.Repeat.Run

/-! What a repeat emits over a whole run: each batch of the child once for each combination, in order,
whichever pulls fail in between. -/
namespace GroupingSets.Repeat

variable {σ : Type}

/-- The output in place `n` is the expansion of a batch that was delivered, where the outputs run
through the combinations of one batch after the other. -/
def Replayed (p : Plan) (exprs : List Expr) (delivered : List Batch) (n : Nat) (out : Batch) : Prop :=
  ∃ b rows, delivered[n / p.numCombinations]? = some b ∧ b.toRows = .ok rows ∧
    out.toRows =
      .ok (rows.map (p.descriptor.expandRow p.outputLayout.slots exprs (n % p.numCombinations)))

private theorem Replayed.mono {p : Plan} {exprs : List Expr} {delivered : List Batch} {n : Nat} {out : Batch}
    (h : Replayed p exprs delivered n out) (more : List Batch) :
    Replayed p exprs (delivered ++ more) n out := by
  obtain ⟨b, rows, hb, hr, ho⟩ := h
  have hlt := (List.getElem?_eq_some_iff.mp hb).1
  exact ⟨b, rows, by rw [List.getElem?_append_left hlt]; exact hb, hr, ho⟩

/-- The outputs so far are the expansions of the batches that were delivered, each batch once for each
combination. A batch that is buffered is the last one, and has been emitted up to its combination. -/
structure Replays (p : Plan) (exprs : List Expr) (r : Repeat (Watched σ)) (outs : List Batch) : Prop where
  plan : r.plan = p
  unbound : r.exprs.map (·.unbind) = exprs.map (·.unbind)
  input : ∀ b, r.input = some b → b.Valid
  pending : r.buffered = true → r.combination < p.numCombinations ∧
    ∃ before b, r.input = some b ∧ r.child.delivered = before ++ [b] ∧
      outs.length = p.numCombinations * before.length + r.combination
  idle : r.buffered = false → r.phase ≠ .closed →
    outs.length = p.numCombinations * r.child.delivered.length
  emitted : ∀ (n : Nat) out, outs[n]? = some out → Replayed p exprs r.child.delivered n out

theorem replays_new (p : Plan) (exprs : List Expr) (child : σ) :
    Replays p exprs { plan := p, exprs, child := (⟨child, []⟩ : Watched σ) } [] where
  plan := rfl
  unbound := rfl
  input b h := by cases h
  pending h := by cases h
  idle _ _ := (Nat.mul_zero _).symm
  emitted n out h := by rw [List.getElem?_nil] at h; cases h

section Emitting
variable {p : Plan} {exprs : List Expr} {r : Repeat (Watched σ)} {outs : List Batch}

private theorem Replays.emitted_append {delivered : List Batch} {out : Batch}
    (h : ∀ (n : Nat) out, outs[n]? = some out → Replayed p exprs delivered n out)
    (ho : Replayed p exprs delivered outs.length out) (n : Nat) (found : Batch)
    (hn : (outs ++ [out])[n]? = some found) : Replayed p exprs delivered n found := by
  rw [List.getElem?_append] at hn
  split at hn
  · exact h n found hn
  · obtain ⟨hlt, he⟩ := List.getElem?_eq_some_iff.mp hn
    rw [List.length_singleton] at hlt
    rw [List.getElem_singleton] at he
    rwa [← he, show n = outs.length by omega]

/-- Once its expansion is emitted the combination is done. After the last one, so is the batch. -/
private theorem Replays.advanced (h : Replays p exprs r outs) {before : List Batch} {input out : Batch}
    (hb : r.buffered = true) (hi : r.input = some input) (hd : r.child.delivered = before ++ [input])
    (hlt : r.combination < p.numCombinations)
    (hn : outs.length = p.numCombinations * before.length + r.combination)
    (ho : Replayed p exprs r.child.delivered outs.length out) (rows : Nat) :
    Replays p exprs (r.advanced input rows) (outs ++ [out]) := by
  have hall := Replays.emitted_append h.emitted ho
  unfold Repeat.advanced
  dsimp only
  split
  · next hlast =>
    rw [h.plan] at hlast
    refine ⟨h.plan, h.unbound, ?_, ?_, ?_, hall⟩
    · intro c hc
      cases hc
      exact (h.input input hi).reset
    · intro hf
      cases hf
    · intro _ _
      rw [List.length_append, hd, List.length_append, hn, Nat.mul_add]
      simp only [List.length_singleton]
      omega
  · next hmore =>
    rw [h.plan] at hmore
    refine ⟨h.plan, h.unbound, h.input, ?_, ?_, hall⟩
    · intro _
      refine ⟨by dsimp only; omega, before, input, hi, hd, ?_⟩
      rw [List.length_append, hn, List.length_singleton]
      rfl
    · intro hf
      rw [show r.buffered = false from hf] at hb
      cases hb

/-- Emitting the next combination adds its expansion of the batch that is buffered. -/
private theorem Replays.emit (hp : p.Sound (exprs.map (·.datatype))) (h : Replays p exprs r outs)
    (hb : r.buffered = true) {output : Batch} (hv : output.Valid) (he : output.numRows = 0)
    (hl : output.layout = p.outputLayout) :
    Replays p exprs (r.emit output).state (outs ++ (r.emit output).emitted) := by
  obtain ⟨hlt, before, input, hi, hd, hn⟩ := h.pending hb
  have hem := emission hi output
  generalize r.emit output = pulled at hem
  cases hem with
  | faulted fault b hw =>
    rw [Pulled.emitted, List.append_nil]
    exact h
  | failed e b hw =>
    rw [Pulled.emitted, List.append_nil]
    exact h
  | written b events hw =>
    obtain ⟨rows, hrows⟩ := (h.input input hi).exists_toRows
    rw [h.plan] at hw
    rw [← Expr.map_datatype_unbind h.unbound] at hp
    have hout := (hp.writeCombination_holds hlt hrows hv he hl hw).toRows
    rw [p.descriptor.expandRow_unbind _ h.unbound] at hout
    have hdiv : outs.length / p.numCombinations = before.length := by
      rw [hn, Nat.mul_add_div hp.combinations_pos, Nat.div_eq_of_lt hlt, Nat.add_zero]
    have hmod : outs.length % p.numCombinations = r.combination := by
      rw [hn, Nat.mul_add_mod, Nat.mod_eq_of_lt hlt]
    refine h.advanced hb hi hd hlt hn ⟨input, rows, ?_, hrows, ?_⟩ b.numRows
    · rw [hdiv, hd, List.getElem?_append_right (Nat.le_refl _), Nat.sub_self]
      rfl
    · rw [hmod, hout]

end Emitting

section Stepping
variable [Operator σ] {p : Plan} {exprs : List Expr} {r : Repeat (Watched σ)} {outs : List Batch}

private theorem Replays.valid_fetch (hfill : Fills σ) (h : Replays p exprs r outs) (c : Context) :
    (r.fetch c).output.Valid := by
  obtain ⟨ops, ho⟩ := fills_watched hfill c r.child (r.handed c)
  rw [fetch, ho]
  refine (Batch.Valid.after_keeps (Batch.Valid.reset ?_) ops).1
  cases hi : r.input with
  | none => exact Batch.valid_new _ _ _
  | some input => exact h.input input hi

theorem Replays.start (h : Replays p exprs r outs) (c : Context) :
    Replays p exprs (r.start c).state outs := by
  obtain ⟨bound, phase, hu, hphase, hs⟩ := r.start_state c
  have hidle : r.buffered = false → phase ≠ .closed →
      outs.length = p.numCombinations * r.child.delivered.length := by
    intro hb hc
    refine h.idle hb fun hr => hc ?_
    rcases hphase with he | ⟨hcr, _⟩
    · rw [he, hr]
    · rw [hr] at hcr
      cases hcr
  rcases hs with hs | hs
  · rw [hs]
    exact ⟨h.plan, hu.trans h.unbound, h.input, h.pending, hidle, h.emitted⟩
  · rw [hs]
    exact ⟨h.plan, hu.trans h.unbound, h.input, h.pending, hidle, h.emitted⟩

private theorem Replays.close (h : Replays p exprs r outs) (c : Context) :
    Replays p exprs (r.close c).state outs := by
  rcases r.close_state c with ⟨_, hs⟩ | hs
  · rw [hs]
    exact h
  · rw [hs]
    refine ⟨h.plan, ?_, ?_, ?_, ?_, h.emitted⟩
    · rw [← h.unbound]
      exact Expr.map_unbind_unbind r.exprs
    · intro b hb
      cases hb
    · intro hb
      cases hb
    · intro _ hc
      exact absurd rfl hc

/-- A pull of the child that delivers no rows leaves what there is to emit. -/
private theorem Replays.fetched (h : Replays p exprs r outs) {s : Repeat (Watched σ)} {c : Context}
    (hfill : Fills σ) (hb : r.buffered = false) (hplan : s.plan = r.plan) (hexprs : s.exprs = r.exprs)
    (hphase : s.phase = r.phase) (hbuf : s.buffered = r.buffered)
    (hinput : s.input = some (r.fetch c).output) (hd : s.child.delivered = r.child.delivered) :
    Replays p exprs s outs where
  plan := hplan.trans h.plan
  unbound := by rw [hexprs, h.unbound]
  input b hi := by
    rw [hinput] at hi
    cases hi
    exact h.valid_fetch hfill c
  pending hf := by
    rw [hbuf, hb] at hf
    cases hf
  idle _ hc := by
    rw [hphase] at hc
    rw [hd, h.idle hb hc]
  emitted n out hn := by
    rw [hd]
    exact h.emitted n out hn

theorem Replays.loaded (h : Replays p exprs r outs) (hp : p.Sound (exprs.map (·.datatype)))
    (hfill : Fills σ) {c : Context} {progress : Progress} (hb : r.buffered = false)
    (ho : r.phase = .opened) (hf : (r.fetch c).result = .ok progress)
    (hz : (r.fetch c).output.numRows ≠ 0) : Replays p exprs (r.loaded c progress) outs where
  plan := h.plan
  unbound := h.unbound
  input b hi := by
    cases hi
    exact h.valid_fetch hfill c
  pending _ := by
    refine ⟨hp.combinations_pos, r.child.delivered, (r.fetch c).output, rfl, ?_, ?_⟩
    · exact delivered_fetch hf hz
    · exact h.idle hb (ne_closed_of_opened ho)
  idle hf := by cases hf
  emitted n out hn := by
    have hr := (h.emitted n out hn).mono [(r.fetch c).output]
    rwa [← delivered_fetch hf hz] at hr

theorem Replays.pull (hp : p.Sound (exprs.map (·.datatype))) (hfill : Fills σ)
    (h : Replays p exprs r outs) (c : Context) {output : Batch}
    (ho : Batch.Built p.outputLayout output) :
    Replays p exprs (r.pull c output).state (outs ++ (r.pull c output).emitted) := by
  have hpoll := polled r c output
  generalize r.pull c output = pulled at hpoll
  cases hpoll with
  | refused e _ =>
    rw [Pulled.emitted, List.append_nil]
    exact h
  | again hpass hb => exact h.emit hp hb ho.valid (Batch.isEmpty_iff output |>.mp hpass.2.2) ho.layout_eq
  | finished _ _ _ =>
    rw [Pulled.emitted, List.append_nil]
    exact h
  | failed failure events hpass hb hx hf =>
    rw [Pulled.emitted, List.append_nil]
    refine h.fetched hfill hb rfl rfl rfl rfl rfl (delivered_fetch_none fun progress ho => ?_)
    rw [hf] at ho
    cases ho
  | drained progress events hpass hb hx hf hz =>
    rw [Pulled.emitted, List.append_nil]
    exact h.fetched hfill hb rfl rfl rfl rfl rfl (delivered_fetch_none fun _ _ => hz)
  | loaded progress events hpass hb hx hf hz =>
    exact (h.loaded hp hfill hb hpass.2.1 hf hz).emit hp rfl ho.valid
      (Batch.isEmpty_iff output |>.mp hpass.2.2) ho.layout_eq

private theorem Replays.step (hp : p.Sound (exprs.map (·.datatype))) (hfill : Fills σ)
    (h : Replays p exprs r outs) (call : Call)
    (hcall : ∀ c output, call = .pull c output → Batch.Built p.outputLayout output) :
    Replays p exprs (r.step call) (outs ++ r.emits call) := by
  cases call with
  | start c =>
    rw [emits, List.append_nil]
    exact h.start c
  | pull c output => exact h.pull hp hfill c (hcall c output rfl)
  | close c =>
    rw [emits, List.append_nil]
    exact h.close c

/-- A run of calls replays, whatever each of them comes to. -/
theorem Replays.run (hp : p.Sound (exprs.map (·.datatype))) (hfill : Fills σ)
    (h : Replays p exprs r outs) {calls : List Call}
    (hcalls : ∀ c output, .pull c output ∈ calls → Batch.Built p.outputLayout output) :
    Replays p exprs (r.run calls) (outs ++ r.emitted calls) :=
  run_induction (Replays p exprs)
    (fun call => ∀ c output, call = .pull c output → Batch.Built p.outputLayout output)
    (fun _ _ call hcall h => h.step hp hfill call hcall) h
    fun _ hm c output he => hcalls c output (he ▸ hm)

/-- Once a pull says that there is nothing more, every batch has been emitted for every combination. -/
private theorem Replays.length_of_exhausted (hp : p.Sound (exprs.map (·.datatype))) (hfill : Fills σ)
    (h : Replays p exprs r outs) {c : Context} {output : Batch}
    (ho : Batch.Built p.outputLayout output) (he : (r.pull c output).result = .ok .exhausted) :
    outs.length = p.numCombinations * (r.pull c output).state.child.delivered.length := by
  have hr := h.pull hp hfill c ho
  obtain ⟨hb, hopen, hem, _⟩ := pull_exhausted he
  rw [hem, List.append_nil] at hr
  exact hr.idle hb (ne_closed_of_opened hopen)

/-- A repeat emits exactly the expansion of what its child delivers. Whatever calls are made and
whichever of them fail, the pulls that say that there may be more give the combinations of the first
batch in order, then those of the second, and so on. Once a pull says that there is nothing more, all
of them have been emitted. -/
theorem emitted_expands (hfill : Fills σ) {tables : LayoutTable} {d : Descriptor} {exprs : List Expr}
    {child : σ} {r : Repeat (Watched σ)} (h : (create tables d exprs ⟨child, []⟩).1 = .ok r)
    {calls : List Call}
    (hcalls : ∀ c output, .pull c output ∈ calls → Batch.Built r.plan.outputLayout output) :
    (∀ (n : Nat) out, (r.emitted calls)[n]? = some out →
      ∃ b rows, (r.run calls).child.delivered[n / d.keepSets.length]? = some b ∧ b.toRows = .ok rows ∧
        out.toRows = .ok
          (rows.map (d.expandRow r.plan.outputLayout.slots exprs (n % d.keepSets.length)))) ∧
      ∀ c output, Batch.Built r.plan.outputLayout output →
        ((r.run calls).pull c output).result = .ok .exhausted →
        (r.emitted calls).length =
          d.keepSets.length * ((r.run calls).pull c output).state.child.delivered.length := by
  obtain ⟨p, hp, rfl⟩ := create_ok_iff.mp h
  obtain ⟨rfl, _, hs⟩ := Plan.build_ok hp
  have hr := (replays_new p exprs child).run hs hfill hcalls
  rw [List.nil_append] at hr
  rw [← hs.numCombinations]
  exact ⟨hr.emitted, fun c output ho he => hr.length_of_exhausted hs hfill ho he⟩

/-- Two combinations of two rows, of which the first is refused by an output without room for both rows
before it is emitted, and the second by one without enough memory. Then there is nothing more. -/
theorem emitted_expands_after_refusals :
    let r := Sample.fresh (⟨Sample.child, []⟩ : Watched Script)
    let pull (capacity : Nat) (limit : Option Nat) : Call :=
      .pull Sample.context (.new Sample.layout capacity limit)
    let calls := [.start Sample.context, pull 1 none, pull 2 none, pull 2 (some 3), pull 4 none]
    let output := Batch.new Sample.layout 2 none
    (create ⟨[Sample.layout]⟩ Sample.descriptor Sample.exprs r.child).1 = .ok r ∧
      (∃ out b rows, (r.emitted calls)[1]? = some out ∧ (r.run calls).child.delivered[0]? = some b ∧
        b.toRows = .ok rows ∧
        out.toRows = .ok
          (rows.map (Sample.descriptor.expandRow Sample.layout.slots Sample.exprs 1))) ∧
      ((r.run calls).pull Sample.context output).result = .ok .exhausted ∧
      (r.emitted calls).length = Sample.descriptor.keepSets.length *
        ((r.run calls).pull Sample.context output).state.child.delivered.length := by
  intro r pull calls output
  have hr : (create ⟨[Sample.layout]⟩ Sample.descriptor Sample.exprs r.child).1 = .ok r :=
    Sample.create_eq _
  have hcalls : ∀ c output, .pull c output ∈ calls → Batch.Built Sample.layout output := by
    intro c output hm
    simp only [calls, pull, List.mem_cons, List.not_mem_nil, or_false, reduceCtorEq, false_or,
      Call.pull.injEq] at hm
    obtain ⟨_, rfl⟩ | ⟨_, rfl⟩ | ⟨_, rfl⟩ | ⟨_, rfl⟩ := hm <;> exact Batch.built_new _ _ _
  obtain ⟨hexpand, hall⟩ := emitted_expands fills_script hr hcalls
  obtain ⟨out, hout⟩ : ∃ out, (r.emitted calls)[1]? = some out :=
    Option.isSome_iff_exists.mp (by decide +kernel)
  obtain ⟨b, rows, hb, hrows, he⟩ := hexpand 1 out hout
  have hlast : ((r.run calls).pull Sample.context output).result = .ok .exhausted :=
    ok_of_toOption (by decide +kernel)
  exact ⟨hr, ⟨out, b, rows, hout, hb, hrows, he⟩, hlast,
    hall Sample.context output (Batch.built_new Sample.layout 2 none) hlast⟩

end Stepping

end GroupingSets.Repeat
