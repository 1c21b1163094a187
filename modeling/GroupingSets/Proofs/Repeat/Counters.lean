import GroupingSets.Proofs.Repeat.Plan
import GroupingSets.Proofs.Repeat.Run
import GroupingSets.Proofs.Repeat.Writes
import Mathlib.Algebra.Ring.Nat

/-! What a repeat counts. Until it is closed, the numbers it keeps say how many batches its child has
delivered, and for how many combinations each of them has been emitted. -/
namespace GroupingSets

def Watched.succeeded {σ : Type} (w : Watched σ) : Nat := w.pulls.countP (·.1.isOk)

namespace Repeat
variable {σ : Type}

/-- The rows that some batches come to when the batch in each place is emitted as many times as the place
is listed. -/
def rowsFrom (batches : List Batch) (sources : List Nat) : Nat :=
  (batches.zipIdx.map fun (b, j) => b.numRows * sources.count j).sum

private theorem rowsFrom_append (before : List Batch) (b : Batch) (sources : List Nat) :
    rowsFrom (before ++ [b]) sources =
      rowsFrom before sources + b.numRows * sources.count before.length := by
  simp [rowsFrom, List.zipIdx_append]

/-- The places behind the last batch do not matter. -/
private theorem rowsFrom_congr {batches : List Batch} {sources others : List Nat}
    (h : ∀ j < batches.length, sources.count j = others.count j) :
    rowsFrom batches sources = rowsFrom batches others := by
  refine congrArg List.sum (List.map_congr_left fun (b, j) hm => ?_)
  dsimp only
  rw [h j (List.snd_lt_of_mem_zipIdx hm)]

/-- The combinations that the batch in a place has been emitted for, out of `n`: all of them, unless it is
the one that is buffered. -/
def timesEmitted (n : Nat) (r : Repeat (Watched σ)) (place : Nat) : Nat :=
  if r.child.delivered.length ≤ place then 0
  else if r.buffered ∧ place + 1 = r.child.delivered.length then r.combination
  else n

/-- The places of the batches that the outputs of a run were written from. Each output is written from the
batch that the child has delivered last by then. -/
def sources [Operator σ] (r : Repeat (Watched σ)) : List Call → List Nat
  | [] => []
  | call :: rest =>
    (r.emits call).map (fun _ => (r.step call).child.delivered.length - 1) ++ (r.step call).sources rest

theorem length_sources [Operator σ] (r : Repeat (Watched σ)) (calls : List Call) :
    (r.sources calls).length = (r.emitted calls).length := by
  induction calls generalizing r with
  | nil => rfl
  | cons call rest ih =>
    rw [Repeat.sources, emitted, List.length_append, List.length_append, List.length_map, ih]

/-- The numbers kept by a repeat of `n` combinations are right, for outputs that were written from the
batches in the given places. -/
structure Tallies (n : Nat) (r : Repeat (Watched σ)) (sources : List Nat) : Prop where
  plan : r.plan.numCombinations = n
  combination_lt : r.combination < n
  pending : r.buffered = true → ∃ before input, r.input = some input ∧ input.numRows ≠ 0 ∧
    r.child.delivered = before ++ [input] ∧
    r.stats.outputBatches = n * before.length + r.combination
  idle : r.buffered = false → r.combination = 0 ∧
    r.stats.outputBatches = n * r.child.delivered.length
  childBatches : r.stats.childBatches = r.child.succeeded
  delivered : r.stats.childBatches = r.child.delivered.length ∨
    r.stats.childBatches = r.child.delivered.length + 1 ∧ r.childExhausted = true
  outputs : r.stats.outputBatches = sources.length
  times : ∀ j, sources.count j = r.timesEmitted n j
  rowsProduced : r.stats.rowsProduced = rowsFrom r.child.delivered sources

theorem tallies_new {p : Plan} (hp : 0 < p.numCombinations) (exprs : List Expr) (child : σ) :
    Tallies p.numCombinations { plan := p, exprs, child := (⟨child, []⟩ : Watched σ) } [] where
  plan := rfl
  combination_lt := hp
  pending h := by cases h
  idle _ := ⟨rfl, (Nat.mul_zero _).symm⟩
  childBatches := rfl
  delivered := Or.inl rfl
  outputs := rfl
  times j := rfl
  rowsProduced := rfl

variable {n : Nat} {r : Repeat (Watched σ)} {sources : List Nat}

/-- A combination is written: one more output from the batch that was delivered last. -/
private theorem Tallies.advanced (h : Tallies n r sources) {before : List Batch} {input : Batch}
    (hb : r.buffered = true) (hd : r.child.delivered = before ++ [input])
    (hi : r.input = some input) (hz : input.numRows ≠ 0)
    (ho : r.stats.outputBatches = n * before.length + r.combination) :
    Tallies n (r.advanced input input.numRows) (sources ++ [before.length]) := by
  have hlt := h.combination_lt
  have hlen : r.child.delivered.length = before.length + 1 := by rw [hd, List.length_append]; rfl
  have hrows : rowsFrom r.child.delivered (sources ++ [before.length]) =
      r.stats.rowsProduced + input.numRows := by
    have hcount : (sources ++ [before.length]).count before.length = sources.count before.length + 1 := by
      simp
    have hothers : rowsFrom before (sources ++ [before.length]) = rowsFrom before sources := by
      refine rowsFrom_congr fun j hj => ?_
      rw [List.count_append, List.count_singleton, if_neg (by simp; omega), Nat.add_zero]
    rw [h.rowsProduced, hd, rowsFrom_append, rowsFrom_append, hcount, hothers, Nat.mul_succ, Nat.add_assoc]
  have htimes (j : Nat) : (sources ++ [before.length]).count j =
      r.timesEmitted n j + if before.length = j then 1 else 0 := by
    rw [List.count_append, h.times, List.count_singleton]
    simp
  unfold Repeat.advanced
  dsimp only
  split
  · next hlast =>
    rw [h.plan] at hlast
    refine ⟨h.plan, by dsimp only; omega, (fun hf => nomatch hf), fun _ => ⟨rfl, ?_⟩, h.childBatches,
      h.delivered, ?_, fun j => ?_, hrows.symm⟩
    · dsimp only
      rw [hlen, ho, Nat.mul_succ]
      omega
    · rw [List.length_append, ← h.outputs]
      rfl
    · rw [htimes]
      simp only [timesEmitted, hlen, hb]
      grind
  · next hmore =>
    rw [h.plan] at hmore
    refine ⟨h.plan, by dsimp only; omega, fun _ => ⟨before, input, hi, hz, hd, ?_⟩, fun hf => ?_,
      h.childBatches, h.delivered, ?_, fun j => ?_, hrows.symm⟩
    · dsimp only
      omega
    · rw [show r.buffered = false from hf] at hb
      cases hb
    · rw [List.length_append, ← h.outputs]
      rfl
    · rw [htimes]
      simp only [timesEmitted, hlen, hb]
      grind

/-- Emitting adds an output from the batch that was delivered last, or changes nothing. -/
private theorem Tallies.emit (h : Tallies n r sources) (hb : r.buffered = true) {output : Batch}
    (he : output.numRows = 0) :
    Tallies n (r.emit output).state
      (sources ++ (r.emit output).emitted.map fun _ => r.child.delivered.length - 1) := by
  obtain ⟨before, input, hi, hz, hd, ho⟩ := h.pending hb
  have hem := emission hi output
  generalize r.emit output = pulled at hem
  cases hem with
  | faulted fault b _ =>
    rw [Pulled.emitted, List.map_nil, List.append_nil]
    exact h
  | failed e b _ =>
    rw [Pulled.emitted, List.map_nil, List.append_nil]
    exact h
  | written b events hw =>
    have hrows := r.plan.numRows_writeCombination r.exprs r.combination hw
    rw [he, Nat.zero_add] at hrows
    have hlast : r.child.delivered.length - 1 = before.length := by
      rw [hd, List.length_append]
      rfl
    rw [Pulled.emitted, List.map_singleton, hlast, hrows]
    exact h.advanced hb hd hi hz ho

/-- The child has delivered every batch it was pulled for, as long as it has not said that it is through. -/
private theorem Tallies.childBatches_eq (h : Tallies n r sources) (hx : r.childExhausted = false) :
    r.stats.childBatches = r.child.delivered.length :=
  h.delivered.resolve_right fun hmore => by rw [hx] at hmore; cases hmore.2

/-- A pull of the child that delivers nothing leaves what the numbers say of the outputs. -/
private theorem Tallies.undelivered (h : Tallies n r sources) (hb : r.buffered = false)
    {child : Watched σ} {input : Option Batch} {count : Nat} {exhausted : Bool}
    (hd : child.delivered = r.child.delivered) (hs : count = child.succeeded)
    (hn : count = r.child.delivered.length ∨
      count = r.child.delivered.length + 1 ∧ exhausted = true) :
    Tallies n { r with
      child, input, childExhausted := exhausted
      stats := { r.stats with childBatches := count } } sources where
  plan := h.plan
  combination_lt := h.combination_lt
  pending hb' := by
    rw [show r.buffered = true from hb'] at hb
    cases hb
  idle _ := by
    rw [hd]
    exact h.idle hb
  childBatches := hs
  delivered := by
    rw [hd]
    exact hn
  outputs := h.outputs
  times j := by
    rw [h.times, timesEmitted, timesEmitted, hd]
  rowsProduced := by
    rw [hd]
    exact h.rowsProduced

variable [Operator σ]

private theorem succeeded_fetch (r : Repeat (Watched σ)) (c : Context) :
    (r.fetch c).state.succeeded = r.child.succeeded + if (r.fetch c).result.isOk then 1 else 0 := by
  have hp : (r.fetch c).state.pulls = r.child.pulls ++ [((r.fetch c).result, (r.fetch c).output)] := rfl
  rw [Watched.succeeded, hp, List.countP_append, List.countP_singleton]
  rfl

private theorem Tallies.start (h : Tallies n r sources) (c : Context) : Tallies n (r.start c).state sources := by
  obtain ⟨exprs, phase, _, _, hs | hs⟩ := r.start_state c
  · rw [hs]
    exact { h with }
  · rw [hs]
    exact { h with }

/-- A pull of the child that fails changes no number. -/
private theorem Tallies.received (h : Tallies n r sources) {c : Context} (hb : r.buffered = false)
    {failure : Failure} (hf : (r.fetch c).result = .error failure) :
    Tallies n (r.received c) sources := by
  have hd : (r.fetch c).state.delivered = r.child.delivered :=
    delivered_fetch_none fun progress ho => by rw [hf] at ho; cases ho
  have hs : (r.fetch c).state.succeeded = r.child.succeeded := by
    have := r.succeeded_fetch c
    rwa [hf] at this
  exact h.undelivered hb hd (h.childBatches.trans hs.symm) h.delivered

/-- A batch without rows is counted, and is the last one. -/
private theorem Tallies.drained (h : Tallies n r sources) {c : Context} (hb : r.buffered = false)
    (hx : r.childExhausted = false) {progress : Progress} (hf : (r.fetch c).result = .ok progress)
    (hz : (r.fetch c).output.numRows = 0) : Tallies n (r.drained c) sources := by
  have hd : (r.fetch c).state.delivered = r.child.delivered := delivered_fetch_none fun _ _ => hz
  have hs : (r.fetch c).state.succeeded = r.child.succeeded + 1 := by
    have := r.succeeded_fetch c
    rwa [hf] at this
  have hcount : r.stats.childBatches + 1 = (r.fetch c).state.succeeded := by rw [hs, h.childBatches]
  exact h.undelivered hb hd hcount (Or.inr ⟨by rw [h.childBatches_eq hx], rfl⟩)

/-- A batch with rows is counted, and has been emitted for no combination. -/
private theorem Tallies.loaded (h : Tallies n r sources) {c : Context} (hb : r.buffered = false)
    (hx : r.childExhausted = false) {progress : Progress} (hf : (r.fetch c).result = .ok progress)
    (hz : (r.fetch c).output.numRows ≠ 0) : Tallies n (r.loaded c progress) sources := by
  have hd : (r.loaded c progress).child.delivered = r.child.delivered ++ [(r.fetch c).output] :=
    delivered_fetch hf hz
  have hs : (r.loaded c progress).child.succeeded = r.child.succeeded + 1 := by
    have := r.succeeded_fetch c
    rwa [hf] at this
  have hall : r.stats.childBatches = r.child.delivered.length := h.childBatches_eq hx
  have hnone : sources.count r.child.delivered.length = 0 := by
    rw [h.times, timesEmitted, if_pos (Nat.le_refl _)]
  obtain ⟨_, ho⟩ := h.idle hb
  exact
    { plan := h.plan
      combination_lt := Nat.lt_of_le_of_lt (Nat.zero_le _) h.combination_lt
      pending := fun _ => ⟨r.child.delivered, (r.fetch c).output, rfl, hz, hd, ho⟩
      idle := fun hf => nomatch hf
      childBatches := by rw [hs, ← h.childBatches]; rfl
      delivered := Or.inl (by rw [hd, List.length_append, ← hall]; rfl)
      outputs := h.outputs
      times := fun j => by
        rw [h.times, timesEmitted, timesEmitted, hd, List.length_append, hb,
          show (r.loaded c progress).combination = 0 from rfl,
          show (r.loaded c progress).buffered = true from rfl]
        grind
      rowsProduced := by
        rw [hd, rowsFrom_append, hnone]
        exact h.rowsProduced }

private theorem Tallies.pull (h : Tallies n r sources) (c : Context) (output : Batch) :
    Tallies n (r.pull c output).state (sources ++
      (r.pull c output).emitted.map fun _ => (r.pull c output).state.child.delivered.length - 1) := by
  have hpoll := polled r c output
  generalize r.pull c output = pulled at hpoll
  cases hpoll with
  | refused e _ =>
    rw [Pulled.emitted, List.map_nil, List.append_nil]
    exact h
  | again hp hb =>
    rw [(r.emit_leaves output).1]
    exact h.emit hb (Batch.isEmpty_iff output |>.mp hp.2.2)
  | finished _ _ _ =>
    rw [Pulled.emitted, List.map_nil, List.append_nil]
    exact h
  | failed failure events _ hb _ hf =>
    rw [Pulled.emitted, List.map_nil, List.append_nil]
    exact h.received hb hf
  | drained progress events _ hb hx hf hz =>
    rw [Pulled.emitted, List.map_nil, List.append_nil]
    exact h.drained hb hx hf hz
  | loaded progress events hp hb hx hf hz =>
    dsimp only
    rw [((r.loaded c progress).emit_leaves output).1]
    exact (h.loaded hb hx hf hz).emit rfl (Batch.isEmpty_iff output |>.mp hp.2.2)

/-- A pull that says that there may be more has written the combination that is due from the batch that the
child delivered last, which has rows. A batch that was buffered before is this one. -/
theorem Tallies.written (h : Tallies n r sources) {c : Context} {output : Batch}
    (hm : (r.pull c output).result = .ok .hasMore) :
    ∃ input, (r.pull c output).state.child.delivered.getLast? = some input ∧ input.numRows ≠ 0 ∧
      (r.buffered = true → r.input = some input) ∧
      r.plan.writeCombination r.exprs input r.combination output = (.ok (), (r.pull c output).output) := by
  have hpoll := polled r c output
  generalize r.pull c output = pulled at hpoll hm ⊢
  cases hpoll with
  | refused e _ => cases hm
  | again _ hb =>
    obtain ⟨before, input, hi, hz, hd, _⟩ := h.pending hb
    refine ⟨input, ?_, hz, fun _ => hi, emit_hasMore hi hm⟩
    rw [(r.emit_leaves output).1, hd, List.getLast?_concat]
  | finished _ _ _ => cases hm
  | failed failure events _ _ _ _ => cases hm
  | drained progress events _ _ _ _ _ => cases hm
  | loaded progress events _ hb hx hf hz =>
    have hw := emit_hasMore (r := r.loaded c progress) rfl hm
    rw [show (r.loaded c progress).combination = r.combination from (h.idle hb).1.symm] at hw
    refine ⟨(r.fetch c).output, ?_, hz, fun hb' => ?_, hw⟩
    · dsimp only
      rw [((r.loaded c progress).emit_leaves output).1]
      exact (congrArg List.getLast? (delivered_fetch hf hz)).trans List.getLast?_concat
    · rw [hb'] at hb
      cases hb

private theorem Tallies.step (h : Tallies n r sources) {call : Call} (ho : (r.step call).phase ≠ .closed) :
    Tallies n (r.step call)
      (sources ++ (r.emits call).map fun _ => (r.step call).child.delivered.length - 1) := by
  cases call with
  | start c =>
    rw [emits, List.map_nil, List.append_nil]
    exact h.start c
  | pull c output => exact h.pull c output
  | close c => exact absurd ((r.step_phase_closed _).mpr (Or.inr ⟨c, rfl⟩)) ho

/-- Whatever the calls of a run come to, the numbers are right until the repeat is closed. -/
theorem Tallies.run (h : Tallies n r sources) {calls : List Call} (ho : (r.run calls).phase ≠ .closed) :
    Tallies n (r.run calls) (sources ++ r.sources calls) := by
  induction calls generalizing r sources with
  | nil =>
    rw [Repeat.sources, List.append_nil]
    exact h
  | cons call rest ih =>
    have hstep : (r.step call).phase ≠ .closed := fun hc => ho ((run_phase_closed _ rest).mpr (Or.inl hc))
    rw [Repeat.sources, ← List.append_assoc]
    exact ih (h.step hstep) ho

/-- However a repeat is called before it is closed, and whichever calls fail, what it counts is what
happened. The combination is one of the plan's. A batch that is buffered has rows and is the last that was
delivered; the others have been emitted for every combination, and it has been up to the one that is due.
The batches that are counted are the pulls of the child that succeeded, of which only the last can be
without rows. The rows that are counted are those of each batch, once for every output written from it. -/
theorem counters_consistent {tables : LayoutTable} {d : Descriptor} {exprs : List Expr} {child : σ}
    {r : Repeat (Watched σ)} (h : (create tables d exprs ⟨child, []⟩).1 = .ok r) {calls : List Call}
    (hcalls : ∀ c, .close c ∉ calls) :
    let s := r.run calls
    let combinations := d.keepSets.length
    let delivered := s.child.delivered
    s.combination < combinations ∧
      (s.buffered = true →
        (∃ input, s.input = some input ∧ delivered.getLast? = some input ∧ input.numRows ≠ 0) ∧
          s.stats.outputBatches = combinations * (delivered.length - 1) + s.combination) ∧
      (s.buffered = false →
        s.combination = 0 ∧ s.stats.outputBatches = combinations * delivered.length) ∧
      s.stats.childBatches = s.child.succeeded ∧
      (s.stats.childBatches = delivered.length ∨
        s.stats.childBatches = delivered.length + 1 ∧ s.childExhausted = true) ∧
      s.stats.rowsProduced = rowsFrom delivered (r.sources calls) ∧
      ∀ j, (r.sources calls).count j = s.timesEmitted combinations j := by
  intro s combinations delivered
  obtain ⟨p, hp, rfl⟩ := create_ok_iff.mp h
  obtain ⟨rfl, _, hs⟩ := Plan.build_ok hp
  let fresh : Repeat (Watched σ) := { plan := p, exprs, child := ⟨child, []⟩ }
  have hopen : (fresh.run calls).phase ≠ .closed := by
    rw [Ne, run_phase_closed]
    rintro (hp | ⟨c, hc⟩)
    · cases hp
    · exact hcalls c hc
  have ht := (tallies_new hs.combinations_pos exprs child).run hopen
  rw [List.nil_append, hs.numCombinations] at ht
  refine ⟨ht.combination_lt, fun hb => ?_, ht.idle, ht.childBatches, ht.delivered, ht.rowsProduced,
    ht.times⟩
  obtain ⟨before, input, hi, hz, hd, ho⟩ := ht.pending hb
  refine ⟨⟨input, hi, ?_, hz⟩, ?_⟩
  · rw [show delivered = before ++ [input] from hd, List.getLast?_concat]
  · rw [show delivered = before ++ [input] from hd, List.length_append]
    exact ho

/-- After a start, an output without room for the two rows that are delivered, and one with room. -/
theorem counters_after_refusal :
    let r := Sample.fresh (⟨Sample.child, []⟩ : Watched Script)
    let pull (capacity : Nat) : Call := .pull Sample.context (.new Sample.layout capacity none)
    let calls := [.start Sample.context, pull 1, pull 2]
    let s := r.run calls
    s.buffered = true ∧ s.stats.outputBatches = 1 ∧ s.stats.rowsProduced = 2 ∧
      s.stats.outputBatches =
        Sample.descriptor.keepSets.length * (s.child.delivered.length - 1) + s.combination ∧
      s.stats.rowsProduced = rowsFrom s.child.delivered (r.sources calls) := by
  intro r pull calls s
  have hcalls : ∀ c, .close c ∉ calls := by
    intro c hm
    simp [calls, pull] at hm
  have hb : s.buffered = true := by decide +kernel
  obtain ⟨_, hpending, _, _, _, hrows, _⟩ := counters_consistent (Sample.create_eq r.child) hcalls
  exact ⟨hb, by decide +kernel, by decide +kernel, (hpending hb).2, hrows⟩

end Repeat

end GroupingSets
