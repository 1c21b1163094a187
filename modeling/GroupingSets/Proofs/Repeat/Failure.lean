import GroupingSets.Proofs.Repeat.Run

/-! What a pull that fails leaves behind: an output without rows, and what is buffered still to be
emitted. -/
namespace GroupingSets.Repeat
variable {σ : Type}

/-- A batch that is buffered has rows, and is there only while the repeat is open. -/
def Holding (r : Repeat σ) : Prop :=
  r.buffered = true → r.phase = .opened ∧ ∃ b, r.input = some b ∧ b.numRows ≠ 0

private theorem Holding.emit {r : Repeat σ} (h : r.Holding) (output : Batch) : (r.emit output).state.Holding := by
  cases hi : r.input with
  | none =>
    rw [emit_none hi]
    exact h
  | some input =>
    have hem := emission hi output
    generalize r.emit output = pulled at hem
    cases hem with
    | faulted fault b _ => exact h
    | failed e b _ => exact h
    | written b events _ =>
      dsimp only
      unfold advanced
      dsimp only
      split
      · intro hb
        cases hb
      · exact h

/-- A failure to write a combination leaves the state, and an output that was reset. -/
private theorem emit_error {r : Repeat σ} {input output : Batch} (hi : r.input = some input) {e : Error}
    (he : (r.emit output).result = .error (.error e)) :
    ∃ b : Batch, r.emit output = { result := .error (.error e), state := r, output := b.reset } := by
  have hem := emission hi output
  generalize r.emit output = pulled at hem he ⊢
  cases hem with
  | faulted fault b _ => cases he
  | failed e b _ =>
    cases he
    exact ⟨b, rfl⟩
  | written b events _ => cases he

variable [Operator σ]

private theorem Holding.pull {r : Repeat σ} (h : r.Holding) (c : Context) (output : Batch) :
    (r.pull c output).state.Holding := by
  have hpoll := polled r c output
  generalize r.pull c output = pulled at hpoll
  cases hpoll with
  | refused e _ => exact h
  | again _ _ => exact h.emit output
  | finished _ _ _ => exact h
  | failed failure events _ hb _ _ =>
    intro hb'
    rw [show r.buffered = true from hb'] at hb
    cases hb
  | drained progress events _ hb _ _ _ =>
    intro hb'
    rw [show r.buffered = true from hb'] at hb
    cases hb
  | loaded progress events hp _ _ _ hz =>
    have hl : (r.loaded c progress).Holding := fun _ => ⟨hp.2.1, (r.fetch c).output, rfl, hz⟩
    exact hl.emit output

private theorem Holding.start {r : Repeat σ} (h : r.Holding) (c : Context) : (r.start c).state.Holding := by
  obtain ⟨exprs, phase, _, hphase, hs⟩ := r.start_state c
  have hopen (hb : r.buffered = true) : phase = .opened := by
    rcases hphase with he | ⟨_, he⟩
    · exact he.trans (h hb).1
    · exact he
  rcases hs with hs | hs
  · rw [hs]
    exact fun hb => ⟨hopen hb, (h hb).2⟩
  · rw [hs]
    exact fun hb => ⟨hopen hb, (h hb).2⟩

private theorem Holding.close {r : Repeat σ} (h : r.Holding) (c : Context) : (r.close c).state.Holding := by
  rcases r.close_state c with ⟨_, hs⟩ | hs
  · rw [hs]
    exact h
  · rw [hs]
    intro hb
    cases hb

private theorem Holding.step {r : Repeat σ} (h : r.Holding) (call : Call) : (r.step call).Holding := by
  cases call with
  | start c => exact h.start c
  | pull c output => exact h.pull c output
  | close c => exact h.close c

private theorem Holding.run {r : Repeat σ} (h : r.Holding) (calls : List Call) : (r.run calls).Holding := by
  induction calls generalizing r with
  | nil => exact h
  | cons call rest ih => exact ih (h.step call)

/-! The next pull. -/

def Idle (r : Repeat σ) : List Call → Prop
  | [] => True
  | call :: rest => (∀ c output, call = .pull c output → ¬ r.Passes c output) ∧ (r.step call).Idle rest

theorem pull_again {r : Repeat σ} {c : Context} {output : Batch} (hp : r.Passes c output)
    (hb : r.buffered = true) : r.pull c output = r.emit output := by
  have hpoll := polled r c output
  generalize r.pull c output = pulled at hpoll
  cases hpoll with
  | refused e hn => exact absurd hp hn
  | again _ _ => rfl
  | finished _ hf _ => rw [hb] at hf; cases hf
  | failed failure events _ hf _ _ => rw [hb] at hf; cases hf
  | drained progress events _ hf _ _ _ => rw [hb] at hf; cases hf
  | loaded progress events _ hf _ _ _ => rw [hb] at hf; cases hf

/-- Unless it is closed, an open repeat stays as it is while no pull passes its checks. -/
private theorem Idle.run {r : Repeat σ} (ho : r.phase = .opened) {calls : List Call} (h : r.Idle calls) :
    r.run calls = r ∨ (r.run calls).phase = .closed := by
  induction calls with
  | nil => exact Or.inl rfl
  | cons call rest ih =>
    obtain ⟨hcall, hrest⟩ := h
    cases call with
    | start c =>
      have hs : r.step (.start c) = r := by rw [step, Repeat.start, ho]
      rw [hs] at hrest
      rw [Repeat.run, List.foldl_cons, hs]
      exact ih hrest
    | pull c output =>
      have hs : r.step (.pull c output) = r := pull_refused (hcall c output rfl)
      rw [hs] at hrest
      rw [Repeat.run, List.foldl_cons, hs]
      exact ih hrest
    | close c =>
      have hs : (r.step (.close c)).phase = .closed := by rw [step, Repeat.close, ho]
      refine Or.inr ?_
      rw [Repeat.run, List.foldl_cons, show rest.foldl step (r.step (.close c)) = _ from run_closed hs rest]
      exact hs

/-- Whatever is called until then, the next pull that passes its checks writes the combination that is
due, from the rows that are buffered and without pulling the child. -/
def Due (r : Repeat σ) : Prop :=
  ∃ b, r.input = some b ∧ b.numRows ≠ 0 ∧
    ∀ calls, r.Idle calls → ∀ c output, (r.run calls).Passes c output →
      let written := r.plan.writeCombination r.exprs b r.combination output
      let pulled := (r.run calls).pull c output
      pulled.result = written.1.map (fun _ => .hasMore) ∧ (written.1 = .ok () → pulled.output = written.2) ∧
        pulled.state.child = r.child

private theorem Holding.due {r : Repeat σ} (h : r.Holding) (hb : r.buffered = true) : r.Due := by
  obtain ⟨ho, b, hi, hz⟩ := h hb
  refine ⟨b, hi, hz, fun calls hidle c output hp => ?_⟩
  rcases hidle.run ho with hr | hr
  · rw [hr] at hp ⊢
    dsimp only
    rw [pull_again hp hb]
    have hem := emission hi output
    generalize r.emit output = pulled at hem
    cases hem with
    | faulted fault c hw =>
      rw [hw]
      exact ⟨rfl, (fun hc => nomatch hc), rfl⟩
    | failed e c hw =>
      rw [hw]
      exact ⟨rfl, (fun hc => nomatch hc), rfl⟩
    | written c events hw =>
      rw [hw]
      exact ⟨rfl, fun _ => rfl, r.advanced_child b c.numRows⟩
  · rw [hp.2.1] at hr
    cases hr

/-- Nothing is lost by a pull. What was in the output is still there; an empty output is empty again, and
has given back its memory if rows were being written. What was buffered is still due. What the child
delivered is buffered, from the first combination on. -/
structure Lossless (r : Repeat (Watched σ)) (c : Context) (output : Batch)
    (p : Pulled (Repeat (Watched σ))) : Prop where
  output_kept : output.numRows ≠ 0 → p.output = output
  output_empty : output.numRows = 0 → p.output.numRows = 0 ∧ p.output.arena.heap = #[]
  output_released : r.Passes c output → p.state.buffered = true → p.output.arena.reserved = 0
  phase : p.state.phase = r.phase
  held : r.buffered = true → p.state = r
  filled : r.buffered = false →
    (p.state.buffered = false ∧ p.state.combination = r.combination ∧ p.state.stats = r.stats ∧
        (p.state.child.pulls = r.child.pulls ∨
          ∃ failure b, p.state.child.pulls = r.child.pulls ++ [(.error failure, b)])) ∨
      ∃ progress b, b.numRows ≠ 0 ∧ p.state.child.pulls = r.child.pulls ++ [(.ok progress, b)] ∧
        p.state.buffered = true ∧ p.state.input = some b ∧ p.state.combination = 0 ∧
        p.state.stats = { r.stats with childBatches := r.stats.childBatches + 1 }
  due : p.state.buffered = true → p.state.Due

private theorem Holding.lossless {r : Repeat (Watched σ)} (h : r.Holding) (c : Context) {output : Batch}
    (hv : output.Valid) {e : Error} (he : (r.pull c output).result = .error (.error e)) :
    Lossless r c output (r.pull c output) := by
  have hafter := h.pull c output
  have hpoll := polled r c output
  generalize r.pull c output = pulled at hpoll he hafter ⊢
  cases hpoll with
  | refused e hn =>
    exact
      { output_kept := fun _ => rfl
        output_empty := fun hz => ⟨hz, hv.heap_empty hz⟩
        output_released := fun hp => absurd hp hn
        phase := rfl
        held := fun _ => rfl
        filled := fun hb => Or.inl ⟨hb, rfl, rfl, Or.inl rfl⟩
        due := h.due }
  | again hp hb =>
    obtain ⟨_, input, hi, _⟩ := h hb
    obtain ⟨b, hem⟩ := emit_error hi he
    rw [hem]
    exact
      { output_kept := fun hz => absurd (Batch.isEmpty_iff output |>.mp hp.2.2) hz
        output_empty := fun _ => ⟨rfl, rfl⟩
        output_released := fun _ _ => rfl
        phase := rfl
        held := fun _ => rfl
        filled := fun hb' => by
          rw [hb] at hb'
          cases hb'
        due := h.due }
  | finished _ _ _ => cases he
  | failed failure events hp hb hx hf =>
    exact
      { output_kept := fun _ => rfl
        output_empty := fun hz => ⟨hz, hv.heap_empty hz⟩
        output_released := fun _ hb' => by
          rw [show r.buffered = true from hb'] at hb
          cases hb
        phase := rfl
        held := fun hb' => by
          rw [hb'] at hb
          cases hb
        filled := fun _ => Or.inl ⟨hb, rfl, rfl, Or.inr ⟨failure, (r.fetch c).output, by rw [← hf]; rfl⟩⟩
        due := hafter.due }
  | drained progress events _ _ _ _ _ => cases he
  | loaded progress events hp hb hx hf hz =>
    obtain ⟨b, hem⟩ := emit_error (r := r.loaded c progress) rfl he
    rw [hem] at hafter ⊢
    exact
      { output_kept := fun hn => absurd (Batch.isEmpty_iff output |>.mp hp.2.2) hn
        output_empty := fun _ => ⟨rfl, rfl⟩
        output_released := fun _ _ => rfl
        phase := rfl
        held := fun hb' => by
          rw [hb'] at hb
          cases hb
        filled := fun _ =>
          Or.inr ⟨progress, (r.fetch c).output, hz, by rw [← hf]; rfl, rfl, rfl, rfl, rfl⟩
        due := hafter.due }

/-- A pull that reports an error loses nothing, in whatever state it finds the repeat. -/
theorem pull_error_lossless {tables : LayoutTable} {d : Descriptor} {exprs : List Expr} {child : σ}
    {created : Repeat (Watched σ)} (h : (create tables d exprs ⟨child, []⟩).1 = .ok created)
    (calls : List Call) (c : Context) {layout : Layout} {output : Batch}
    (ho : Batch.Built layout output) {e : Error}
    (he : ((created.run calls).pull c output).result = .error (.error e)) :
    Lossless (created.run calls) c output ((created.run calls).pull c output) := by
  obtain ⟨p, _, rfl⟩ := create_ok_iff.mp h
  refine Holding.lossless (Holding.run ?_ calls) c ho.valid he
  intro hb
  cases hb

/-- An output without room for the two rows that are delivered: they are buffered. -/
theorem pull_too_small_lossless :
    let r := (Sample.fresh (⟨Sample.child, []⟩ : Watched Script)).run [.start Sample.context]
    let output := Batch.new Sample.layout 1 none
    let pulled := r.pull Sample.context output
    pulled.result = .error (.error (.outputTooSmall 1 2)) ∧ pulled.state.buffered = true ∧
      Lossless r Sample.context output pulled := by
  intro r output pulled
  have hr : pulled.result = .error (.error (.outputTooSmall 1 2)) := by
    have h : (match pulled.result with
        | .error (.error (.outputTooSmall 1 2)) => true
        | _ => false) = true := by decide +kernel
    split at h
    · assumption
    · cases h
  exact ⟨hr, by decide +kernel, pull_error_lossless (Sample.create_eq _) [.start Sample.context]
    Sample.context (Batch.built_new Sample.layout 1 none) hr⟩

end GroupingSets.Repeat
