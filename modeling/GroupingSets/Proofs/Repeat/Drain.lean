import GroupingSets.Proofs.Operator.Values
import GroupingSets.Proofs.Repeat.Replay
import GroupingSets.Proofs.Repeat.View

/-! Draining a repeat over values. The rows are dealt out in chunks, and each chunk is emitted once for each
combination; put together again, the rows of a combination do not tell the size of the chunks. -/
namespace GroupingSets.Repeat

section Polling
variable {τ σ : Type} [Operator τ] [Operator σ]

def polls (r : Repeat σ) : List (Context × Batch) → List (Pulled (Repeat σ))
  | [] => []
  | (c, output) :: rest => r.pull c output :: (r.pull c output).state.polls rest

def reusing (r : Repeat σ) (c : Context) (output : Batch) : Nat → List (Context × Batch)
  | 0 => []
  | count + 1 =>
    (c, output) :: (r.pull c output).state.reusing c (r.pull c output).output.reset count

private theorem cleared_reusing {layout : Layout} {capacity : Nat} {limit : Option Nat} {r : Repeat σ} {c : Context}
    {output : Batch} (h : Batch.Cleared layout capacity limit output) (count : Nat) :
    ∀ q ∈ r.reusing c output count, q.1 = c ∧ Batch.Cleared layout capacity limit q.2 := by
  induction count generalizing r output with
  | zero => exact fun q hq => nomatch hq
  | succ count ih => exact List.forall_mem_cons.mpr ⟨⟨rfl, h⟩, ih (cleared_pull h r c)⟩

private theorem exists_pull_of_mem_polls {r : Repeat σ} {requests : List (Context × Batch)}
    {pulled : Pulled (Repeat σ)}
    (h : pulled ∈ r.polls requests) : ∃ s : Repeat σ, ∃ q ∈ requests, pulled = s.pull q.1 q.2 := by
  induction requests generalizing r with
  | nil => cases h
  | cons request rest ih =>
    rcases List.mem_cons.mp h with rfl | hm
    · exact ⟨r, request, List.mem_cons_self, rfl⟩
    · obtain ⟨s, q, hq, he⟩ := ih hm
      exact ⟨s, q, List.mem_cons_of_mem _ hq, he⟩

private theorem polls_view {f : τ → σ} (hf : Operator.View f) (r : Repeat τ) (requests : List (Context × Batch)) :
    (r.view f).polls requests = (r.polls requests).map (Pulled.map (view f)) := by
  induction requests generalizing r with
  | nil => rfl
  | cons request rest ih =>
    rw [polls, polls, pull_view hf, List.map_cons, ← ih]
    rfl

private theorem emitted_polls (r : Repeat σ) (requests : List (Context × Batch)) :
    (r.polls requests).flatMap Pulled.emitted = r.emitted (requests.map fun q => .pull q.1 q.2) := by
  induction requests generalizing r with
  | nil => rfl
  | cons request rest ih =>
    rw [polls, List.flatMap_cons, ih]
    rfl

end Polling

/-- The values that are left and the batches that were delivered are what comes of dealing out the rows. -/
structure Dealt (size : Nat) (rows : List (List Scalar)) (r : Repeat (Watched Values)) : Prop where
  same : r.child.inner.rows = rows
  offset : r.child.inner.offset = min (size * r.child.delivered.length) rows.length
  input : ∀ b, r.input = some b → b.Valid ∧ b.capacity = size
  delivered : ∀ (j : Nat) b, r.child.delivered[j]? = some b → b.toRows = .ok (chunk size rows j)
  within : r.child.delivered.length ≤ rows.length ⌈/⌉ size
  ended : r.childExhausted = true → rows.length ≤ size * r.child.delivered.length

section Dealing
variable {size : Nat} {rows : List (List Scalar)} {r : Repeat (Watched Values)}

private theorem Dealt.emit (h : Dealt size rows r) (output : Batch) : Dealt size rows (r.emit output).state := by
  obtain ⟨hc, _, hx⟩ := r.emit_leaves output
  refine ⟨by rw [hc]; exact h.same, by rw [hc]; exact h.offset, fun b hb => ?_,
    by rw [hc]; exact h.delivered, by rw [hc]; exact h.within, by rw [hc, hx]; exact h.ended⟩
  rcases emit_input hb with hi | ⟨input, hi, rfl⟩
  · exact h.input b hi
  · exact ⟨(h.input input hi).1.reset, (h.input input hi).2⟩

private theorem Dealt.handed (h : Dealt size rows r) {c : Context} (hc : c.settings.batchSize.toNat = size) :
    (r.handed c).Valid ∧ (r.handed c).numRows = 0 ∧ (r.handed c).capacity = size := by
  rw [Repeat.handed]
  cases hi : r.input with
  | none => exact ⟨(Batch.valid_new _ _ _).reset, rfl, hc⟩
  | some input => exact ⟨(h.input input hi).1.reset, rfl, (h.input input hi).2⟩

private theorem Dealt.input_fetch (h : Dealt size rows r) {c : Context} (hc : c.settings.batchSize.toNat = size) :
    (r.fetch c).output.Valid ∧ (r.fetch c).output.capacity = size := by
  obtain ⟨hv, _, hcap⟩ := h.handed hc
  obtain ⟨ops, ho⟩ := fills_watched fills_values c r.child (r.handed c)
  obtain ⟨hv', _, hcap'⟩ := hv.after_keeps ops
  rw [fetch, ho]
  exact ⟨hv', hcap'.trans hcap⟩

/-- A pull of the values that succeeds delivers the next chunk. -/
private theorem Dealt.fetched (h : Dealt size rows r) {c : Context} (hc : c.settings.batchSize.toNat = size)
    {progress : Progress} (hf : (r.fetch c).result = .ok progress) :
    (r.fetch c).output.Holds (chunk size rows r.child.delivered.length) ∧
      (r.fetch c).state.inner.rows = rows ∧
      (r.fetch c).state.inner.offset = min (size * (r.child.delivered.length + 1)) rows.length ∧
      (progress = .exhausted ↔ rows.length ≤ size * (r.child.delivered.length + 1)) := by
  obtain ⟨hv, hn, hcap⟩ := h.handed hc
  obtain rfl := h.same
  exact Values.pull_chunk h.offset hv hn hcap hf

/-- A pull of the values that fails leaves what there is to deal out. -/
private theorem Dealt.received (h : Dealt size rows r) {c : Context} (hc : c.settings.batchSize.toNat = size)
    {failure : Failure} (hf : (r.fetch c).result = .error failure) : Dealt size rows (r.received c) := by
  have hd : (r.received c).child.delivered = r.child.delivered :=
    delivered_fetch_none fun progress ho => by rw [hf] at ho; cases ho
  have hi : (r.received c).child.inner = r.child.inner := Values.pull_error hf
  exact
    { same := by rw [hi]; exact h.same
      offset := by rw [hi, hd]; exact h.offset
      input := fun b hb => by cases hb; exact h.input_fetch hc
      delivered := by rw [hd]; exact h.delivered
      within := by rw [hd]; exact h.within
      ended := by rw [hd]; exact h.ended }

/-- An empty chunk comes only behind the last row. -/
private theorem Dealt.drained (hs : 0 < size) (h : Dealt size rows r) {c : Context}
    (hc : c.settings.batchSize.toNat = size) {progress : Progress}
    (hf : (r.fetch c).result = .ok progress) (hz : (r.fetch c).output.numRows = 0) :
    Dealt size rows (r.drained c) := by
  have hd : (r.drained c).child.delivered = r.child.delivered := delivered_fetch_none fun _ _ => hz
  obtain ⟨hrows, hsame, hoff, _⟩ := h.fetched hc hf
  have hend : rows.length ≤ size * r.child.delivered.length := by
    rw [hrows.numRows, length_chunk] at hz
    omega
  exact
    { same := hsame
      offset := by
        rw [hd, show (r.drained c).child.inner.offset = _ from hoff, Nat.mul_succ]
        omega
      input := fun b hb => by cases hb; exact h.input_fetch hc
      delivered := by rw [hd]; exact h.delivered
      within := by rw [hd]; exact h.within
      ended := fun _ => by rw [hd]; exact hend }

private theorem Dealt.loaded (hs : 0 < size) (h : Dealt size rows r) {c : Context}
    (hc : c.settings.batchSize.toNat = size) {progress : Progress}
    (hf : (r.fetch c).result = .ok progress) (hz : (r.fetch c).output.numRows ≠ 0) :
    Dealt size rows (r.loaded c progress) := by
  have hd : (r.loaded c progress).child.delivered = r.child.delivered ++ [(r.fetch c).output] :=
    delivered_fetch hf hz
  have hlen : (r.loaded c progress).child.delivered.length = r.child.delivered.length + 1 := by
    rw [hd, List.length_append]
    rfl
  obtain ⟨hrows, hsame, hoff, hlast⟩ := h.fetched hc hf
  have hmore : size * r.child.delivered.length < rows.length := by
    rw [hrows.numRows, length_chunk] at hz
    omega
  exact
    { same := hsame
      offset := by rw [hlen]; exact hoff
      input := fun b hb => by cases hb; exact h.input_fetch hc
      delivered := fun j b hj => by
        rw [hd, List.getElem?_append] at hj
        split at hj
        · exact h.delivered j b hj
        · next hge =>
          obtain ⟨hlt, he⟩ := List.getElem?_eq_some_iff.mp hj
          rw [List.length_singleton] at hlt
          rw [List.getElem_singleton] at he
          rw [← he, show j = r.child.delivered.length by omega]
          exact hrows.toRows
      within := by
        rw [hlen, Nat.succ_le_iff, ← Nat.not_le, ceilDiv_le_iff_le_mul hs]
        exact Nat.not_le.mpr hmore
      ended := fun hx => by
        rw [hlen]
        exact hlast.mp (of_decide_eq_true hx) }

/-- Every pull with batches of the given size deals out, whatever it comes to. -/
private theorem Dealt.pull (hs : 0 < size) (h : Dealt size rows r) {c : Context}
    (hc : c.settings.batchSize.toNat = size) (output : Batch) :
    Dealt size rows (r.pull c output).state := by
  have hpoll := polled r c output
  generalize r.pull c output = pulled at hpoll
  cases hpoll with
  | refused e _ => exact h
  | again _ _ => exact h.emit output
  | finished _ _ _ => exact h
  | failed failure events _ _ _ hf => exact h.received hc hf
  | drained progress events _ _ _ hf hz => exact h.drained hs hc hf hz
  | loaded progress events _ _ _ hf hz => exact (h.loaded hs hc hf hz).emit output

/-- While a batch is buffered there are outputs to come, -/
private theorem Dealt.length_lt {p : Plan} {exprs : List Expr} {outs : List Batch} (h : Dealt size rows r)
    (hr : Replays p exprs r outs) (hb : r.buffered = true) :
    outs.length < p.numCombinations * (rows.length ⌈/⌉ size) := by
  obtain ⟨hlt, before, input, _, hd, ho⟩ := hr.pending hb
  have hle := h.within
  rw [hd, List.length_append, List.length_singleton] at hle
  calc outs.length = p.numCombinations * before.length + r.combination := ho
    _ < p.numCombinations * (before.length + 1) := by rw [Nat.mul_succ]; omega
    _ ≤ p.numCombinations * (rows.length ⌈/⌉ size) := Nat.mul_le_mul_left _ hle

/-- and once the values have no more and nothing is buffered there are none. -/
private theorem Dealt.length_eq {p : Plan} {exprs : List Expr} {outs : List Batch} (hs : 0 < size)
    (h : Dealt size rows r) (hr : Replays p exprs r outs) (hb : r.buffered = false)
    (hp : r.phase = .opened) (hx : r.childExhausted = true) :
    outs.length = p.numCombinations * (rows.length ⌈/⌉ size) := by
  have hle : rows.length ⌈/⌉ size ≤ r.child.delivered.length := (ceilDiv_le_iff_le_mul hs).mpr (h.ended hx)
  rw [hr.idle hb (ne_closed_of_opened hp), Nat.le_antisymm h.within hle]

/-- The answer of a pull that succeeds tells whether all chunks have been emitted. -/
private theorem Dealt.answer {p : Plan} {exprs : List Expr} {outs : List Batch}
    (hsound : p.Sound (exprs.map (·.datatype))) (hs : 0 < size) (h : Dealt size rows r)
    (hr : Replays p exprs r outs) {c : Context} (hc : c.settings.batchSize.toNat = size) {output : Batch}
    (ho : Batch.Built p.outputLayout output) (hok : (r.pull c output).result.isOk = true) :
    (r.pull c output).result =
      .ok (if outs.length < p.numCombinations * (rows.length ⌈/⌉ size) then .hasMore else .exhausted) := by
  cases hres : (r.pull c output).result with
  | error failure =>
    rw [hres] at hok
    cases hok
  | ok progress =>
    cases progress with
    | exhausted =>
      obtain ⟨hb, hp, he, hx, _⟩ := pull_exhausted hres
      have hafter := hr.pull hsound fills_values c ho
      rw [he, List.append_nil] at hafter
      rw [(h.pull hs hc output).length_eq hs hafter hb hp hx, if_neg (Nat.lt_irrefl _)]
    | hasMore =>
      have hlt : outs.length < p.numCombinations * (rows.length ⌈/⌉ size) := by
        have hpoll := polled r c output
        generalize r.pull c output = pulled at hpoll hres
        cases hpoll with
        | refused e _ => cases hres
        | again _ hb => exact h.length_lt hr hb
        | finished _ _ _ => cases hres
        | failed failure events _ _ _ _ => cases hres
        | drained progress events _ _ _ _ _ => cases hres
        | loaded progress events hp hb _ hf hz =>
          exact (h.loaded hs hc hf hz).length_lt (hr.loaded hsound fills_values hb hp.2.1 hf hz) rfl
      rw [if_pos hlt]

private theorem Dealt.run (hs : 0 < size) (h : Dealt size rows r) {requests : List (Context × Batch)}
    (hreq : ∀ q ∈ requests, q.1.settings.batchSize.toNat = size) :
    Dealt size rows (r.run (requests.map fun q => .pull q.1 q.2)) := by
  induction requests generalizing r with
  | nil => exact h
  | cons request rest ih =>
    obtain ⟨hc, hrest⟩ := List.forall_mem_cons.mp hreq
    exact ih (h.pull hs hc request.2) hrest

variable {p : Plan} {exprs : List Expr} {outs : List Batch}

/-- A pull that succeeds adds an output as long as there is one to come. -/
private theorem Dealt.length_pull (hsound : p.Sound (exprs.map (·.datatype))) (hs : 0 < size) (h : Dealt size rows r)
    (hr : Replays p exprs r outs) {c : Context} (hc : c.settings.batchSize.toNat = size) {output : Batch}
    (ho : Batch.Built p.outputLayout output) (hok : (r.pull c output).result.isOk = true)
    (hle : outs.length ≤ p.numCombinations * (rows.length ⌈/⌉ size)) :
    (outs ++ (r.pull c output).emitted).length =
      min (outs.length + 1) (p.numCombinations * (rows.length ⌈/⌉ size)) := by
  have ha := h.answer hsound hs hr hc ho hok
  rw [Pulled.emitted, ha, List.length_append]
  by_cases hlt : outs.length < p.numCombinations * (rows.length ⌈/⌉ size)
  · rw [if_pos hlt, List.length_singleton, Nat.min_eq_left hlt]
  · rw [if_neg hlt, List.length_nil]
    omega

/-- The pulls of a run without failures answer that there may be more until all chunks have been emitted,
and from then on that there are none. -/
private theorem Dealt.answers (hsound : p.Sound (exprs.map (·.datatype))) (hs : 0 < size) (h : Dealt size rows r)
    (hr : Replays p exprs r outs) {requests : List (Context × Batch)}
    (hreq : ∀ q ∈ requests, q.1.settings.batchSize.toNat = size ∧ Batch.Built p.outputLayout q.2)
    (hok : ∀ pulled ∈ r.polls requests, pulled.result.isOk = true)
    (hle : outs.length ≤ p.numCombinations * (rows.length ⌈/⌉ size)) :
    (∀ (m : Nat) pulled, (r.polls requests)[m]? = some pulled →
      pulled.result = .ok
        (if outs.length + m < p.numCombinations * (rows.length ⌈/⌉ size) then .hasMore else .exhausted)) ∧
    (outs ++ (r.polls requests).flatMap Pulled.emitted).length =
      min (outs.length + requests.length) (p.numCombinations * (rows.length ⌈/⌉ size)) := by
  induction requests generalizing r outs with
  | nil =>
    refine ⟨fun m pulled hm => ?_, ?_⟩
    · rw [polls, List.getElem?_nil] at hm
      cases hm
    · rw [polls, List.flatMap_nil, List.append_nil, List.length_nil, Nat.add_zero, Nat.min_eq_left hle]
  | cons request rest ih =>
    obtain ⟨c, output⟩ := request
    obtain ⟨⟨hc, ho⟩, hrest⟩ := List.forall_mem_cons.mp hreq
    obtain ⟨hfirst, hothers⟩ := List.forall_mem_cons.mp hok
    have hlen := h.length_pull hsound hs hr hc ho hfirst hle
    obtain ⟨hanswers, hcount⟩ := ih (h.pull hs hc output) (hr.pull hsound fills_values c ho) hrest hothers
      (by rw [hlen]; exact Nat.min_le_right _ _)
    refine ⟨fun m pulled hm => ?_, ?_⟩
    · cases m with
      | zero =>
        cases hm
        exact h.answer hsound hs hr hc ho hfirst
      | succ m =>
        rw [hanswers m pulled hm, hlen]
        refine congrArg Except.ok (if_congr ?_ rfl rfl)
        omega
    · rw [polls, List.flatMap_cons, ← List.append_assoc, hcount, hlen, List.length_cons]
      omega

end Dealing

/-- Starting a repeat over values leaves all rows to be dealt out. -/
private theorem dealt_start {size : Nat} {p : Plan} {exprs : List Expr} {v : Values} {c : Context} :
    let r : Repeat (Watched Values) := { plan := p, exprs, child := ⟨v, []⟩ }
    (r.start c).result = .ok () → Dealt size v.rows (r.start c).state := by
  intro r hok
  have hst := r.started c
  generalize r.start c = reply at hst hok
  cases hst with
  | refused e _ _ => cases hok
  | failed failure _ _ _ _ _ => cases hok
  | opened bound events _ _ hr =>
    have hv : v.start.state = { v with offset := 0 } := Values.start_ok hr
    have hrows : v.start.state.rows = v.rows := by rw [hv]
    have hoff : v.start.state.offset = 0 := by rw [hv]
    exact
      { same := hrows
        offset := hoff.trans (Nat.zero_min _).symm
        input := fun b hb => nomatch hb
        delivered := fun j b hj => by cases hj
        within := Nat.zero_le _
        ended := fun hx => nomatch hx }

def rowsFor (n i : Nat) (outs : List Batch) : Except Failure (List (List Scalar)) :=
  (outs.mapM Batch.toRows).map fun decoded => (everyNth n i decoded).flatten

private theorem numRows_of_mapM {outs : List Batch} {decoded : List (List (List Scalar))}
    (h : outs.mapM Batch.toRows = .ok decoded) : outs.map Batch.numRows = decoded.map List.length := by
  have hall := mapM_eq_ok_iff.mp h
  clear h
  induction hall with
  | nil => rfl
  | cons hb _ ih => rw [List.map_cons, List.map_cons, ih, (Batch.toRows_eq_ok_iff.mp hb).1]

/-- A start and pulls of a repeat over values, with batches of one size that are new or were reset, of which
none fails. -/
structure Session (r : Repeat Values) (size : Nat) where
  opening : Context
  requests : List (Context × Batch)
  starts : (r.start opening).result = .ok ()
  sized : ∀ q ∈ requests, q.1.settings.batchSize.toNat = size ∧
    ∃ limit, Batch.Cleared r.plan.outputLayout size limit q.2
  succeeds : ∀ pulled ∈ (r.start opening).state.polls requests, pulled.result.isOk = true

namespace Session
variable {r : Repeat Values} {size : Nat} (s : Session r size)

def polls : List (Pulled (Repeat Values)) := (r.start s.opening).state.polls s.requests

def outputs : List Batch := s.polls.flatMap Pulled.emitted

variable {tables : LayoutTable} {d : Descriptor} {exprs : List Expr} {v : Values}

/-- The answers, the number of the outputs, and each of them. -/
private theorem outcome (h : (create tables d exprs v).1 = .ok r) (hs : 0 < size) :
    (∀ (m : Nat) pulled, s.polls[m]? = some pulled →
      pulled.result = .ok
        (if m < d.keepSets.length * (v.rows.length ⌈/⌉ size) then .hasMore else .exhausted)) ∧
      s.outputs.length = min s.requests.length (d.keepSets.length * (v.rows.length ⌈/⌉ size)) ∧
      ∀ (m : Nat) out, s.outputs[m]? = some out → out.toRows =
        .ok ((chunk size v.rows (m / d.keepSets.length)).map
          (d.expandRow r.plan.outputLayout.slots exprs (m % d.keepSets.length))) := by
  obtain ⟨p, hp, rfl⟩ := create_ok_iff.mp h
  obtain ⟨rfl, _, hsound⟩ := Plan.build_ok hp
  rw [← hsound.numCombinations]
  -- The values are watched to tell what they deliver.
  let w : Repeat (Watched Values) := { plan := p, exprs, child := ⟨v, []⟩ }
  have hview : ({ plan := p, exprs, child := v } : Repeat Values).start s.opening =
      (w.start s.opening).map (view Watched.inner) := start_view Watched.view_inner s.opening w
  have hpolls : s.polls =
      ((w.start s.opening).state.polls s.requests).map (Pulled.map (view Watched.inner)) := by
    rw [polls, hview]
    exact polls_view Watched.view_inner _ _
  have hstarts : (w.start s.opening).result = .ok () := by
    have := s.starts
    rwa [hview] at this
  have hr := (replays_new p exprs v).start s.opening
  have hbuilt : ∀ q ∈ s.requests, q.1.settings.batchSize.toNat = size ∧ Batch.Built p.outputLayout q.2 :=
    fun q hq => by
      obtain ⟨hc, limit, ho⟩ := s.sized q hq
      exact ⟨hc, ho.eq_new ▸ Batch.built_new _ _ _⟩
  have hok : ∀ pulled ∈ (w.start s.opening).state.polls s.requests, pulled.result.isOk = true := by
    intro pulled hm
    have hall := s.succeeds
    rw [show (start s.opening _).state.polls s.requests = s.polls from rfl, hpolls] at hall
    exact hall _ (List.mem_map_of_mem hm)
  obtain ⟨hanswers, hcount⟩ :=
    (dealt_start hstarts).answers hsound hs hr hbuilt hok (Nat.zero_le _)
  have houts : s.outputs = ((w.start s.opening).state.polls s.requests).flatMap Pulled.emitted := by
    rw [outputs, hpolls, List.flatMap_map]
    rfl
  refine ⟨fun m pulled hm => ?_, ?_, fun m out hm => ?_⟩
  · rw [hpolls, List.getElem?_map] at hm
    obtain ⟨watched, hw, rfl⟩ := Option.map_eq_some_iff.mp hm
    have ha := hanswers m watched hw
    rwa [List.length_nil, Nat.zero_add] at ha
  · rwa [List.nil_append, ← houts, List.length_nil, Nat.zero_add] at hcount
  · rw [houts, emitted_polls] at hm
    have hcalls : ∀ c output, .pull c output ∈ s.requests.map (fun q => Call.pull q.1 q.2) →
        Batch.Built p.outputLayout output := fun c output hq => by
      obtain ⟨q, hmem, he⟩ := List.mem_map.mp hq
      cases he
      exact (hbuilt q hmem).2
    have hrun := hr.run hsound fills_values hcalls
    have hdealt := (dealt_start hstarts).run hs fun q hq => (hbuilt q hq).1
    obtain ⟨b, rows, hb, hrows, hout⟩ := hrun.emitted m out (by rwa [List.nil_append])
    rw [hdealt.delivered _ b hb] at hrows
    cases hrows
    exact hout

/-- A session that is long enough emits each chunk for one combination after the other. -/
private theorem mapM_toRows_outputs (h : (create tables d exprs v).1 = .ok r) (hs : 0 < size)
    (hlong : d.keepSets.length * (v.rows.length ⌈/⌉ size) ≤ s.requests.length) :
    s.outputs.mapM Batch.toRows = .ok ((chunks size v.rows).flatMap fun rows =>
      (List.range d.keepSets.length).map fun i =>
        rows.map (d.expandRow r.plan.outputLayout.slots exprs i)) := by
  obtain ⟨_, hlen, hout⟩ := s.outcome h hs
  rw [Nat.min_eq_right hlong] at hlen
  rw [chunks, List.flatMap_map, flatMap_range_map _ _ fun j i =>
    (chunk size v.rows j).map (d.expandRow r.plan.outputLayout.slots exprs i)]
  refine mapM_eq_ok_iff.mpr (List.forall₂_iff_get.mpr ⟨?_, fun m hm hm' => ?_⟩)
  · rw [hlen, List.length_map, List.length_range]
  · rw [List.get_eq_getElem, List.get_eq_getElem, List.getElem_map, List.getElem_range]
    exact hout m _ (List.getElem?_eq_getElem hm)

private theorem rowsFor_outputs (h : (create tables d exprs v).1 = .ok r) (hs : 0 < size)
    (hlong : d.keepSets.length * (v.rows.length ⌈/⌉ size) ≤ s.requests.length) {i : Nat}
    (hi : i < d.keepSets.length) :
    rowsFor d.keepSets.length i s.outputs =
      .ok (v.rows.map (d.expandRow r.plan.outputLayout.slots exprs i)) := by
  have hnth := everyNth_flatMap hi (chunks size v.rows) fun rows i =>
    rows.map (d.expandRow r.plan.outputLayout.slots exprs i)
  rw [rowsFor, s.mapM_toRows_outputs h hs hlong]
  refine congrArg Except.ok ?_
  dsimp only
  rw [hnth, ← List.map_flatten, flatten_chunks hs]

end Session

/-- Draining a repeat over values. Without failures, pulls with batches of some size answer that there may be
more once for each chunk of that size and each combination, and from then on that there are no more rows.
The outputs are the expansions of the chunks in order, each for one combination after the other. For each
combination they make up the expansion of all the rows, whatever the size, and together they have as many
rows as the values, once for each combination. -/
theorem drain_expands {tables : LayoutTable} {d : Descriptor} {exprs : List Expr} {v : Values}
    {r : Repeat Values} (h : (create tables d exprs v).1 = .ok r) {size other : Nat} (hs : 0 < size)
    (ho : 0 < other) (s : Session r size) (t : Session r other) :
    let n := d.keepSets.length
    let expand (i : Nat) := d.expandRow r.plan.outputLayout.slots exprs i
    (∀ (m : Nat) pulled, s.polls[m]? = some pulled →
      if m < n * (v.rows.length ⌈/⌉ size) then pulled.result = .ok .hasMore
      else pulled.result = .ok .exhausted ∧ pulled.output.numRows = 0) ∧
    (n * (v.rows.length ⌈/⌉ size) ≤ s.requests.length →
      s.outputs.mapM Batch.toRows = .ok ((chunks size v.rows).flatMap fun rows =>
        (List.range n).map fun i => rows.map (expand i)) ∧
      (∀ i < n, rowsFor n i s.outputs = .ok (v.rows.map (expand i))) ∧
      (s.outputs.map Batch.numRows).sum = v.rows.length * n ∧
      (n * (v.rows.length ⌈/⌉ other) ≤ t.requests.length →
        ∀ i < n, rowsFor n i s.outputs = rowsFor n i t.outputs)) := by
  intro n expand
  refine ⟨fun m pulled hm => ?_, fun hlong => ⟨s.mapM_toRows_outputs h hs hlong, ?_, ?_, ?_⟩⟩
  · have ha := (s.outcome h hs).1 m pulled hm
    split
    · next hlt => rwa [if_pos hlt] at ha
    · next hge =>
      rw [if_neg hge] at ha
      obtain ⟨state, q, hq, rfl⟩ := exists_pull_of_mem_polls (List.mem_of_getElem? hm)
      obtain ⟨_, limit, hq⟩ := s.sized q hq
      refine ⟨ha, ?_⟩
      rw [(pull_exhausted ha).2.2.2.2, hq.eq_new]
      exact Batch.numRows_new _ _ _
  · exact fun i hi => s.rowsFor_outputs h hs hlong hi
  · rw [numRows_of_mapM (s.mapM_toRows_outputs h hs hlong), sum_length_flatMap, flatten_chunks hs]
  · intro hother i hi
    rw [s.rowsFor_outputs h hs hlong hi, t.rowsFor_outputs h ho hother hi]

namespace Sample

def values : Values where
  layout := child.layout
  rows := [[.int32 7, .utf8 "a"], [.null, .utf8 "b"], [.int32 9, .utf8 "c"]]

def byTwo : Session (fresh values) 2 where
  opening := context
  requests := List.replicate 5 (context, .new layout 2 none)
  starts := ok_of_toOption (by decide +kernel)
  sized q hq := by
    rw [List.eq_of_mem_replicate hq]
    exact ⟨rfl, none, Batch.cleared_new layout 2 none⟩
  succeeds := by decide +kernel

def byFour : Session (fresh values) 4 :=
  let wide : Context := .new { batchSize := 4 } ⟨[layout]⟩
  { opening := wide
    requests := ((fresh values).start wide).state.reusing wide (.new layout 4 none) 3
    starts := ok_of_toOption (by decide +kernel)
    sized := fun q hq => by
      obtain ⟨hc, ho⟩ := cleared_reusing (Batch.cleared_new layout 4 none) 3 q hq
      rw [hc]
      exact ⟨rfl, none, ho⟩
    succeeds := by decide +kernel }

end Sample

/-- With new batches of two the three rows come out as four outputs, and with one batch of four, used again
and again, as two. -/
theorem drain_three_rows :
    Sample.byTwo.outputs.length = 4 ∧ Sample.byFour.outputs.length = 2 ∧
      (Sample.byTwo.outputs.map Batch.numRows).sum = 6 ∧
      ∀ i < 2, rowsFor 2 i Sample.byTwo.outputs = rowsFor 2 i Sample.byFour.outputs := by
  obtain ⟨_, hdrained⟩ := drain_expands (Sample.create_eq Sample.values) (by decide) (by decide)
    Sample.byTwo Sample.byFour
  obtain ⟨_, _, hsum, hsame⟩ := hdrained (by decide)
  exact ⟨by decide +kernel, by decide +kernel, hsum, hsame (by decide)⟩

end GroupingSets.Repeat
