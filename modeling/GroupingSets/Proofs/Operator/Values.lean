import GroupingSets.Operator.Values
import GroupingSets.Proofs.Batch.Rows
import GroupingSets.Proofs.Dealing

/-! Values deal out their rows in order, as many at a time as a batch has room for. -/
namespace GroupingSets

private theorem Batch.Holds.appendAll {b c : Batch} {rows more : List (List Scalar)} (h : b.Holds rows)
    (hc : b.appendAll more = (.ok (), c)) : c.Holds (rows ++ more) := by
  induction more generalizing b rows with
  | nil =>
    cases hc
    rwa [List.append_nil]
  | cons values rest ih =>
    unfold Batch.appendAll at hc
    rcases h.valid.append_cases values with ⟨e, d, hd, _⟩ | ⟨r, d, hd, hx, hv, hr, hh⟩
    · rw [hd] at hc
      cases hc
    · rw [hd] at hc
      rw [show rows ++ values :: rest = (rows ++ [values]) ++ rest by simp]
      exact ih (h.extend hx hv hr hh) hc

namespace Values
variable {v : Values} {c : Context} {output : Batch}

/-- A start that succeeds goes to the first row. -/
theorem start_ok (h : v.start.result = .ok ()) : v.start.state = { v with offset := 0 } := by
  revert h
  unfold start
  split
  · intro h
    cases h
  · exact fun _ => rfl

/-- A pull that fails emits nothing. -/
theorem pull_error {failure : Failure} (h : (v.pull c output).result = .error failure) :
    (v.pull c output).state = v := by
  revert h
  unfold pull
  dsimp only
  split
  · exact fun _ => rfl
  · split
    · exact fun _ => rfl
    · intro h
      cases h

/-- A pull that succeeds has written the next rows, as many as there is room for, and stands behind them. It
tells whether they are the last. -/
private theorem pull_ok {progress : Progress} (hle : v.offset ≤ v.rows.length) (ho : output.Valid)
    (hn : output.numRows = 0) (h : (v.pull c output).result = .ok progress) :
    (v.pull c output).output.Holds ((v.rows.drop v.offset).take output.capacity) ∧
      (v.pull c output).state = { v with offset := min (v.offset + output.capacity) v.rows.length } ∧
      (progress = .exhausted ↔ v.rows.length ≤ v.offset + output.capacity) := by
  have hnext : v.offset + ((v.rows.drop v.offset).take output.capacity).length =
      min (v.offset + output.capacity) v.rows.length := by
    rw [List.length_take, List.length_drop]
    omega
  revert h
  unfold pull
  dsimp only
  split
  · intro h
    cases h
  · split
    · intro h
      cases h
    · next written hw =>
      rw [hnext, numRows]
      intro h
      refine ⟨(ho.holds_nil hn).appendAll hw, rfl, ?_⟩
      cases h
      by_cases hlast : v.rows.length ≤ v.offset + output.capacity
      · rw [if_pos (by omega)]
        exact iff_of_true rfl hlast
      · rw [if_neg (by omega)]
        exact iff_of_false Progress.noConfusion hlast

/-- If all batches have one size, what is written is the next of the chunks of that size. -/
theorem pull_chunk {size j : Nat} {progress : Progress} (hv : v.offset = min (size * j) v.rows.length)
    (ho : output.Valid) (hn : output.numRows = 0) (hc : output.capacity = size)
    (h : (v.pull c output).result = .ok progress) :
    (v.pull c output).output.Holds (chunk size v.rows j) ∧ (v.pull c output).state.rows = v.rows ∧
      (v.pull c output).state.offset = min (size * (j + 1)) v.rows.length ∧
      (progress = .exhausted ↔ v.rows.length ≤ size * (j + 1)) := by
  have hchunk : (v.rows.drop v.offset).take output.capacity = chunk size v.rows j := by
    rw [hc, hv, chunk]
    rcases Nat.le_total (size * j) v.rows.length with hle | hle
    · rw [Nat.min_eq_left hle]
    · rw [Nat.min_eq_right hle, List.drop_length, List.drop_of_length_le hle]
  obtain ⟨hholds, hstate, hlast⟩ := pull_ok (by omega) ho hn h
  rw [hchunk] at hholds
  rw [hstate, hlast, hc, hv, Nat.mul_succ]
  dsimp only
  exact ⟨hholds, rfl, by omega, by omega⟩

end Values

/-! Runs of pulls, each with a context and a batch of its own. -/

def Pulled.written {σ : Type} (p : Pulled σ) : List Batch :=
  match p.result with
  | .ok _ => [p.output]
  | .error _ => []

namespace Values

def replies (v : Values) : List (Context × Batch) → List (Pulled Values)
  | [] => []
  | (c, output) :: rest => v.pull c output :: (v.pull c output).state.replies rest

def after (v : Values) (requests : List (Context × Batch)) : Values :=
  requests.foldl (fun v (c, output) => (v.pull c output).state) v

def Ready (layout : Layout) (requests : List (Context × Batch)) : Prop :=
  ∀ q ∈ requests, Batch.Built layout q.2 ∧ q.2.numRows = 0

/-- Some outputs have led from the first row to a state: their rows, one output behind the other, are the rows
before the offset. -/
structure Dealt (w v : Values) (outs : List Batch) : Prop where
  state : v = { w with offset := v.offset }
  offset_le : v.offset ≤ w.rows.length
  rows : ∃ chunks, List.Forall₂ (fun out chunk => out.toRows = .ok chunk) outs chunks ∧
    chunks.flatten = w.rows.take v.offset

section Running
variable {w v : Values} {outs : List Batch} {requests : List (Context × Batch)}

private theorem dealt_nil (h : w.offset = 0) : Dealt w w [] where
  state := rfl
  offset_le := h ▸ Nat.zero_le _
  rows := ⟨[], .nil, by rw [h]; rfl⟩

/-- A pull that succeeds from there. -/
private theorem Dealt.pull_ok (h : Dealt w v outs) {c : Context} {output : Batch}
    (ho : Batch.Built w.layout output) (hn : output.numRows = 0) {progress : Progress}
    (hr : (v.pull c output).result = .ok progress) :
    (v.pull c output).output.Holds ((w.rows.drop v.offset).take output.capacity) ∧
      (v.pull c output).state = { w with offset := min (v.offset + output.capacity) w.rows.length } ∧
      (progress = .exhausted ↔ w.rows.length ≤ v.offset + output.capacity) := by
  have hrows : v.rows = w.rows := by rw [h.state]
  have hp := Values.pull_ok (hrows ▸ h.offset_le) ho.valid hn hr
  rw [hrows] at hp
  refine ⟨hp.1, hp.2.1.trans ?_, hp.2.2⟩
  rw [h.state]

private theorem Dealt.pull (h : Dealt w v outs) (c : Context) {output : Batch}
    (ho : Batch.Built w.layout output) (hn : output.numRows = 0) :
    Dealt w (v.pull c output).state (outs ++ (v.pull c output).written) := by
  cases hr : (v.pull c output).result with
  | error failure =>
    rw [pull_error hr, Pulled.written, hr, List.append_nil]
    exact h
  | ok progress =>
    obtain ⟨hholds, hstate, _⟩ := h.pull_ok ho hn hr
    obtain ⟨chunks, houts, hflat⟩ := h.rows
    rw [hstate, Pulled.written, hr]
    refine ⟨rfl, Nat.min_le_right _ _, chunks ++ [_],
      List.rel_append houts (.cons hholds.toRows .nil), ?_⟩
    rw [List.flatten_append, hflat, List.flatten_singleton, ← List.take_add]
    refine List.take_eq_take_iff.mpr ?_
    dsimp only
    omega

private theorem Dealt.run (h : Dealt w v outs) (hq : Ready w.layout requests) :
    Dealt w (v.after requests) (outs ++ (v.replies requests).flatMap Pulled.written) := by
  induction requests generalizing v outs with
  | nil =>
    rw [replies, List.flatMap_nil, List.append_nil]
    exact h
  | cons q rest ih =>
    obtain ⟨⟨ho, hn⟩, hrest⟩ := List.forall_mem_cons.mp hq
    rw [replies, List.flatMap_cons, ← List.append_assoc]
    exact ih (h.pull q.1 ho hn) hrest

private theorem offset_le_pull (v : Values) (c : Context) (output : Batch) :
    v.offset ≤ (v.pull c output).state.offset := by
  unfold pull
  dsimp only
  split
  · exact Nat.le_refl _
  · split
    · exact Nat.le_refl _
    · exact Nat.le_add_right _ _

private theorem offset_le_after (v : Values) (requests : List (Context × Batch)) :
    v.offset ≤ (v.after requests).offset := by
  induction requests generalizing v with
  | nil => exact Nat.le_refl _
  | cons q rest ih => exact (v.offset_le_pull q.1 q.2).trans (ih _)

def successes (v : Values) (requests : List (Context × Batch)) : Nat :=
  (v.replies requests).countP fun p => p.result.isOk

private theorem successes_cons (v : Values) (c : Context) (output : Batch) :
    v.successes ((c, output) :: requests) =
      (v.pull c output).state.successes requests + if (v.pull c output).result.isOk then 1 else 0 :=
  List.countP_cons

/-- A pull that succeeds moves on by a row at least, if its batch has room for one and a row is left. -/
private theorem Dealt.le_offset_after (h : Dealt w v outs) (hq : Ready w.layout requests)
    (hcap : ∀ q ∈ requests, 0 < q.2.capacity) :
    min (v.offset + v.successes requests) w.rows.length ≤ (v.after requests).offset := by
  induction requests generalizing v outs with
  | nil => exact Nat.min_le_left _ _
  | cons q rest ih =>
    obtain ⟨c, output⟩ := q
    obtain ⟨⟨ho, hn⟩, hrest⟩ := List.forall_mem_cons.mp hq
    obtain ⟨hpos, hcap⟩ := List.forall_mem_cons.mp hcap
    have hle := ih (h.pull c ho hn) hrest hcap
    refine Nat.le_trans ?_ hle
    rw [successes_cons]
    cases hr : (v.pull c output).result with
    | error failure =>
      rw [pull_error hr]
      exact Nat.le_refl _
    | ok progress =>
      rw [(h.pull_ok ho hn hr).2.1]
      simp only [Except.isOk, Except.toBool, if_true]
      dsimp only at hpos
      omega

private theorem after_of_no_success (h : v.successes requests = 0) : v.after requests = v := by
  induction requests generalizing v with
  | nil => rfl
  | cons q rest ih =>
    obtain ⟨c, output⟩ := q
    rw [successes_cons] at h
    cases hr : (v.pull c output).result with
    | ok progress =>
      rw [hr] at h
      cases h
    | error failure =>
      rw [pull_error hr, hr] at h
      have hs : v.after ((c, output) :: rest) = v.after rest := by
        rw [after, List.foldl_cons]
        dsimp only
        rw [pull_error hr, after]
      exact hs.trans (ih h)

/-- If all rows are emitted, the last pull that succeeded has said so. -/
private theorem Dealt.exists_exhausted (h : Dealt w v outs) (hq : Ready w.layout requests)
    (hs : 0 < v.successes requests) (hall : w.rows.length ≤ (v.after requests).offset) :
    ∃ p ∈ v.replies requests, p.result = .ok .exhausted := by
  induction requests generalizing v outs with
  | nil => cases hs
  | cons q rest ih =>
    obtain ⟨c, output⟩ := q
    obtain ⟨⟨ho, hn⟩, hrest⟩ := List.forall_mem_cons.mp hq
    have later (hs : 0 < (v.pull c output).state.successes rest) :
        ∃ p ∈ v.replies ((c, output) :: rest), p.result = .ok .exhausted := by
      obtain ⟨p, hp, he⟩ := ih (h.pull c ho hn) hrest hs hall
      exact ⟨p, List.mem_cons_of_mem _ hp, he⟩
    cases hr : (v.pull c output).result with
    | error failure =>
      rw [successes_cons, hr] at hs
      exact later hs
    | ok progress =>
      cases progress with
      | exhausted => exact ⟨_, List.mem_cons_self, hr⟩
      | hasMore =>
        refine later (Nat.pos_of_ne_zero fun hnone => ?_)
        -- Without a later success rows would be left.
        obtain ⟨_, hstate, hlast⟩ := h.pull_ok ho hn hr
        have hafter : v.after ((c, output) :: rest) = (v.pull c output).state := after_of_no_success hnone
        rw [hafter, hstate] at hall
        have hmore : ¬ w.rows.length ≤ v.offset + output.capacity := fun hle => by
          cases hlast.mpr hle
        dsimp only at hall
        omega

/-- After a pull that said that there is nothing more, no row is left. -/
private theorem Dealt.length_le_of_exhausted (h : Dealt w v outs) (hq : Ready w.layout requests)
    (he : ∃ p ∈ v.replies requests, p.result = .ok .exhausted) :
    w.rows.length ≤ (v.after requests).offset := by
  induction requests generalizing v outs with
  | nil =>
    obtain ⟨p, hp, _⟩ := he
    cases hp
  | cons q rest ih =>
    obtain ⟨⟨ho, hn⟩, hrest⟩ := List.forall_mem_cons.mp hq
    obtain ⟨p, hp, he⟩ := he
    rcases List.mem_cons.mp hp with rfl | hp
    · obtain ⟨_, hstate, hlast⟩ := h.pull_ok ho hn he
      have hend : w.rows.length ≤ (v.pull q.1 q.2).state.offset := by
        rw [hstate]
        exact Nat.le_min.mpr ⟨hlast.mp rfl, Nat.le_refl _⟩
      exact hend.trans (offset_le_after _ rest)
    · exact ih (h.pull q.1 ho hn) hrest ⟨p, hp, he⟩

end Running

variable {v : Values}

/-- Whether a start succeeds depends on the rows only, and it goes to the first one. -/
private theorem start_of_ok (h : v.start.result = .ok ()) (n : Nat) :
    start { v with offset := n } = { result := .ok (), state := { v with offset := 0 } } := by
  revert h
  unfold start
  dsimp only
  split
  · intro h
    cases h
  · exact fun _ => rfl

/-- Values that started emit each row once and in order, whatever the sizes and limits of the batches are and
whichever pulls fail. The rows of the pulls that succeeded are the first rows. The next pull, if it succeeds,
writes the rows behind them, as many as there is room for, and says that there is nothing more exactly if these
are the last; from then on pulls that succeed write no rows and say so again. If it fails, nothing changes. If
every batch has room for a row, all rows are emitted once as many pulls have succeeded as there are rows, and
one at least. Another start goes back to the first row. -/
theorem each_row_once (h : v.start.result = .ok ()) {requests : List (Context × Batch)}
    (hq : Ready v.layout requests) :
    let w := v.start.state
    let replies := w.replies requests
    ∃ chunks, (replies.flatMap Pulled.written).mapM Batch.toRows = .ok chunks ∧ chunks.flatten <+: v.rows ∧
      (∀ c output, Batch.Built v.layout output → output.numRows = 0 →
        let pulled := (w.after requests).pull c output
        (∀ failure, pulled.result = .error failure → pulled.state = w.after requests) ∧
          ∀ progress, pulled.result = .ok progress →
            ∃ chunk, pulled.output.toRows = .ok chunk ∧
              chunk = (v.rows.drop chunks.flatten.length).take output.capacity ∧
              (progress = .exhausted ↔ chunks.flatten ++ chunk = v.rows) ∧
              ((∃ p ∈ replies, p.result = .ok .exhausted) → progress = .exhausted ∧ chunk = [])) ∧
      ((∀ q ∈ requests, 0 < q.2.capacity) → max 1 v.rows.length ≤ w.successes requests →
        chunks.flatten = v.rows ∧ ∃ p ∈ replies, p.result = .ok .exhausted) ∧
      (w.after requests).start = { result := .ok (), state := w } := by
  intro w replies
  have hw : w = { v with offset := 0 } := start_ok h
  have hlay : v.layout = w.layout := by rw [hw]
  have hrows : v.rows = w.rows := by rw [hw]
  rw [hlay] at hq
  rw [hlay, hrows]
  have hnew : Dealt w w [] := dealt_nil (by rw [hw])
  have hd := hnew.run hq
  rw [List.nil_append] at hd
  obtain ⟨chunks, houts, hflat⟩ := hd.rows
  have hlen : chunks.flatten.length = (w.after requests).offset := by
    rw [hflat, List.length_take, Nat.min_eq_left hd.offset_le]
  refine ⟨chunks, mapM_eq_ok_iff.mpr houts, hflat ▸ List.take_prefix _ _, fun c output ho hn => ?_,
    fun hcap hs => ?_, ?_⟩
  · refine ⟨fun failure hr => pull_error hr, fun progress hr => ?_⟩
    obtain ⟨hholds, _, hlast⟩ := hd.pull_ok ho hn hr
    refine ⟨_, hholds.toRows, by rw [hlen], ?_, fun he => ?_⟩
    · rw [hlast, hflat, ← List.take_add, List.take_eq_self_iff]
    · have hend := hnew.length_le_of_exhausted hq he
      exact ⟨hlast.mpr (Nat.le_add_right_of_le hend), by rw [List.drop_of_length_le hend, List.take_nil]⟩
  · have hend : w.rows.length ≤ (w.after requests).offset := by
      have := hnew.le_offset_after hq hcap
      omega
    exact ⟨by rw [hflat, List.take_of_length_le hend], hnew.exists_exhausted hq (by omega) hend⟩
  · rw [hd.state, hw]
    exact start_of_ok h _

/-- The first pull fails at its second row, and a later one is cancelled. The last row fills its batch. -/
theorem each_row_once_after_failures :
    let layout : Layout := ⟨⟨0⟩, [⟨⟨1⟩, .utf8, false⟩]⟩
    let v : Values := { layout, rows := [[.utf8 "abc"], [.utf8 "defgh"], [.utf8 ""]], offset := 2 }
    let c : Context := .new { batchSize := 2 } ⟨[layout]⟩
    let one := Batch.new layout 1 none
    let requests := [(c, .new layout 2 (some 22)), (c, one), (c.cancel, one), (c, one), (c, one)]
    let w := v.start.state
    let next := (w.after requests).pull c one
    (w.replies requests).map (fun p => (p.result.toOption, p.output.numRows)) =
        [(none, 1), (some .hasMore, 1), (none, 0), (some .hasMore, 1), (some .exhausted, 1)] ∧
      (∃ chunks, ((w.replies requests).flatMap Pulled.written).mapM Batch.toRows = .ok chunks ∧
        chunks.flatten = v.rows) ∧
      next.result = .ok .exhausted ∧ next.output.toRows = .ok [] ∧
      (w.after requests).start.state = w := by
  intro layout v c one requests w next
  have hstart : v.start.result = .ok () := by rfl
  have hq : Ready layout requests := by
    simp only [Ready, requests, List.forall_mem_cons]
    exact ⟨⟨Batch.built_new layout 2 (some 22), rfl⟩, ⟨Batch.built_new layout 1 none, rfl⟩,
      ⟨Batch.built_new layout 1 none, rfl⟩, ⟨Batch.built_new layout 1 none, rfl⟩,
      ⟨Batch.built_new layout 1 none, rfl⟩, fun _ hm => nomatch hm⟩
  obtain ⟨chunks, hchunks, _, hnext, hall, hagain⟩ := each_row_once hstart hq
  obtain ⟨hflat, hend⟩ := hall (by decide) (by decide +kernel)
  have hok : next.result = .ok .exhausted := ok_of_toOption (by decide +kernel)
  obtain ⟨chunk, hrows, _, _, hsticky⟩ :=
    (hnext c one (Batch.built_new layout 1 none) rfl).2 .exhausted hok
  rw [(hsticky hend).2] at hrows
  exact ⟨by decide +kernel, ⟨chunks, hchunks, hflat⟩, hok, hrows, by rw [hagain]⟩

end Values

end GroupingSets
