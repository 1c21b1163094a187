import GroupingSets.Proofs.Batch.Frame

/-! The region of a batch. The batch and its arena each keep a capacity: the batch asks its own whether it is full, and
the arena asks its own whether it has a region and whether there is room in it. A region is reserved when a record is
begun without one, and only a reset gives it back. In between the two capacities are the same, so that the arena is
asked neither for a second region nor for a record that it has no room for. -/
namespace GroupingSets

private theorem Draft.Valid.isAllocated {d : Draft} (h : d.Valid) :
    d.commit.arena.isAllocated = true ∧ d.discard.arena.isAllocated = true := by
  have hroom : 0 < d.batch.arena.capacity := by
    have := h.index_lt
    have := h.arena.len_le
    omega
  constructor
  · exact decide_eq_true hroom
  · rw [discard, Arena.isAllocated, Arena.capacity_pop]
    exact decide_eq_true hroom

namespace Batch
variable {b : Batch}

/-- Whether a record that is begun now has a region reserved first. -/
def reserves (b : Batch) : Bool :=
  !b.isFull && !b.arena.isAllocated && (b.arena.allocate b.capacity).1.isOk

def tally (b : Batch) (n : Nat) : Op → Nat
  | .append _ | .record _ _ => n + b.reserves.toNat
  | .reset => 0

/-- How many regions were reserved since the last reset, after operations before which there were `n`. -/
def reservations (b : Batch) (n : Nat) : List Op → Nat
  | [] => n
  | op :: rest => (b.apply op).reservations (b.tally n op) rest

structure Furnished (layout : Layout) (capacity : Nat) (b : Batch) : Prop where
  isAllocated : b.arena.isAllocated = true
  room : b.arena.capacity = capacity
  size : b.arena.fixed.size = capacity * layout.recordWidth

private theorem Valid.furnished (h : b.Valid) (hn : b.arena.isAllocated = true) : b.Furnished b.layout b.capacity where
  isAllocated := hn
  room := h.capacity_of_isAllocated hn
  size := by rw [h.arena.fixed_size, h.stride, h.capacity_of_isAllocated hn, Nat.mul_comm]

/-- While a record is written there is a region, and also after it was kept or given up. -/
private theorem Begun.furnished {d e : Draft} (hb : b.Valid) (h : Begun b d) (hk : d.Kept e) :
    e.batch.numRows ≤ b.capacity ∧ e.batch.Furnished b.layout b.capacity ∧
      e.discard.Furnished b.layout b.capacity := by
  have hx := h.extended_commit hb hk
  have hs := h.same_discard hk
  have hv := h.valid_commit hb hk
  obtain ⟨hn, hn'⟩ := hk.valid.isAllocated
  have hcommit := hv.furnished hn
  have hdiscard := (h.valid_discard hb hk).furnished hn'
  rw [hx.layout, hx.capacity] at hcommit
  rw [hs.layout, hs.capacity] at hdiscard
  exact ⟨Nat.le_trans hv.numRows_le (Nat.le_of_eq hx.capacity), hcommit, hdiscard⟩

/-- A region is reserved exactly if a record is begun in a batch that has none. In particular a region that was
reserved has room for the record. -/
private theorem Valid.reserves_eq (h : b.Valid) : b.reserves = (b.beginRecord.1.isOk && !b.arena.isAllocated) := by
  have hb := h.begins
  generalize b.beginRecord = result at hb
  cases hb with
  | full hf => simp [reserves, isFull, hf, Except.isOk, Except.toBool]
  | refused _ _ ha => simp [reserves, ha, Except.isOk, Except.toBool]
  | allocated hf hn ha _ => simp [reserves, isFull, hf, hn, ha, Except.isOk, Except.toBool]
  | next _ hn _ => simp [reserves, hn]

/-- What an operation other than a reset leaves: the batch as it was if no record can be begun, and a region if one
can. -/
private theorem Valid.region_cases (h : b.Valid) {op : Op} (hop : op ≠ .reset) :
    b.beginRecord.1.isOk = false ∧ b.apply op = b ∨
      b.beginRecord.1.isOk = true ∧ (b.apply op).arena.isAllocated = true := by
  rcases h.apply_cases hop with ⟨e, he, hsame⟩ | ⟨d, e, hd, _, hk, hsettled⟩
  · rw [he]
    exact Or.inl ⟨rfl, hsame⟩
  · -- giving up the record takes it back, but not the region
    obtain ⟨hcommit, hdiscard⟩ := hk.valid.isAllocated
    rw [hd]
    refine Or.inr ⟨rfl, ?_⟩
    rcases hsettled with hs | hs
    · rw [hs, hcommit]
    · rw [hs, hdiscard]

/-- The arena has a region after an operation if it had one before or the operation reserved one. -/
private theorem Valid.isAllocated_apply (h : b.Valid) {op : Op} (hop : op ≠ .reset) :
    (b.apply op).arena.isAllocated = (b.arena.isAllocated || b.reserves) := by
  rw [h.reserves_eq]
  rcases h.region_cases hop with ⟨hok, hsame⟩ | ⟨hok, hafter⟩
  · rw [hsame, hok, Bool.false_and, Bool.or_false]
  · rw [hafter, hok, Bool.true_and, Bool.or_not_self]

/-- Until a reset the region stays. -/
private theorem Valid.isAllocated_after (h : b.Valid) (hn : b.arena.isAllocated = true) {ops : List Op}
    (hops : Op.reset ∉ ops) : (b.after ops).arena.isAllocated = true := by
  induction ops generalizing b with
  | nil => exact hn
  | cons op rest ih =>
    obtain ⟨hop, hrest⟩ := List.ne_and_not_mem_of_not_mem_cons hops
    have hnext : (b.apply op).arena.isAllocated = true := by
      rw [h.isAllocated_apply (Ne.symm hop), hn, Bool.true_or]
    exact ih (h.apply_keeps op).1 hnext hrest

/-- A batch without a region is as good as new, and the region of one that has it was reserved once since the last
reset. -/
structure InStep (b : Batch) (n : Nat) : Prop extends Valid b where
  unused : b.arena.isAllocated = false → b.reset = b
  once : n = b.arena.isAllocated.toNat

private theorem inStep_new (layout : Layout) (capacity : Nat) (limit : Option Nat) :
    (new layout capacity limit).InStep 0 where
  toValid := valid_new layout capacity limit
  unused _ := rfl
  once := rfl

private theorem InStep.apply {n : Nat} (h : b.InStep n) (op : Op) : (b.apply op).InStep (b.tally n op) := by
  by_cases hop : op = .reset
  · subst hop
    exact ⟨h.toValid.reset, fun _ => rfl, rfl⟩
  · have halloc := h.toValid.isAllocated_apply hop
    have htally : b.tally n op = n + b.reserves.toNat := by
      cases op with
      | append values => rfl
      | record writes kept => rfl
      | reset => exact absurd rfl hop
    refine ⟨(h.toValid.apply_keeps op).1, fun hn => ?_, ?_⟩
    · rcases h.toValid.region_cases hop with ⟨_, hsame⟩ | ⟨_, hafter⟩
      · rw [hsame] at hn ⊢
        exact h.unused hn
      · rw [hafter] at hn
        cases hn
    · rw [htally, h.once, halloc]
      cases hr : b.reserves with
      | false => rw [Bool.or_false]; rfl
      | true =>
        -- only a batch without a region reserves one, so it is the first
        have hn : b.arena.isAllocated = false := by
          rw [h.toValid.reserves_eq] at hr
          simpa using (Bool.and_eq_true_iff.mp hr).2
        rw [hn]
        rfl

private theorem InStep.after {n : Nat} (h : b.InStep n) (ops : List Op) :
    (b.after ops).InStep (b.reservations n ops) := by
  induction ops generalizing b n with
  | nil => exact h
  | cons op rest ih => exact ih (h.apply op)

def refusals : List String :=
  ["Row batch is full", "Record arena size overflows", "Record arena limit exceeded", "Failed to reserve memory"]

private theorem NotBegun.message_mem {e : Error} (h : NotBegun b e) : e.report.message ∈ refusals := by
  cases h with
  | full => exact .head _
  | overflow => exact .tail _ (.head _)
  | limit => exact .tail _ (.tail _ (.head _))
  | reservation => exact .tail _ (.tail _ (.tail _ (.head _)))

private theorem NotBegun.message_ne {e : Error} (h : NotBegun b e) :
    e.report.message ≠ "Record arena already allocated" ∧ e.report.message ≠ "Record arena exhausted" := by
  have apart : ∀ m ∈ refusals, m ≠ "Record arena already allocated" ∧ m ≠ "Record arena exhausted" := by decide
  exact apart _ h.message_mem

/-- After any operations a batch has no region, no rows, an empty heap and nothing reserved, or the region of its arena
is as long as its capacity of records. The region was then reserved once since the last reset, and stays as long as
it is until the next, also while a record is written and when that record is given up. There are never more rows than
the capacity. A record that is refused leaves the batch as it was, and what is reported is neither that the arena has
a region already nor that it has no room. -/
theorem arena_in_step (layout : Layout) (capacity : Nat) (limit : Option Nat) (ops : List Op) :
    let b := (new layout capacity limit).after ops
    (b.arena.isAllocated = false ∧ b.numRows = 0 ∧ b.arena.heap = #[] ∧ b.arena.reserved = 0 ∨
      b.Furnished layout capacity) ∧
    (new layout capacity limit).reservations 0 ops = (if b.arena.isAllocated then 1 else 0) ∧
    (b.Furnished layout capacity → ∀ more, Op.reset ∉ more → (b.after more).Furnished layout capacity) ∧
    b.numRows ≤ capacity ∧
    (∀ index c, b.beginRecord = (.ok index, c) → ∀ writes,
      let d := (Draft.mk c index).writeAll writes
      d.batch.numRows ≤ capacity ∧ d.batch.Furnished layout capacity ∧ d.discard.Furnished layout capacity) ∧
    ∀ e c, b.beginRecord = (.error e, c) →
      c = b ∧ e.report.message ≠ "Record arena already allocated" ∧
        e.report.message ≠ "Record arena exhausted" := by
  intro b
  have h : b.InStep _ := (inStep_new layout capacity limit).after ops
  have hv : b.Valid := h.toValid
  obtain ⟨-, hlayout, hcapacity⟩ := (valid_new layout capacity limit).after_keeps ops
  change b.layout = layout at hlayout
  change b.capacity = capacity at hcapacity
  -- from here on only the invariant of the run counts, not the run
  clear_value b
  subst hlayout hcapacity
  refine ⟨?_, ?_, fun hf more hmore => ?_, hv.numRows_le, fun index c hc writes => ?_, fun e c hc => ?_⟩
  · cases hn : b.arena.isAllocated with
    | false =>
      have hb := (h.unused hn).symm
      exact Or.inl ⟨rfl, congrArg numRows hb, congrArg (·.arena.heap) hb, congrArg (·.arena.reserved) hb⟩
    | true => exact Or.inr (hv.furnished hn)
  · rw [h.once]
    cases b.arena.isAllocated <;> rfl
  · obtain ⟨hvm, hlm, hcm⟩ := hv.after_keeps more
    have hm := hvm.furnished (hv.isAllocated_after hf.isAllocated hmore)
    rwa [hlm, hcm] at hm
  · rcases hv.beginRecord_cases with ⟨e, he, _⟩ | ⟨d, hd, hb⟩
    · rw [he] at hc
      cases hc
    · rw [hd] at hc
      cases hc
      exact hb.furnished hv (Draft.Valid.kept_writeAll hb.valid hb.sound writes)
  · rcases hv.beginRecord_cases with ⟨e, he, hn⟩ | ⟨d, hd, _⟩
    · rw [he] at hc
      cases hc
      exact ⟨rfl, hn.message_ne⟩
    · rw [hd] at hc
      cases hc

/-- A record given up and a row refused before a reset, and a row refused and a row taken after it: the region was
reserved once, and has room for one more row. Under a limit below its length there is none. -/
theorem arena_in_step_after_refusals :
    let layout : Layout := ⟨⟨0⟩, [⟨⟨1⟩, .utf8, false⟩, ⟨⟨2⟩, .int32, true⟩]⟩
    let ops : List Op :=
      [.record [.value 0 (.utf8 "lost")] false, .append [.null, .null], .reset, .append [.utf8 "ab"],
        .append [.utf8 "ab", .int32 7]]
    let more : List Op := [.record [.integer 1 3, .null 9] true]
    let b := (new layout 2 none).after ops
    b.numRows = 1 ∧ b.Furnished layout 2 ∧ (new layout 2 none).reservations 0 ops = 1 ∧
      (∃ index c, b.beginRecord = (.ok index, c) ∧
        ((Draft.mk c index).writeAll [.value 0 (.utf8 "gh")]).discard.Furnished layout 2) ∧
      (b.after more).Furnished layout 2 ∧
      (∃ e, (b.after more).beginRecord = (.error e, b.after more) ∧
        e.report.message ≠ "Record arena exhausted") ∧
      ((new layout 2 (some 25)).after ops).arena.reserved = 0 := by
  intro layout ops more b
  obtain ⟨hregion, hcount, hstays, _, hdraft, _⟩ := arena_in_step layout 2 none ops
  obtain ⟨_, _, _, _, _, hrefused⟩ := arena_in_step layout 2 none (ops ++ more)
  obtain ⟨hlimited, _⟩ := arena_in_step layout 2 (some 25) ops
  rw [after_append] at hrefused
  have hn : b.arena.isAllocated = true := by decide +kernel
  have hok : b.beginRecord.1.isOk = true := by decide +kernel
  have hfull : (b.after more).isFull = true := by decide +kernel
  have hnone : ((new layout 2 (some 25)).after ops).arena.isAllocated = false := by decide +kernel
  have hf : b.Furnished layout 2 := by
    rcases hregion with ⟨hfalse, _⟩ | hf
    · rw [hfalse] at hn
      cases hn
    · exact hf
  refine ⟨by decide +kernel, hf, hcount.trans (if_pos hn), ?_, hstays hf more (by simp [more]), ?_, ?_⟩
  · rcases hb : b.beginRecord with ⟨e | index, c⟩
    · rw [hb] at hok
      cases hok
    · obtain ⟨_, _, hdiscard⟩ := hdraft index c hb [.value 0 (.utf8 "gh")]
      exact ⟨index, c, rfl, hdiscard⟩
  · have hr : (b.after more).beginRecord = (.error (.batchFull (b.after more).capacity), b.after more) := by
      rw [beginRecord, if_pos hfull]
    obtain ⟨_, _, hmessage⟩ := hrefused _ _ hr
    exact ⟨_, hr, hmessage⟩
  · rcases hlimited with ⟨_, _, _, hr⟩ | hf
    · exact hr
    · rw [hf.isAllocated] at hnone
      cases hnone

end Batch

end GroupingSets
