import GroupingSets.Proofs.Arena.Run

/-! Taking records back. An arena has one mark for its heap, which the latest record sets. A history kept beside
it says what the heap held when each record was handed out: any number of records taken back one behind the other
leave the heap as the latest one found it, which is how the last of them found it only if the heap did not grow
between the two. -/
namespace GroupingSets.Arena

variable {a b : Arena}

structure History where
  /-- The heap as each of the records found it that are there, the last record first. -/
  starts : List (Array UInt8) := []
  /-- The heap as the record found it that was handed out latest, whether or not it is still there. -/
  latest : Array UInt8 := #[]

def History.note (h : History) (a : Arena) : Op → History
  | .push =>
    match a.push with
    | (.ok _, _) => ⟨a.heap :: h.starts, a.heap⟩
    | (.error _, _) => h
  | .pop => { h with starts := h.starts.tail }
  | .reset => {}
  | _ => h

def history (a : Arena) (h : History) : List Op → History
  | [] => h
  | op :: rest => (a.apply op).history (h.note a op) rest

/-- The mark is that of the latest record, and the heap has only grown since the records that are there. -/
structure Recorded (a : Arena) (h : History) : Prop where
  length : h.starts.length = a.len
  mark : a.mark = h.latest.size
  latest : h.latest.toList <+: a.heap.toList
  starts : ∀ start ∈ h.starts, start.toList <+: h.latest.toList

private theorem recorded_new (stride : Nat) (limit : Option Nat) : Recorded (new stride limit) {} where
  length := rfl
  mark := rfl
  latest := List.prefix_refl _
  starts _ hs := by cases hs

private theorem Recorded.push {h : History} (hr : Recorded a h) {i : Nat} (hp : a.push = (.ok i, b)) :
    Recorded b ⟨a.heap :: h.starts, a.heap⟩ := by
  obtain ⟨_, _, rfl⟩ := push_ok hp
  refine ⟨congrArg Nat.succ hr.length, rfl, List.prefix_refl _, fun start hs => ?_⟩
  rcases List.mem_cons.mp hs with rfl | hs
  · exact List.prefix_refl _
  · exact (hr.starts start hs).trans hr.latest

private theorem Recorded.heap_pop {h : History} (hr : Recorded a h) (hl : a.len ≠ 0) : a.pop.heap = h.latest :=
  Arena.heap_pop hl hr.mark hr.latest

private theorem Recorded.pop {h : History} (hr : Recorded a h) : Recorded a.pop { h with starts := h.starts.tail } := by
  refine ⟨?_, (mark_pop a).trans hr.mark, ?_, fun start hs => hr.starts start (List.mem_of_mem_tail hs)⟩
  · rw [List.length_tail, hr.length, len_pop]
  · by_cases hl : a.len = 0
    · rw [Arena.pop, if_pos hl]
      exact hr.latest
    · exact hr.heap_pop hl ▸ List.prefix_refl _

/-- A call that leaves the records and the mark, and only appends to the heap, leaves the history. -/
private theorem Recorded.of_grown {h : History} (hr : Recorded a h) (hl : b.len = a.len) (hm : b.mark = a.mark)
    (hh : a.heap.toList <+: b.heap.toList) : Recorded b h :=
  ⟨hr.length.trans hl.symm, hm.trans hr.mark, hr.latest.trans hh, hr.starts⟩

private theorem Recorded.apply {h : History} (hr : Recorded a h) (op : Op) : Recorded (a.apply op) (h.note a op) := by
  have hs := step_apply a op
  cases op with
  | push =>
    rcases hp : a.push with ⟨_ | i, b⟩
    · simp only [Arena.apply, History.note, hp]
      rwa [push_error hp]
    · simp only [Arena.apply, History.note, hp]
      exact hr.push hp
  | pop => exact hr.pop
  | reset => exact recorded_new _ _
  | allocate capacity =>
    generalize a.apply (.allocate capacity) = b at hs ⊢
    cases hs with
    | refused => exact hr
    | allocate ha =>
      obtain ⟨_, _, _, rfl⟩ := allocate_ok ha
      exact hr.of_grown rfl rfl (List.prefix_refl _)
  | write i offset bytes =>
    generalize a.apply (.write i offset bytes) = b at hs ⊢
    cases hs with
    | refused => exact hr
    | write hw =>
      obtain ⟨_, _, rfl⟩ := write_ok hw
      exact hr.of_grown rfl rfl (List.prefix_refl _)
  | pushHeap bytes =>
    generalize a.apply (.pushHeap bytes) = b at hs ⊢
    cases hs with
    | refused => exact hr
    | pushHeap hp =>
      have hg := grown_pushHeap hp
      exact hr.of_grown hg.len hg.mark hg.heap

private theorem Recorded.after {h : History} (hr : Recorded a h) (ops : List Op) :
    Recorded (a.after ops) (a.history h ops) := by
  induction ops generalizing a h with
  | nil => exact hr
  | cons op rest ih => exact ih (hr.apply op)

/-- Records taken back one behind the other: each leaves the records before it, and all of them leave the heap as
the latest record found it. -/
private theorem Recorded.pops {h : History} (hr : Recorded a h) (hv : a.Valid) {n : Nat} (hn : n < a.len) :
    let c := a.after (List.replicate (n + 1) .pop)
    c.len + (n + 1) = a.len ∧ (∀ j, j < c.len → c.record j = a.record j) ∧ c.heap = h.latest := by
  have hl : a.pop.len + 1 = a.len := by rw [len_pop]; omega
  induction n generalizing a h with
  | zero => exact ⟨hl, fun j (hj : j < a.pop.len) => hv.record_pop (by omega), hr.heap_pop (by omega)⟩
  | succ n ih =>
    intro c
    obtain ⟨hlen, hrec, hheap⟩ := ih hr.pop hv.pop (by omega) (by rw [len_pop]; omega)
    have hc : c.len + (n + 1) = a.pop.len := hlen
    refine ⟨by omega, fun j hj => (hrec j hj).trans (hv.record_pop (by omega)), hheap⟩

def Op.Fills (i : Nat) : Op → Prop
  | .write j _ _ => j = i
  | .pushHeap _ => True
  | _ => False

private theorem Valid.grown_step (h : a.Valid) {i : Nat} (hi : i + 1 = a.len) {op : Op} (hf : op.Fills i)
    (hs : Step a op b) : Grown a b := by
  cases hs with
  | refused => exact .refl a
  | write hw =>
    cases hf
    exact h.grown_write hi hw
  | pushHeap hp => exact grown_pushHeap hp
  | allocate | push | pop | reset => exact hf.elim

private theorem Valid.grown_after (h : a.Valid) {i : Nat} (hi : i + 1 = a.len) {fills : List Op}
    (hf : ∀ op ∈ fills, op.Fills i) : Grown a (a.after fills) := by
  have hrun : Grown a (a.after fills) ∧ (a.after fills).Valid := by
    refine after_keeps_of (P := fun b => Grown a b ∧ b.Valid) (fun hb ho hs => ?_) ⟨.refl a, h⟩ hf
    obtain ⟨hg, hv⟩ := hb
    exact ⟨hg.trans (hv.grown_step (hi.trans hg.len.symm) ho hs), hv.step hs⟩
  exact hrun.1

/-- Records that are taken back one behind the other leave the records before them, and leave the heap as the latest
record found it, whichever of them is the last. So the heap is left as the last of them found it exactly if it did
not grow from then on until the latest record was handed out. A record that is taken back before another is handed
out leaves everything as it was. A record that is handed out is zero, also in a place that was used before. -/
theorem pops_restore_latest (stride : Nat) (limit : Option Nat) (ops : List Op) :
    let a := (new stride limit).after ops
    let h := (new stride limit).history {} ops
    h.starts.length = a.len ∧
    (∀ n start, h.starts[n]? = some start →
      let c := a.after (List.replicate (n + 1) .pop)
      c.len + (n + 1) = a.len ∧ (∀ j, j < c.len → c.record j = a.record j) ∧ c.heap = h.latest ∧
        start.toList <+: c.heap.toList ∧ (c.heap = start ↔ h.latest.size = start.size)) ∧
    (∀ i b fills, a.push = (.ok i, b) → (∀ op ∈ fills, op.Fills i) →
      let c := (b.after fills).pop
      c.len = a.len ∧ c.heap = a.heap ∧ ∀ j, c.record j = a.record j) ∧
    ∀ i b, a.push = (.ok i, b) → i = a.len ∧ b.record i = .ok (List.replicate stride 0) := by
  intro a h
  have hv : a.Valid := (valid_new stride limit).after ops
  have hr : Recorded a h := (recorded_new stride limit).after ops
  have hstride : a.stride = stride := (after_frame (new stride limit) ops).1
  refine ⟨hr.length, fun n start hs => ?_, fun i b fills hp hf => ?_, fun i b hp => ⟨(push_ok hp).1, ?_⟩⟩
  · have hn : n < a.len := hr.length ▸ (List.getElem?_eq_some_iff.mp hs).1
    have hpre := hr.starts start (List.mem_of_getElem? hs)
    obtain ⟨hlen, hrec, hheap⟩ := hr.pops hv hn
    refine ⟨hlen, hrec, hheap, hheap ▸ hpre, ?_⟩
    rw [hheap]
    refine ⟨congrArg Array.size, fun hsize => Array.toList_inj.mp ?_⟩
    exact (hpre.eq_of_length (by simp only [Array.length_toList, hsize])).symm
  · have hb := hv.push hp
    have hi : i + 1 = b.len := by
      obtain ⟨rfl, _, rfl⟩ := push_ok hp
      rfl
    exact (hb.after fills).pop_of_grown hp (hb.grown_after hi hf)
  · rw [hv.record_push_self hp, hstride]

/-- Three records, each with a byte on the heap. The first one taken back leaves the heap as it found it, and the
second one does not; the record before them keeps its byte, and the next one is zero. -/
theorem pops_restore_latest_of_three :
    let ops : List Op := [.allocate 3, .push, .pushHeap [1], .write 0 0 [7], .push, .pushHeap [2], .push,
      .pushHeap [3], .write 2 0 [9]]
    let a := (new 1 none).after ops
    let h := (new 1 none).history {} ops
    h.starts = [#[1, 2], #[1], #[]] ∧ (a.after [.pop]).heap = #[1, 2] ∧ (a.after [.pop, .pop]).heap = #[1, 2] ∧
      (a.after [.pop, .pop]).record 0 = .ok [7] ∧
      ∀ i b, (a.after [.pop, .pop]).push = (.ok i, b) → b.record i = .ok [0] := by
  intro ops a h
  have hstarts : h.starts = [#[1, 2], #[1], #[]] := by decide +kernel
  have hlatest : h.latest = #[1, 2] := by decide +kernel
  have hrec : a.record 0 = .ok [7] := rfl
  obtain ⟨_, hpops, _, _⟩ := pops_restore_latest 1 none ops
  obtain ⟨_, _, hone, _⟩ := hpops 0 #[1, 2] (by rw [hstarts]; rfl)
  obtain ⟨_, hkept, htwo, _⟩ := hpops 1 #[1] (by rw [hstarts]; rfl)
  obtain ⟨_, _, _, hzero⟩ := pops_restore_latest 1 none (ops ++ [.pop, .pop])
  rw [after_append] at hzero
  exact ⟨hstarts, hone.trans hlatest, htwo.trans hlatest, (hkept 0 (by decide +kernel)).trans hrec,
    fun i b hp => (hzero i b hp).2⟩

/-- The first of two records found an empty heap. After both are taken back, the byte that it wrote is still
there. -/
theorem heap_kept_after_second_pop :
    let found := (new 1 none).after [.allocate 2]
    let a := found.after [.push, .pushHeap [170], .push, .pop]
    found.len = 0 ∧ found.heap = #[] ∧ a.len = 1 ∧ a.pop.len = 0 ∧ a.pop.heap = #[170] := by
  decide +kernel

end GroupingSets.Arena
