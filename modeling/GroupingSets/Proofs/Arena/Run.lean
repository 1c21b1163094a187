import GroupingSets.Proofs.Arena

/-! Runs of an arena: call after call, whether they succeed or fail. What a single call can do is said
once, and what every call keeps is kept by a run. -/
namespace GroupingSets.Arena

inductive Op where
  /-- Reserve the fixed region. -/
  | allocate (capacity : Nat)
  /-- Hand out a record. -/
  | push
  /-- Take back the record handed out last. -/
  | pop
  /-- Write bytes into a record. -/
  | write (i offset : Nat) (bytes : List UInt8)
  /-- Append bytes to the heap. -/
  | pushHeap (bytes : List UInt8)
  /-- Give everything back. -/
  | reset

def apply (a : Arena) : Op → Arena
  | .allocate capacity => (a.allocate capacity).2
  | .push => a.push.2
  | .pop => a.pop
  | .write i offset bytes =>
    match a.write i offset bytes with
    | .ok b => b
    | .error _ => a
  | .pushHeap bytes => (a.pushHeap bytes).2
  | .reset => a.reset

def after (a : Arena) (ops : List Op) : Arena := ops.foldl apply a

/-- What a call can leave behind. A call that is refused changes nothing. -/
inductive Step (a : Arena) : Op → Arena → Prop where
  | refused (op : Op) : Step a op a
  | allocate {capacity : Nat} {b : Arena} (h : a.allocate capacity = (.ok (), b)) :
    Step a (.allocate capacity) b
  | push {i : Nat} {b : Arena} (h : a.push = (.ok i, b)) : Step a .push b
  | pop : Step a .pop a.pop
  | write {i offset : Nat} {bytes : List UInt8} {b : Arena} (h : a.write i offset bytes = .ok b) :
    Step a (.write i offset bytes) b
  | pushHeap {bytes : List UInt8} {ref : HeapRef} {b : Arena} (h : a.pushHeap bytes = (.ok ref, b)) :
    Step a (.pushHeap bytes) b
  | reset : Step a .reset a.reset

variable {a b : Arena}

theorem step_apply (a : Arena) (op : Op) : Step a op (a.apply op) := by
  cases op with
  | allocate capacity =>
    rcases h : a.allocate capacity with ⟨_ | _, b⟩
    · rw [apply, h, allocate_error h]
      exact .refused _
    · rw [apply, h]
      exact .allocate h
  | push =>
    rcases h : a.push with ⟨_ | i, b⟩
    · rw [apply, h, push_error h]
      exact .refused _
    · rw [apply, h]
      exact .push h
  | pop => exact .pop
  | write i offset bytes =>
    rcases h : a.write i offset bytes with _ | b
    · simp only [apply, h]
      exact .refused _
    · simp only [apply, h]
      exact .write h
  | pushHeap bytes =>
    rcases h : a.pushHeap bytes with ⟨_ | ref, b⟩
    · rw [apply, h, pushHeap_error h]
      exact .refused _
    · rw [apply, h]
      exact .pushHeap h
  | reset => exact .reset

/-- What calls of some kind keep, a run of such calls keeps. -/
theorem after_keeps_of {P : Arena → Prop} {Q : Op → Prop} (hstep : ∀ {a op b}, P a → Q op → Step a op b → P b)
    (h : P a) {ops : List Op} (hq : ∀ op ∈ ops, Q op) : P (a.after ops) := by
  induction ops generalizing a with
  | nil => exact h
  | cons op rest ih =>
    have hnext : P (a.apply op) := hstep h (hq op List.mem_cons_self) (step_apply a op)
    exact ih hnext fun o ho => hq o (List.mem_cons_of_mem op ho)

/-- What every call keeps, a run keeps. -/
theorem after_keeps {P : Arena → Prop} (hstep : ∀ {a op b}, P a → Step a op b → P b) (h : P a)
    (ops : List Op) : P (a.after ops) :=
  after_keeps_of (Q := fun _ => True) (fun h _ hs => hstep h hs) h fun _ _ => trivial

theorem after_append (a : Arena) (first second : List Op) :
    a.after (first ++ second) = (a.after first).after second := List.foldl_append

theorem Valid.step (h : a.Valid) {op : Op} (hs : Step a op b) : b.Valid := by
  cases hs with
  | refused => exact h
  | allocate ha => exact (h.allocate ha).2.2
  | push hp => exact h.push hp
  | pop => exact h.pop
  | write hw => exact h.write hw
  | pushHeap hp => exact h.pushHeap hp
  | reset => exact h.reset

theorem Valid.after (h : a.Valid) (ops : List Op) : (a.after ops).Valid :=
  after_keeps (fun h hs => h.step hs) h ops

/-- An arena keeps its stride and its limit for good. -/
theorem Step.frame {op : Op} (hs : Step a op b) : b.stride = a.stride ∧ b.limit = a.limit := by
  cases hs with
  | refused => exact ⟨rfl, rfl⟩
  | allocate h =>
    obtain ⟨_, _, _, rfl⟩ := allocate_ok h
    exact ⟨rfl, rfl⟩
  | push h =>
    obtain ⟨_, _, rfl⟩ := push_ok h
    exact ⟨rfl, rfl⟩
  | pop => exact ⟨(pop_frame a).1, (pop_frame a).2.1⟩
  | write h =>
    obtain ⟨_, _, rfl⟩ := write_ok h
    exact ⟨rfl, rfl⟩
  | pushHeap h =>
    obtain ⟨_, _, _, _, rfl⟩ := pushHeap_ok h
    exact ⟨rfl, rfl⟩
  | reset => exact ⟨rfl, rfl⟩

theorem after_frame (a : Arena) (ops : List Op) :
    (a.after ops).stride = a.stride ∧ (a.after ops).limit = a.limit :=
  after_keeps (P := fun b => b.stride = a.stride ∧ b.limit = a.limit)
    (fun hb hs => ⟨hs.frame.1.trans hb.1, hs.frame.2.trans hb.2⟩) ⟨rfl, rfl⟩ ops

def Op.Extends : Op → Prop
  | .pop | .reset => False
  | _ => True

private theorem Step.heap_grows {op : Op} (hs : Step a op b) (ho : op.Extends) : a.heap.toList <+: b.heap.toList := by
  cases hs with
  | refused => exact List.prefix_refl _
  | allocate h =>
    obtain ⟨_, _, _, rfl⟩ := allocate_ok h
    exact List.prefix_refl _
  | push h =>
    obtain ⟨_, _, rfl⟩ := push_ok h
    exact List.prefix_refl _
  | write h =>
    obtain ⟨_, _, rfl⟩ := write_ok h
    exact List.prefix_refl _
  | pushHeap h => exact (grown_pushHeap h).heap
  | pop | reset => exact ho.elim

/-- Until something is taken back, the heap stays as it is and grows behind what it holds. -/
theorem heap_grows_after {ops : List Op} (h : ∀ op ∈ ops, op.Extends) :
    a.heap.toList <+: (a.after ops).heap.toList :=
  after_keeps_of (P := fun b => a.heap.toList <+: b.heap.toList)
    (fun hp ho hs => hp.trans (hs.heap_grows ho)) (List.prefix_refl _) h

end GroupingSets.Arena
