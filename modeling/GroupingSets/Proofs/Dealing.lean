import Mathlib.Algebra.Order.Floor.Div

/-! Lists that are dealt out in chunks, and lists that repeat each chunk for a number of purposes. -/
namespace GroupingSets

section Chunks
variable {α : Type} {size : Nat} {rows : List α}

/-- What comes in place `j` when rows are dealt out `size` at a time. -/
def chunk (size : Nat) (rows : List α) (j : Nat) : List α := (rows.drop (size * j)).take size

def chunks (size : Nat) (rows : List α) : List (List α) :=
  (List.range (rows.length ⌈/⌉ size)).map (chunk size rows)

theorem length_chunk (j : Nat) : (chunk size rows j).length = min size (rows.length - size * j) := by
  rw [chunk, List.length_take, List.length_drop]

private theorem flatten_range_chunk (count : Nat) :
    ((List.range count).map (chunk size rows)).flatten = rows.take (size * count) := by
  induction count with
  | zero => simp
  | succ count ih =>
    rw [List.range_succ, List.map_append, List.flatten_append, ih, List.map_singleton,
      List.flatten_singleton, chunk, Nat.mul_succ, List.take_add]

/-- Dealing out loses no row and changes no place. -/
theorem flatten_chunks (hs : 0 < size) : (chunks size rows).flatten = rows := by
  rw [chunks, flatten_range_chunk]
  exact List.take_of_length_le (le_smul_ceilDiv hs)

end Chunks

section Blocks
variable {α β : Type}

/-- What stands in the places that leave `i` when they are divided by `n`. -/
def everyNth (n i : Nat) (xs : List α) : List α :=
  (xs.zipIdx.filter fun (_, m) => m % n = i).map (·.1)

/-- Of `n` elements in a row, one is in such a place. -/
private theorem filter_block {n i : Nat} (hi : i < n) (f : Nat → α) (s : Nat) :
    ((((List.range n).map f).zipIdx (n * s)).filter fun (_, m) => m % n = i).map (·.1) = [f i] := by
  have hz : ((List.range n).map f).zipIdx (n * s) = (List.range n).map fun x => (f x, n * s + x) :=
    List.ext_getElem (by simp) (by simp)
  have hone : (List.range n).filter (fun x => (n * s + x) % n = i) = [i] := by
    rw [List.filter_congr (q := fun x => x == i)]
    · rw [List.filter_beq, List.count_range, if_pos hi]
      rfl
    · intro x hx
      rw [Nat.mul_add_mod, Nat.mod_eq_of_lt (List.mem_range.mp hx)]
      rfl
  have hplaces : (fun (_, m) => decide (m % n = i)) ∘ (fun x => (f x, n * s + x)) =
      fun x => decide ((n * s + x) % n = i) := rfl
  rw [hz, List.filter_map, List.map_map, hplaces, hone]
  rfl

/-- If every element is repeated for `n` purposes, those for one purpose are every `n`th. -/
theorem everyNth_flatMap {n i : Nat} (hi : i < n) (cs : List β) (f : β → Nat → α) :
    everyNth n i (cs.flatMap fun c => (List.range n).map (f c)) = cs.map fun c => f c i := by
  suffices h : ∀ s, (((cs.flatMap fun c => (List.range n).map (f c)).zipIdx (n * s)).filter
      fun (_, m) => m % n = i).map (·.1) = cs.map fun c => f c i from h 0
  intro s
  induction cs generalizing s with
  | nil => rfl
  | cons c rest ih =>
    rw [List.flatMap_cons, List.zipIdx_append, List.filter_append, List.map_append, filter_block hi,
      List.length_map, List.length_range, ← Nat.mul_succ, ih]
    rfl

/-- Blocks of `n` elements as one list, in which every place tells its block and the place in there. -/
theorem flatMap_range_map (n count : Nat) (f : Nat → Nat → α) :
    (List.range count).flatMap (fun j => (List.range n).map (f j)) =
      (List.range (n * count)).map fun m => f (m / n) (m % n) := by
  induction count with
  | zero => rfl
  | succ count ih =>
    rw [List.range_succ, List.flatMap_append, ih, Nat.mul_succ, List.range_add, List.map_append,
      List.map_map, List.flatMap_singleton]
    refine congrArg (_ ++ ·) (List.map_congr_left fun x hx => ?_)
    have hlt := List.mem_range.mp hx
    rw [Function.comp, Nat.mul_add_div (by omega), Nat.div_eq_of_lt hlt, Nat.mul_add_mod,
      Nat.mod_eq_of_lt hlt, Nat.add_zero]

/-- As many elements as the chunks have together, once for each purpose. -/
theorem sum_length_flatMap (n : Nat) (cs : List (List α)) (f : Nat → α → β) :
    ((cs.flatMap fun c => (List.range n).map fun i => c.map (f i)).map List.length).sum =
      cs.flatten.length * n := by
  induction cs with
  | nil => simp
  | cons c rest ih =>
    rw [List.flatMap_cons, List.map_append, List.sum_append, ih, List.flatten_cons, List.length_append,
      Nat.add_mul]
    simp [Function.comp_def, Nat.mul_comm]

end Blocks

end GroupingSets
