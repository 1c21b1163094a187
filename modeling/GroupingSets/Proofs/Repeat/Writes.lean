import GroupingSets.Proofs.Batch.Frame
import GroupingSets.Proofs.Repeat.Run

/-! Writing a combination as operations on the output. Whatever it comes to, each row is one record that
is begun, written and then kept or given up, and no bytes are written into a slot that is masked. -/
namespace GroupingSets

private theorem Batch.exists_op_appendWith (b : Batch) {write : Draft → Except Failure Unit × Draft}
    (hw : ∀ d : Draft, ∃ writes, (write d).2 = d.writeAll writes) :
    ∃ op, (b.appendWith write).2 = b.apply op := by
  unfold appendWith
  rcases hb : b.beginRecord with ⟨e | i, c⟩
  · exact ⟨.record [] false, by rw [apply, hb]⟩
  · obtain ⟨writes, hd⟩ := hw ⟨c, i⟩
    dsimp only
    rcases hr : write ⟨c, i⟩ with ⟨failure | u, e⟩
    · rw [hr] at hd
      refine ⟨.record writes false, ?_⟩
      rw [apply, hb]
      exact congrArg Draft.discard hd
    · rw [hr] at hd
      refine ⟨.record writes true, ?_⟩
      rw [apply, hb]
      exact congrArg Draft.commit hd

namespace Repeat.Plan

private theorem exists_writes_writeValues (mask : Bitmap) (row : Row) (position : Nat) (exprs : List Expr)
    (d : Draft) : ∃ writes, (writeValues mask row position exprs d).2 = d.writeAll writes ∧
      ∀ w ∈ writes, ∀ i, w.target? = some i → mask.get i = .ok false := by
  induction exprs generalizing d position with
  | nil => exact ⟨[], rfl, fun w hw => nomatch hw⟩
  | cons expr rest ih =>
    unfold writeValues
    split
    · exact ⟨[], rfl, fun w hw => nomatch hw⟩
    · have hn (w : Draft.Write) (hw : w ∈ [.null position]) (i : Nat) (ht : w.target? = some i) :
          mask.get i = .ok false := by
        rw [List.mem_singleton.mp hw] at ht
        cases ht
      split
      · next hr => exact ⟨[.null position], (congrArg Prod.snd hr).symm, hn⟩
      · next u e hr =>
        obtain ⟨writes, hw, ht⟩ := ih (position + 1) e
        refine ⟨.null position :: writes, ?_, List.forall_mem_cons.mpr ⟨hn _ List.mem_cons_self, ht⟩⟩
        rw [hw, show e = (d.write (.null position)).2 from (congrArg Prod.snd hr).symm]
        rfl
    · next hm =>
      split
      · exact ⟨[], rfl, fun w hw => nomatch hw⟩
      · next v _ =>
        have hn (w : Draft.Write) (hw : w ∈ [.value position v]) (i : Nat) (ht : w.target? = some i) :
            mask.get i = .ok false := by
          rw [List.mem_singleton.mp hw] at ht
          cases ht
          exact hm
        split
        · next hr => exact ⟨[.value position v], (congrArg Prod.snd hr).symm, hn⟩
        · next u e hr =>
          obtain ⟨writes, hw, ht⟩ := ih (position + 1) e
          refine ⟨.value position v :: writes, ?_, List.forall_mem_cons.mpr ⟨hn _ List.mem_cons_self, ht⟩⟩
          rw [hw, show e = (d.write (.value position v)).2 from (congrArg Prod.snd hr).symm]
          rfl

private theorem exists_writes_writeIndicators (position : Nat) (numbers : List Int64) (d : Draft) :
    ∃ writes, (writeIndicators position numbers d).2 = d.writeAll writes ∧
      ∀ w ∈ writes, ∀ i, w.target? = some i → position ≤ i := by
  induction numbers generalizing d position with
  | nil => exact ⟨[], rfl, fun w hw => nomatch hw⟩
  | cons n rest ih =>
    have hn (w : Draft.Write) (hw : w ∈ [.integer position n]) (i : Nat) (ht : w.target? = some i) :
        position ≤ i := by
      rw [List.mem_singleton.mp hw] at ht
      cases ht
      exact Nat.le_refl _
    unfold writeIndicators
    split
    · next hr => exact ⟨[.integer position n], (congrArg Prod.snd hr).symm, hn⟩
    · next u e hr =>
      obtain ⟨writes, hw, ht⟩ := ih (position + 1) e
      refine ⟨.integer position n :: writes, ?_, List.forall_mem_cons.mpr ⟨hn _ List.mem_cons_self, ?_⟩⟩
      · rw [hw, show e = (d.write (.integer position n)).2 from (congrArg Prod.snd hr).symm]
        rfl
      · exact fun w hw i ht' => Nat.le_of_succ_le (ht w hw i ht')

/-- A row is written by writes that put bytes only into value slots that are not masked and into indicator
slots. -/
theorem exists_writes_writeRow (p : Plan) (exprs : List Expr) (combination : Nat) (mask : Bitmap)
    (row : Row) (d : Draft) :
    ∃ writes, (p.writeRow exprs combination mask row d).2 = d.writeAll writes ∧
      ∀ w ∈ writes, ∀ i, w.target? = some i → mask.get i = .ok false ∨ p.numValueSlots ≤ i := by
  have hclear (w : Draft.Write) (hw : w ∈ [.clearNulls]) (i : Nat) (ht : w.target? = some i) :
      mask.get i = .ok false ∨ p.numValueSlots ≤ i := by
    rw [List.mem_singleton.mp hw] at ht
    cases ht
  unfold writeRow
  split
  · next hr => exact ⟨[.clearNulls], (congrArg Prod.snd hr).symm, hclear⟩
  · next u first hr =>
    have hfirst : first = d.writeAll [.clearNulls] := (congrArg Prod.snd hr).symm
    obtain ⟨values, hv, hvt⟩ := exists_writes_writeValues mask row 0 exprs first
    have hboth := List.forall_mem_append.mpr ⟨hclear, fun w hw i ht => Or.inl (hvt w hw i ht)⟩
    split
    · next hw =>
      rw [hw] at hv
      exact ⟨[.clearNulls] ++ values, by rw [d.writeAll_append, ← hfirst]; exact hv, hboth⟩
    · next second hw =>
      rw [hw] at hv
      have hsecond : second = d.writeAll ([.clearNulls] ++ values) := by
        rw [d.writeAll_append, ← hfirst]
        exact hv
      split
      · exact ⟨_, hsecond, hboth⟩
      · next numbers _ =>
        obtain ⟨more, hm, hmt⟩ := exists_writes_writeIndicators p.numValueSlots numbers second
        refine ⟨([.clearNulls] ++ values) ++ more, by rw [d.writeAll_append, ← hsecond]; exact hm, ?_⟩
        exact List.forall_mem_append.mpr ⟨hboth, fun w hw i ht => Or.inr (hmt w hw i ht)⟩

variable (p : Plan) (exprs : List Expr) (combination : Nat)

theorem careful_writeRow (mask : Bitmap) (row : Row) :
    Batch.Careful (p.writeRow exprs combination mask row) := by
  intro d hd hs
  obtain ⟨writes, hw, _⟩ := p.exists_writes_writeRow exprs combination mask row d
  rw [hw]
  exact Batch.Draft.Valid.kept_writeAll hd hs writes

private theorem stays_writeRow (mask : Bitmap) (row : Row) (d : Draft) :
    d.Stays (p.writeRow exprs combination mask row d).2 := by
  obtain ⟨writes, hw, _⟩ := p.exists_writes_writeRow exprs combination mask row d
  rw [hw]
  exact d.stays_writeAll writes

private theorem exists_ops_writeRows (mask : Bitmap) (input : Batch) (places : List Nat) (output : Batch) :
    ∃ ops, (p.writeRows exprs combination mask input places output).2 = output.after ops := by
  induction places generalizing output with
  | nil => exact ⟨[], rfl⟩
  | cons first rest ih =>
    unfold writeRows
    split
    · exact ⟨[], rfl⟩
    · next row _ =>
      obtain ⟨op, hop⟩ := output.exists_op_appendWith fun d =>
        (p.exists_writes_writeRow exprs combination mask row d).imp fun _ h => h.1
      split
      · next hr =>
        rw [hr] at hop
        exact ⟨[op], hop⟩
      · next b hr =>
        rw [hr] at hop
        obtain ⟨ops, ho⟩ := ih b
        exact ⟨op :: ops, ho.trans (congrArg (·.after ops) hop)⟩

/-- Whether or not it succeeds, writing a combination is a sequence of operations on the output. -/
theorem exists_ops_writeCombination (input output : Batch) :
    ∃ ops, (p.writeCombination exprs input combination output).2 = output.after ops := by
  unfold writeCombination
  split
  · exact ⟨[], rfl⟩
  · split
    · exact ⟨[], rfl⟩
    · exact p.exists_ops_writeRows exprs combination _ input _ output

private theorem numRows_writeRows {mask : Bitmap} {input : Batch} {places : List Nat} {output b : Batch}
    (h : p.writeRows exprs combination mask input places output = (.ok (), b)) :
    b.numRows = output.numRows + places.length := by
  induction places generalizing output with
  | nil =>
    cases h
    rfl
  | cons first rest ih =>
    unfold writeRows at h
    split at h
    · cases h
    · next row _ =>
      have hn := (output.appendWith_frame (p.stays_writeRow exprs combination mask row)).2
      split at h
      · cases h
      · next hr =>
        rw [hr] at hn
        rw [ih h, hn rfl, List.length_cons]
        omega

/-- A combination that was written has one row more for each input row. -/
theorem numRows_writeCombination {input output b : Batch}
    (h : p.writeCombination exprs input combination output = (.ok (), b)) :
    b.numRows = output.numRows + input.numRows := by
  unfold writeCombination at h
  split at h
  · cases h
  · split at h
    · cases h
    · rw [p.numRows_writeRows exprs combination h, List.length_range]

end Repeat.Plan

namespace Repeat
variable {σ : Type}

private theorem exists_ops_emit (r : Repeat σ) (output : Batch) :
    ∃ ops, (r.emit output).output = output.after ops := by
  cases hi : r.input with
  | none =>
    rw [emit_none hi]
    exact ⟨[], rfl⟩
  | some input =>
    obtain ⟨ops, ho⟩ := r.plan.exists_ops_writeCombination r.exprs r.combination input output
    have hem := emission hi output
    generalize r.emit output = pulled at hem
    cases hem with
    | faulted fault b hw =>
      rw [hw] at ho
      exact ⟨ops, ho⟩
    | failed e b hw =>
      rw [hw] at ho
      exact ⟨ops ++ [.reset], by rw [Batch.after_append, ← ho]; rfl⟩
    | written b events hw =>
      rw [hw] at ho
      exact ⟨ops, ho⟩

variable [Operator σ]

/-- A repeat is itself an operator that fills the batches it is given. -/
theorem fills_repeat : Fills (Repeat σ) := by
  intro c r output
  show ∃ ops, (r.pull c output).output = output.after ops
  have hpoll := polled r c output
  generalize r.pull c output = pulled at hpoll
  cases hpoll with
  | refused e _ => exact ⟨[], rfl⟩
  | again _ _ => exact r.exists_ops_emit output
  | finished _ _ _ => exact ⟨[], rfl⟩
  | failed failure events _ _ _ _ => exact ⟨[], rfl⟩
  | drained progress events _ _ _ _ _ => exact ⟨[], rfl⟩
  | loaded progress events _ _ _ _ _ => exact (r.loaded c progress).exists_ops_emit output

/-- A batch that was pulled into can be reset and pulled into again. -/
theorem cleared_pull {layout : Layout} {capacity : Nat} {limit : Option Nat} {output : Batch}
    (h : Batch.Cleared layout capacity limit output) (r : Repeat σ) (c : Context) :
    Batch.Cleared layout capacity limit (r.pull c output).output.reset := by
  obtain ⟨before, rfl⟩ := h
  obtain ⟨ops, ho⟩ := fills_repeat c r ((Batch.new layout capacity limit).after before).reset
  refine ⟨before ++ .reset :: ops, ?_⟩
  rw [Batch.after_append]
  exact congrArg Batch.reset ho

end Repeat

end GroupingSets
