import GroupingSets.Proofs.Repeat.Counters
import GroupingSets.Proofs.Repeat.Expansion

/-! The rows that a repeat emits keep to the layout that its plan declares. Nothing is asked of the child: what
its rows cannot give an output row, no output row has. -/
namespace GroupingSets

namespace Expr

private theorem eval_unbind (e : Expr) (row : Row) : e.unbind.eval row = e.eval row := by cases e <;> rfl

/-- The expressions of a repeat have the values of those it was created with. -/
private theorem exists_eval_eq {es fs : List Expr} (h : es.map (·.unbind) = fs.map (·.unbind)) {j : Nat} {f : Expr}
    (hf : fs[j]? = some f) (row : Row) : ∃ e, es[j]? = some e ∧ e.eval row = f.eval row := by
  have hj := congrArg (·[j]?) h
  simp only [List.getElem?_map, hf, Option.map_some, Option.map_eq_some_iff] at hj
  obtain ⟨e, he, hu⟩ := hj
  exact ⟨e, he, by rw [← eval_unbind e, hu, eval_unbind]⟩

end Expr

namespace Repeat

namespace Plan

/-- An output row of a combination that keeps to the layout, for an input row. -/
structure Conforms (p : Plan) (exprs : List Expr) (combination : Nat) (row out : Row) : Prop where
  /-- Every slot can be read, is null only if it may be, and else has a value of its type. -/
  typed : ∀ (j : Nat) slot, p.outputLayout.slots[j]? = some slot →
    ∃ v, out.value j = .ok v ∧ (v = .null ∧ slot.nullable = true ∨ v.datatype? = some slot.datatype)
  /-- Every indicator slot has the number of the combination, whatever its id is and even if it may be null. -/
  indicator : ∀ (k : Nat) column, p.descriptor.groupingList[k]? = some column →
    ∃ n v, column[combination]? = some n ∧ out.value (exprs.length + k) = .ok v ∧ v ≠ .null ∧
      v.integer? = some n
  /-- A value slot that is not grouped by is null only if its expression is. -/
  value : ∀ (j : Nat) slot expr, p.outputLayout.slots[j]? = some slot → exprs[j]? = some expr →
    slot.id ∉ p.descriptor.groupingSlots → out.value j = .ok .null → expr.eval row = .ok .null

variable {p : Plan} {exprs : List Expr} {combination : Nat} {row : Row} {values : List Scalar}

/-- Whether its expressions are bound does not matter to a row that conforms. -/
private theorem Conforms.unbind {out : Row} {es fs : List Expr} (h : p.Conforms es combination row out)
    (hu : es.map (·.unbind) = fs.map (·.unbind)) : p.Conforms fs combination row out where
  typed := h.typed
  indicator k column hk := by
    have hlen : es.length = fs.length := by simpa using congrArg List.length hu
    rw [← hlen]
    exact h.indicator k column hk
  value j slot f hj hf hid hnull := by
    obtain ⟨e, he, heval⟩ := Expr.exists_eval_eq hu hf row
    rw [← heval]
    exact h.value j slot e hj he hid hnull

private theorem Outputs.value (h : p.Outputs exprs combination row values) {j : Nat} {slot : Slot} {expr : Expr}
    (hj : p.outputLayout.slots[j]? = some slot) (he : exprs[j]? = some expr) :
    ∃ v, values[j]? = some v ∧ Gets (p.descriptor.hides combination) row slot expr v := by
  obtain ⟨got, hgot, rfl⟩ := h
  have hz : (p.outputLayout.slots.zip exprs)[j]? = some (slot, expr) :=
    List.getElem?_zip_eq_some.mpr ⟨hj, he⟩
  obtain ⟨hl, hall⟩ := List.forall₂_iff_get.mp hgot
  obtain ⟨hlt, hpair⟩ := List.getElem?_eq_some_iff.mp hz
  have hv := hall j hlt (hl ▸ hlt)
  simp only [List.get_eq_getElem, hpair] at hv
  exact ⟨_, by rw [List.getElem?_append_left (hl ▸ hlt), List.getElem?_eq_getElem (hl ▸ hlt)], hv⟩

private theorem Outputs.number (hp : p.Sound (exprs.map (·.datatype))) (h : p.Outputs exprs combination row values)
    {k : Nat} {slot : Slot} {column : List Int64}
    (hk : p.outputLayout.slots[exprs.length + k]? = some slot)
    (hcol : p.descriptor.groupingList[k]? = some column) :
    values[exprs.length + k]? = some (.ofInteger slot.datatype (column.getD combination 0)) := by
  obtain ⟨got, hgot, rfl⟩ := h
  have hlen : got.length = exprs.length := by
    rw [← hgot.length_eq, List.length_zip, Nat.min_eq_right (Nat.le.intro hp.length_slots.symm)]
  rw [List.getElem?_append_right (by omega), hlen, Nat.add_sub_cancel_left, List.getElem?_zipWith,
    List.getElem?_drop, hk, hcol]

/-- A value slot that gets null may be null: if it is hidden it is grouped by, and else it took the null. -/
private theorem Sound.nullable_of_gets (hp : p.Sound (exprs.map (·.datatype))) {j : Nat} {slot : Slot} {expr : Expr}
    (hj : p.outputLayout.slots[j]? = some slot) (he : exprs[j]? = some expr)
    (h : Gets (p.descriptor.hides combination) row slot expr .null) : slot.nullable = true := by
  unfold Gets at h
  split at h
  · next hh =>
    rw [Descriptor.hides, Bool.and_eq_true, decide_eq_true_iff] at hh
    exact hp.nullable j slot hj (by rw [List.length_map]; exact (List.getElem?_eq_some_iff.mp he).1) hh.1
  · exact h.2 rfl

/-- The number of a combination is not null in an indicator slot, and is read back from it. -/
private theorem Sound.exists_number (hp : p.Sound (exprs.map (·.datatype))) (hc : combination < p.numCombinations)
    {k : Nat} {slot : Slot} {column : List Int64}
    (hk : p.outputLayout.slots[exprs.length + k]? = some slot)
    (hcol : p.descriptor.groupingList[k]? = some column) :
    ∃ n, column[combination]? = some n ∧
      (Scalar.ofInteger slot.datatype (column.getD combination 0)).integer? = some n := by
  have hn := List.getElem?_eq_getElem (hp.columns column (List.mem_of_getElem? hcol) ▸ hc)
  refine ⟨_, hn, ?_⟩
  rw [List.getD_eq_getElem?_getD, hn, Option.getD_some]
  refine Scalar.integer?_ofInteger (hp.fits k slot column ?_ hcol _ (List.getElem_mem _))
  rwa [List.length_map]

/-- A row with the values of an output row conforms. -/
private theorem Outputs.conforms (hp : p.Sound (exprs.map (·.datatype))) (hc : combination < p.numCombinations)
    (h : p.Outputs exprs combination row values) {out : Row} (hs : out.Sound)
    (hl : out.layout = p.outputLayout) (hv : out.values = .ok values) :
    p.Conforms exprs combination row out := by
  have hread := (Row.values_eq_ok_iff.mp hv).2
  have hcount := hp.length_slots
  constructor
  case typed =>
    intro j slot hj
    obtain ⟨v, hval, hnull | htype⟩ := hs.exists_value (hl ▸ hj)
    · refine ⟨v, hval, Or.inl ⟨hnull, ?_⟩⟩
      by_cases hlt : j < exprs.length
      · obtain ⟨w, hw, hgets⟩ := h.value hj (List.getElem?_eq_getElem hlt)
        cases hval.symm.trans (hread j w hw)
        exact hp.nullable_of_gets hj (List.getElem?_eq_getElem hlt) (hnull ▸ hgets)
      · -- An indicator slot is not null.
        have hj' : p.outputLayout.slots[exprs.length + (j - exprs.length)]? = some slot := by
          rwa [Nat.add_sub_cancel' (Nat.le_of_not_lt hlt)]
        have hcol := List.getElem?_eq_getElem (l := p.descriptor.groupingList) (i := j - exprs.length)
          (by have := (List.getElem?_eq_some_iff.mp hj).1; omega)
        have hw := hread _ _ (h.number hp hj' hcol)
        obtain ⟨n, _, hn⟩ := hp.exists_number hc hj' hcol
        rw [Nat.add_sub_cancel' (Nat.le_of_not_lt hlt)] at hw
        cases hval.symm.trans hw
        rw [hnull] at hn
        cases hn
    · exact ⟨v, hval, Or.inr htype⟩
  case indicator =>
    intro k column hcol
    have hk := List.getElem?_eq_getElem (l := p.outputLayout.slots) (i := exprs.length + k)
      (by have := (List.getElem?_eq_some_iff.mp hcol).1; omega)
    obtain ⟨n, hn, hint⟩ := hp.exists_number hc hk hcol
    refine ⟨n, _, hn, hread _ _ (h.number hp hk hcol), fun hnull => ?_, hint⟩
    rw [hnull] at hint
    cases hint
  case value =>
    intro j slot expr hj he hid hnull
    obtain ⟨v, hvj, hgets⟩ := h.value hj he
    have hshown : p.descriptor.hides combination slot.id = false := by
      rw [Descriptor.hides, decide_eq_false hid, Bool.false_and]
    rw [Gets, if_neg (Bool.eq_false_iff.mp hshown)] at hgets
    cases hnull.symm.trans (hread j v hvj)
    exact hgets.1

/-- Once a combination is written, every row of the output conforms for the input row in the same place. -/
private theorem Sound.writeCombination_conforms {input output c : Batch} (hp : p.Sound (exprs.map (·.datatype)))
    (hc : combination < p.numCombinations) (hv : output.Valid) (he : output.numRows = 0)
    (hl : output.layout = p.outputLayout)
    (h : p.writeCombination exprs input combination output = (.ok (), c)) :
    c.numRows = input.numRows ∧ ∀ i, i < c.numRows →
      ∃ row out, input.row i = .ok row ∧ c.row i = .ok out ∧ p.Conforms exprs combination row out := by
  have hkept : c.layout = output.layout := by
    obtain ⟨ops, hops⟩ := p.exists_ops_writeCombination exprs combination input output
    rw [h] at hops
    exact congrArg (·.layout) hops |>.trans (hv.after_keeps ops).2.1
  obtain ⟨outs, houts, hholds⟩ := hp.outputs_of_writeCombination hc hv he hl h
  obtain ⟨hlen, hall⟩ := List.forall₂_iff_get.mp houts
  rw [List.length_range] at hlen
  refine ⟨hholds.numRows.trans hlen.symm, fun i hi => ?_⟩
  have hi' : i < outs.length := by rwa [← hholds.numRows]
  obtain ⟨row, hrow, hout⟩ := hall i (by rw [List.length_range]; omega) hi'
  rw [List.get_eq_getElem, List.getElem_range] at hrow
  obtain ⟨out, hout_row, hvalues⟩ := Batch.row_of_values (hholds.values i _ (List.getElem?_eq_getElem hi'))
  have hlay : out.layout = p.outputLayout := by
    obtain ⟨record, _, rfl⟩ := Batch.row_ok hout_row
    exact hkept.trans hl
  exact ⟨row, out, hrow, hout_row, hout.conforms hp hc (hholds.valid.sound i out hout_row) hlay hvalues⟩

end Plan

variable {σ : Type} [Operator σ]

/-- Whatever child a repeat is over and however it is called, every row of an output of which a pull says that
there may be more conforms, for the row in the same place of the batch that the child delivered last and for
the combination that is due. -/
theorem hasMore_conforms {tables : LayoutTable} {d : Descriptor} {exprs : List Expr} {child : σ}
    {r : Repeat (Watched σ)} (h : (create tables d exprs ⟨child, []⟩).1 = .ok r) (calls : List Call)
    (c : Context) {output : Batch} (ho : Batch.Built r.plan.outputLayout output) :
    let s := r.run calls
    let pulled := s.pull c output
    pulled.result = .ok .hasMore →
      ∃ input, pulled.state.child.delivered.getLast? = some input ∧
        pulled.output.numRows = input.numRows ∧
        ∀ i, i < pulled.output.numRows →
          ∃ row out, input.row i = .ok row ∧ pulled.output.row i = .ok out ∧
            r.plan.Conforms exprs s.combination row out := by
  intro s pulled hm
  obtain ⟨p, hp, rfl⟩ := create_ok_iff.mp h
  obtain ⟨_, _, hs⟩ := Plan.build_ok hp
  have hpass := passes_of_ok hm
  have hopen : s.phase ≠ .closed := ne_closed_of_opened hpass.2.1
  obtain ⟨hplan, hexprs⟩ : s.plan = p ∧ s.exprs.map (·.unbind) = exprs.map (·.unbind) := run_keeps _ calls
  have ht : Tallies p.numCombinations s _ := (tallies_new hs.combinations_pos exprs child).run hopen
  obtain ⟨input, hlast, _, _, hw⟩ := ht.written hm
  rw [hplan] at hw
  rw [← Expr.map_datatype_unbind hexprs] at hs
  obtain ⟨hrows, hconforms⟩ := hs.writeCombination_conforms ht.combination_lt ho.valid
    ((Batch.isEmpty_iff output).mp hpass.2.2) ho.layout_eq hw
  refine ⟨input, hlast, hrows, fun i hi => ?_⟩
  obtain ⟨row, out, hrow, hout, hc⟩ := hconforms i hi
  exact ⟨row, out, hrow, hout, hc.unbind hexprs⟩

/-- The first two slots have one id, and the indicator slot may be null and has the id of a slot that is grouped
by. The second combination hides the first two slots only. -/
theorem conforms_shared_ids :
    let layout : Layout :=
      ⟨⟨1⟩, [⟨⟨10⟩, .int32, true⟩, ⟨⟨10⟩, .utf8, true⟩, ⟨⟨11⟩, .int32, false⟩, ⟨⟨12⟩, .int64, true⟩]⟩
    let d : Descriptor := ⟨.ofList [⟨10⟩, ⟨12⟩], [.ofList [⟨10⟩], ∅], [0, 1], [[5, 6]], ⟨1⟩⟩
    let exprs : List Expr := [.ofColumn 0 .int32, .ofColumn 1 .utf8, .ofColumn 0 .int32]
    let plan : Plan := ⟨d, layout, 3, [⟨3, #[0]⟩, ⟨3, #[3]⟩]⟩
    let child : Script := { Sample.child with entries := [⟨[[.int32 7, .utf8 "a"]], .ok .hasMore⟩] }
    let r : Repeat (Watched Script) := { plan, exprs, child := ⟨child, []⟩ }
    let output := Batch.new layout 1 none
    let s := r.run [.start Sample.context, .pull Sample.context output]
    let pulled := s.pull Sample.context output
    pulled.output.toRows.toOption = some [[.null, .null, .int32 7, .int64 6]] ∧
      ∃ row out, pulled.output.row 0 = .ok out ∧ plan.Conforms exprs s.combination row out := by
  intro layout d exprs plan child r output s pulled
  have hr : (create ⟨[layout]⟩ d exprs (⟨child, []⟩ : Watched Script)).1 = .ok r :=
    create_ok_iff.mpr ⟨plan, ok_of_toOption (by decide +kernel), rfl⟩
  have hmore : pulled.result = .ok .hasMore := ok_of_toOption (by decide +kernel)
  obtain ⟨input, _, _, hconforms⟩ := hasMore_conforms hr [.start Sample.context, .pull Sample.context output]
    Sample.context (Batch.built_new layout 1 none) hmore
  obtain ⟨row, out, _, hout, hc⟩ := hconforms 0 (by decide +kernel)
  exact ⟨by decide +kernel, row, out, hout, hc⟩

end Repeat

end GroupingSets
