import GroupingSets.Proofs.Repeat.Expansion
import GroupingSets.Proofs.Repeat.Run

/-! A plan that passes its checks and expressions that pass theirs are enough: writing a combination
fails for want of room or memory, or for a null in a slot that takes none, and for nothing else. -/
namespace GroupingSets

namespace Expr

inductive Made : Expr → Prop
  | column (index : Nat) (type : DataType) : Made (.ofColumn index type)
  | value (v : Scalar) (e : Expr) : ofValue v = .ok e → Made e
  | null (type : DataType) : Made (.typedNull type)

/-- An expression whose value for a row of the layout is null or of its type. -/
def Fits (input : Layout) : Expr → Prop
  | .column index type _ => ∃ slot, input.slots[index]? = some slot ∧ slot.datatype = type
  | .literal value type => value = .null ∨ value.datatype? = some type

private theorem fits_unbind {input : Layout} {e : Expr} : e.unbind.Fits input ↔ e.Fits input := by
  cases e <;> exact Iff.rfl

/-- An expression that was made in one of these ways and can be bound to a layout fits it. -/
private theorem Made.fits {input : Layout} {e bound : Expr} (h : e.Made) (hb : e.bind input = .ok bound) :
    e.Fits input := by
  cases h with
  | column index type =>
    unfold bind ofColumn at hb
    dsimp only at hb
    split at hb
    · cases hb
    · next slot hs =>
      split at hb
      · next ht => exact ⟨slot, hs, ht⟩
      · cases hb
  | value v _ hv =>
    unfold ofValue at hv
    split at hv
    · next ht =>
      cases hv
      exact Or.inr ht
    · cases hv
  | null type => exact Or.inl rfl

private theorem Fits.exists_eval {e : Expr} {row : Row} (h : e.Fits row.layout) (hs : row.Sound) :
    ∃ v, e.eval row = .ok v ∧ (v = .null ∨ v.datatype? = some e.datatype) := by
  cases e with
  | column index type bound =>
    obtain ⟨slot, hi, rfl⟩ := h
    exact hs.exists_value hi
  | literal value type => exact ⟨value, rfl, h⟩

private theorem fits_of_unbind {input : Layout} {es fs : List Expr} (h : es.map (·.unbind) = fs.map (·.unbind))
    (hf : ∀ e ∈ fs, e.Fits input) : ∀ e ∈ es, e.Fits input := by
  intro e he
  have hu : e.unbind ∈ fs.map (·.unbind) := h ▸ List.mem_map_of_mem he
  obtain ⟨other, ho, hsame⟩ := List.mem_map.mp hu
  rw [← fits_unbind, ← hsame, fits_unbind]
  exact hf other ho

private theorem bind_unbind (e : Expr) (input : Layout) : e.unbind.bind input = e.bind input := by
  cases e <;> rfl

private theorem bindAll_ok {input : Layout} {es fs : List Expr} (h : bindAll input es = (.ok (), fs)) :
    ∀ e ∈ es, ∃ bound, e.bind input = .ok bound := by
  induction es generalizing fs with
  | nil =>
    intro e he
    cases he
  | cons first rest ih =>
    unfold bindAll at h
    split at h
    · cases h
    · next bound hb =>
      obtain ⟨hr, _⟩ := Prod.mk.inj h
      intro e he
      rcases List.mem_cons.mp he with rfl | he
      · exact ⟨bound, hb⟩
      · exact ih (Prod.ext hr rfl) e he

end Expr

namespace Repeat

namespace Plan

/-- A slot that the combination does not hide and that takes no null, and an expression for it that is
null for an input row. -/
def Nulled (p : Plan) (exprs : List Expr) (combination : Nat) (input : Batch) (slot : Slot) : Prop :=
  ∃ (j : Nat) (expr : Expr) (i : Nat) (values : List Scalar), p.outputLayout.slots[j]? = some slot ∧
    exprs[j]? = some expr ∧ slot.nullable = false ∧ p.descriptor.hides combination slot.id = false ∧
    input.values i = .ok values ∧ expr.on values = .null

variable {p : Plan} {exprs : List Expr} {combination : Nat} {input : Batch}

/-- If the expressions fit the input, only memory and nulls can stop the writing of rows. -/
private theorem Sound.stopped_cases (hp : p.Sound (exprs.map (·.datatype))) (hin : input.Valid)
    (hfits : ∀ e ∈ exprs, e.Fits input.layout) {capacity : Nat} (hroom : input.numRows ≤ capacity)
    {failure : Failure} (h : Stopped p exprs combination input capacity input.numRows failure) :
    ∃ e, failure = .error e ∧
      (e.kind = .allocationFailure ∨
        ∃ slot, e = .nullForNonNullable slot.id ∧ p.Nulled exprs combination input slot) := by
  cases h with
  | begun b e hcap hn hb =>
    refine ⟨e, rfl, Or.inl ?_⟩
    cases hb with
    | full hle => omega
    | overflow stride capacity => rfl
    | limit wanted limit => rfl
    | reservation => rfl
  | row i row _ hrow hblocked =>
    obtain ⟨j, slot, expr, hj, he, hh, hwhy⟩ := hblocked
    have hs := hin.sound i row hrow
    obtain ⟨record, _, hre⟩ := Batch.row_ok hrow
    have hlay : row.layout = input.layout := by rw [hre]
    have hfit : expr.Fits row.layout := hlay ▸ hfits expr (List.mem_of_getElem? he)
    obtain ⟨v, hv, htype⟩ := hfit.exists_eval hs
    rcases hwhy with hf | ⟨w, err, hw, rfl, href⟩
    · rw [hv] at hf
      cases hf
    · rw [hv] at hw
      cases hw
      refine ⟨err, rfl, ?_⟩
      have hdt : slot.datatype = expr.datatype :=
        hp.datatype j slot expr.datatype hj (by rw [List.getElem?_map, he]; rfl)
      cases href with
      | null hnull hnn =>
        obtain ⟨values, hvalues⟩ := hs.exists_values
        refine Or.inr ⟨slot, rfl, j, expr, i, values, hj, he, hnn, hh, ?_, ?_⟩
        · rw [Batch.values, hrow]
          exact hvalues
        · rw [← Expr.eval_ok hvalues hv, hnull]
      | mismatch hne hmm =>
        rw [hdt] at hmm
        exact absurd htype (not_or.mpr ⟨hne, hmm⟩)
      | overflow wanted _ => exact Or.inl rfl
      | limit wanted available limit _ => exact Or.inl rfl

/-- What is nulled depends on the expressions only as far as they are not bound. -/
private theorem Nulled.of_unbind {others : List Expr} (h : exprs.map (·.unbind) = others.map (·.unbind))
    {slot : Slot} (hn : p.Nulled exprs combination input slot) : p.Nulled others combination input slot := by
  obtain ⟨j, expr, i, values, hj, he, hnn, hh, hi, hnull⟩ := hn
  have hu : (others.map (·.unbind))[j]? = some expr.unbind := by
    rw [← h, List.getElem?_map, he]
    rfl
  rw [List.getElem?_map, Option.map_eq_some_iff] at hu
  obtain ⟨other, ho, hsame⟩ := hu
  exact ⟨j, other, i, values, hj, ho, hnn, hh, hi, by rw [← Expr.on_unbind, hsame, Expr.on_unbind, hnull]⟩

/-- If the expressions fit the input, the writing of a combination fails for want of room or of memory,
or for a null. -/
private theorem Sound.writeCombination_safe (hp : p.Sound (exprs.map (·.datatype)))
    (hfits : ∀ e ∈ exprs, e.Fits input.layout) (hc : combination < p.numCombinations)
    (hin : input.Valid) {output : Batch} (hv : output.Valid) (he : output.numRows = 0)
    (hl : output.layout = p.outputLayout) :
    let result := (p.writeCombination exprs input combination output).1
    (result = .error (.error (.outputTooSmall output.capacity input.numRows)) ↔
        output.capacity < input.numRows) ∧
      (result = .ok () ∨ result = .error (.error (.outputTooSmall output.capacity input.numRows)) ∨
        ∃ e, result = .error (.error e) ∧
          (e.kind = .allocationFailure ∨
            ∃ slot, e = .nullForNonNullable slot.id ∧ p.Nulled exprs combination input slot)) := by
  by_cases hroom : input.numRows ≤ output.capacity
  · obtain ⟨rows, hrows⟩ := hin.exists_toRows
    have hy := hp.writeCombination_yields hc hrows hv he hl hroom
    rcases hw : p.writeCombination exprs input combination output with ⟨failure | u, b⟩
    · rw [hw] at hy
      obtain ⟨e, rfl, hwhy⟩ := hp.stopped_cases hin hfits hroom hy
      refine ⟨iff_of_false ?_ (Nat.not_lt_of_le hroom), Or.inr (Or.inr ⟨e, rfl, hwhy⟩)⟩
      intro hf
      cases hf
      rcases hwhy with hk | ⟨slot, hslot, _⟩
      · cases hk
      · cases hslot
    · exact ⟨iff_of_false (fun hf => nomatch hf) (Nat.not_lt_of_le hroom), Or.inl rfl⟩
  · have hlt := Nat.lt_of_not_le hroom
    rw [writeCombination_too_small hlt]
    exact ⟨iff_of_true rfl hlt, Or.inr (Or.inl rfl)⟩

end Plan

variable {σ : Type} [Operator σ]

private theorem bindAll_of_start {r : Repeat σ} {c : Context} (h : (r.start c).result = .ok ()) :
    ∃ bound, Expr.bindAll (Operator.outputLayout r.child) r.exprs = (.ok (), bound) := by
  unfold start at h
  split at h
  · cases h
  · cases h
  · split at h
    · cases h
    · next bound hb => exact ⟨bound, hb⟩

/-- The expressions of a repeat that was started fit the rows of its child. -/
private theorem fits_of_start {exprs : List Expr} (hmade : ∀ e ∈ exprs, e.Made) {r : Repeat σ}
    (hexprs : r.exprs.map (·.unbind) = exprs.map (·.unbind)) {c : Context}
    (h : (r.start c).result = .ok ()) : ∀ e ∈ exprs, e.Fits (Operator.outputLayout r.child) := by
  obtain ⟨bound, hb⟩ := bindAll_of_start h
  intro e he
  have hu : e.unbind ∈ r.exprs.map (·.unbind) := hexprs ▸ List.mem_map_of_mem he
  obtain ⟨other, ho, hsame⟩ := List.mem_map.mp hu
  obtain ⟨b, hbind⟩ := Expr.bindAll_ok hb other ho
  rw [← Expr.bind_unbind, hsame, Expr.bind_unbind] at hbind
  exact (hmade e he).fits hbind

/-- A plan that was accepted and a start that succeeded are sufficient. From any batch of rows of the
child, any combination can be written into any empty output of the plan, unless the output has no room
for all rows, there is not enough memory, or a null meets a slot that takes none. -/
theorem writeCombination_sufficient {tables : LayoutTable} {d : Descriptor} {exprs : List Expr} {child : σ}
    {created : Repeat σ} (h : (create tables d exprs child).1 = .ok created)
    (hmade : ∀ e ∈ exprs, e.Made) (before : List Call) {c : Context}
    (hstart : ((created.run before).start c).result = .ok ()) (after : List Call) {combination : Nat}
    (hc : combination < d.keepSets.length) {input output : Batch}
    (hin : Batch.Built (Operator.outputLayout (created.run before).child) input)
    (hout : Batch.Built created.plan.outputLayout output) (he : output.numRows = 0) :
    let r := (created.run before).run (.start c :: after)
    let result := (r.plan.writeCombination r.exprs input combination output).1
    (result = .error (.error (.outputTooSmall output.capacity input.numRows)) ↔
        output.capacity < input.numRows) ∧
      (result = .ok () ∨ result = .error (.error (.outputTooSmall output.capacity input.numRows)) ∨
        ∃ e, result = .error (.error e) ∧
          (e.kind = .allocationFailure ∨
            ∃ slot, e = .nullForNonNullable slot.id ∧
              created.plan.Nulled exprs combination input slot)) := by
  intro r result
  obtain ⟨p, hp, rfl⟩ := create_ok_iff.mp h
  obtain ⟨rfl, _, hs⟩ := Plan.build_ok hp
  obtain ⟨hplan, hexprs⟩ := run_keeps { plan := p, exprs, child } (before ++ .start c :: after)
  rw [run_append] at hplan hexprs
  have hstarted := fits_of_start hmade (run_keeps { plan := p, exprs, child } before).2 hstart
  have hfits : ∀ e ∈ r.exprs, e.Fits input.layout := by
    rw [hin.layout_eq]
    exact Expr.fits_of_unbind hexprs hstarted
  have hs' : p.Sound (r.exprs.map (·.datatype)) := by rwa [Expr.map_datatype_unbind hexprs]
  have hplan' : r.plan = p := hplan
  rw [← hs.numCombinations] at hc
  obtain ⟨hsmall, hcases⟩ :=
    hs'.writeCombination_safe hfits hc hin.valid hout.valid he hout.layout_eq
  rw [show result = (p.writeCombination r.exprs input combination output).1 by rw [← hplan']]
  refine ⟨hsmall, hcases.imp_right fun hcases => hcases.imp_right fun ⟨e, hw, hwhy⟩ => ⟨e, hw, ?_⟩⟩
  exact hwhy.imp_right fun ⟨slot, hslot, hn⟩ => ⟨slot, hslot, hn.of_unbind hexprs⟩

/-- The second of two columns goes to a slot that takes no null. Two rows of values are written with the first column
hidden, also where that is null already. A null in the second column is refused after a row was written, and an output
with room for one row is refused both. -/
theorem writeCombination_sufficient_of_two_rows :
    let layout : Layout := ⟨⟨1⟩, [⟨⟨10⟩, .int32, true⟩, ⟨⟨11⟩, .utf8, false⟩, ⟨⟨12⟩, .int64, false⟩]⟩
    let d : Descriptor := ⟨.ofList [⟨10⟩], [.ofList [⟨10⟩], ∅], [0, 1], [[5, 6]], ⟨1⟩⟩
    let created : Repeat Script :=
      { plan := ⟨d, layout, 2, [⟨2, #[0]⟩, ⟨2, #[1]⟩]⟩, exprs := Sample.exprs, child := Sample.child }
    let r := (created.run []).run [.start Sample.context]
    let empty := Batch.new Sample.child.layout 2 none
    let full := empty.after [.append [.int32 7, .utf8 "a"], .append [.null, .utf8 "b"]]
    let nulled := empty.after [.append [.int32 7, .utf8 "a"], .append [.int32 8, .null]]
    let output := Batch.new layout 2 none
    (r.plan.writeCombination r.exprs full 1 output).1 = .ok () ∧
      (r.plan.writeCombination r.exprs full 1 output).2.toRows =
        .ok [[.null, .utf8 "a", .int64 6], [.null, .utf8 "b", .int64 6]] ∧
      (r.plan.writeCombination r.exprs nulled 1 output).1 = .error (.error (.nullForNonNullable ⟨11⟩)) ∧
      (r.plan.writeCombination r.exprs nulled 1 output).2.numRows = 1 ∧
      (∃ slot, slot.id = ⟨11⟩ ∧ created.plan.Nulled Sample.exprs 1 nulled slot) ∧
      (r.plan.writeCombination r.exprs full 1 (Batch.new layout 1 none)).1 = .error (.error (.outputTooSmall 1 2)) := by
  intro layout d created r empty full nulled output
  have hmade : ∀ e ∈ Sample.exprs, e.Made := by
    intro e he
    rcases List.mem_pair.mp he with rfl | rfl
    · exact .column 0 .int32
    · exact .column 1 .utf8
  have hcreated : (create ⟨[layout]⟩ d Sample.exprs Sample.child).1 = .ok created :=
    create_ok_iff.mpr ⟨created.plan, ok_of_toOption (by decide +kernel), rfl⟩
  have hstart : ((created.run []).start Sample.context).result = .ok () := by rfl
  have sufficient {input output : Batch} (hin : Batch.Built Sample.child.layout input)
      (hout : Batch.Built layout output) (he : output.numRows = 0) :=
    writeCombination_sufficient hcreated hmade [] hstart [] (by decide : 1 < d.keepSets.length) hin hout he
  have hfull : Batch.Built Sample.child.layout full := ⟨2, none, _, rfl⟩
  have hnulled : Batch.Built Sample.child.layout nulled := ⟨2, none, _, rfl⟩
  have hrefused : (r.plan.writeCombination r.exprs nulled 1 output).1 = .error (.error (.nullForNonNullable ⟨11⟩)) := by
    have h : (match (r.plan.writeCombination r.exprs nulled 1 output).1 with
        | .error (.error (.nullForNonNullable ⟨11⟩)) => true
        | _ => false) = true := by decide +kernel
    generalize (r.plan.writeCombination r.exprs nulled 1 output).1 = result at h ⊢
    split at h
    · rfl
    · cases h
  refine ⟨ok_of_toOption (by decide +kernel), ok_of_toOption (by decide +kernel), hrefused, by decide +kernel, ?_, ?_⟩
  · obtain ⟨_, hcases⟩ := sufficient hnulled (Batch.built_new layout 2 none) rfl
    rcases hcases with hok | hsmall | ⟨e, he, hkind | ⟨slot, hslot, hnull⟩⟩
    · rw [hrefused] at hok
      cases hok
    · rw [hrefused] at hsmall
      cases hsmall
    · rw [hrefused] at he
      cases he
      cases hkind
    · rw [hrefused, hslot] at he
      have hid : (⟨11⟩ : SlotId) = slot.id := Error.nullForNonNullable.inj (Failure.error.inj (Except.error.inj he))
      exact ⟨slot, hid.symm, hnull⟩
  · have hrows : full.numRows = 2 := by decide +kernel
    obtain ⟨hsmall, _⟩ := sufficient hfull (Batch.built_new layout 1 none) rfl
    rw [hrows] at hsmall
    exact hsmall.mpr (Nat.lt_succ_self 1)

end Repeat

end GroupingSets
