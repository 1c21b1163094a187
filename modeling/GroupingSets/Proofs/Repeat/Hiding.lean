import GroupingSets.Proofs.Repeat.Expansion
import GroupingSets.Proofs.Repeat.Run

/-! What a combination hides stays hidden. The output of a combination is the same, byte for byte, for any
two inputs on which the values it shows agree, and where it hides a slot it leaves zeros. -/
namespace GroupingSets

/-- A row that was begun has no bytes but zeros. -/
private theorem Batch.Begun.place {b : Batch} {d : Draft} (h : b.Begun d) {k : Nat} {slot : Slot}
    (hk : b.layout.slots[k]? = some slot) :
    d.row.place k slot = List.replicate slot.datatype.width 0 := by
  have hle := b.layout.offset_add_width_le_recordWidth hk
  have hl : d.row.layout = b.layout := h.layout
  rw [Row.place, h.zeros, hl, List.drop_replicate, List.take_replicate, Nat.min_eq_left (by omega)]

namespace Repeat.Plan

def AlikeRows (p : Plan) (exprs : List Expr) (combination : Nat) (r s : Row) : Prop :=
  ∀ (j : Nat) slot expr, p.outputLayout.slots[j]? = some slot → exprs[j]? = some expr →
    p.descriptor.hides combination slot.id = false → expr.eval r = expr.eval s

/-- Two inputs that only what the combination hides can tell apart. -/
structure Alike (p : Plan) (exprs : List Expr) (combination : Nat) (a b : Batch) : Prop where
  numRows : a.numRows = b.numRows
  rows : ∀ i r s, a.row i = .ok r → b.row i = .ok s → p.AlikeRows exprs combination r s

section TwoRuns
variable {p : Plan} {exprs : List Expr} {combination : Nat} {mask : Bitmap}

/-- An expression whose slot is masked is not evaluated. -/
private theorem writeValues_congr {r s : Row} {position : Nat}
    (h : ∀ (j : Nat) expr, exprs[j]? = some expr → mask.get (position + j) = .ok false →
      expr.eval r = expr.eval s) (d : Draft) :
    writeValues mask r position exprs d = writeValues mask s position exprs d := by
  induction exprs generalizing position d with
  | nil => rfl
  | cons expr rest ih =>
    have hrest (e : Draft) :
        writeValues mask r (position + 1) rest e = writeValues mask s (position + 1) rest e :=
      ih (fun j other hj hm => h (j + 1) other hj (by rwa [Nat.add_assoc, Nat.add_comm 1] at hm)) e
    unfold writeValues
    cases hm : mask.get position with
    | error fault => rfl
    | ok masked =>
      cases masked with
      | true =>
        dsimp only
        split
        · rfl
        · exact hrest _
      | false =>
        dsimp only
        rw [h 0 expr rfl hm]
        split
        · rfl
        · split
          · rfl
          · exact hrest _

private theorem Sound.writeRow_congr {r s : Row} (hp : p.Sound (exprs.map (·.datatype)))
    (hm : p.mask combination = .ok mask) (h : p.AlikeRows exprs combination r s) :
    p.writeRow exprs combination mask r = p.writeRow exprs combination mask s := by
  funext d
  have hvalues (first : Draft) :
      writeValues mask r 0 exprs first = writeValues mask s 0 exprs first := by
    refine writeValues_congr (fun j expr hj hget => ?_) first
    have hlt : j < (exprs.map (·.datatype)).length := by
      rw [List.length_map]
      exact (List.getElem?_eq_some_iff.mp hj).1
    have hslot : j < p.outputLayout.slots.length := by
      have := hp.numSlots
      rw [Layout.numSlots] at this
      omega
    have hs := List.getElem?_eq_getElem hslot
    rw [Nat.zero_add, hp.mask_get hm hs hlt] at hget
    exact h j _ expr hs hj (Except.ok.inj hget)
  unfold writeRow
  split
  · rfl
  · rw [hvalues]

private theorem Sound.writeRows_congr {a b : Batch} (hp : p.Sound (exprs.map (·.datatype)))
    (hm : p.mask combination = .ok mask) (hab : p.Alike exprs combination a b) {places : List Nat}
    (hplaces : ∀ i ∈ places, i < a.numRows) (output : Batch) :
    p.writeRows exprs combination mask a places output =
      p.writeRows exprs combination mask b places output := by
  induction places generalizing output with
  | nil => rfl
  | cons first rest ih =>
    obtain ⟨hfirst, hrest⟩ := List.forall_mem_cons.mp hplaces
    obtain ⟨r, hr⟩ := Batch.exists_row hfirst
    obtain ⟨s, hs⟩ := Batch.exists_row (hab.numRows ▸ hfirst)
    unfold writeRows
    rw [hr, hs]
    dsimp only
    rw [hp.writeRow_congr hm (hab.rows first r s hr hs)]
    split
    · rfl
    · exact ih hrest _

/-- For inputs that look alike, writing a combination comes to the same. -/
private theorem Sound.writeCombination_congr {a b : Batch} (hp : p.Sound (exprs.map (·.datatype)))
    (hab : p.Alike exprs combination a b) (output : Batch) :
    p.writeCombination exprs a combination output = p.writeCombination exprs b combination output := by
  unfold writeCombination
  rw [hab.numRows]
  split
  · rfl
  · split
    · rfl
    · next hm => exact hp.writeRows_congr hm hab (fun i hi => hab.numRows ▸ List.mem_range.mp hi) output

end TwoRuns

/-- In every row the slots that a combination hides hold zeros. -/
def Blanked (p : Plan) (combination : Nat) (b : Batch) : Prop :=
  ∀ i r, b.row i = .ok r → ∀ (j : Nat) slot, p.outputLayout.slots[j]? = some slot → j < p.numValueSlots →
    p.descriptor.hides combination slot.id = true →
    r.place j slot = List.replicate slot.datatype.width 0

section Zeros
variable {p : Plan} {exprs : List Expr} {combination : Nat} {mask : Bitmap}

/-- The bytes of a slot that is hidden are those that the record began with. -/
private theorem Sound.place_writeRow {row : Row} {d : Draft} (hp : p.Sound (exprs.map (·.datatype)))
    (hm : p.mask combination = .ok mask) (hd : d.Valid) (hs : d.row.Sound) (hl : d.layout = p.outputLayout)
    {j : Nat} {slot : Slot} (hj : p.outputLayout.slots[j]? = some slot) (hlt : j < p.numValueSlots)
    (hh : p.descriptor.hides combination slot.id = true) :
    (p.writeRow exprs combination mask row d).2.row.place j slot = d.row.place j slot := by
  obtain ⟨writes, hw, ht⟩ := p.exists_writes_writeRow exprs combination mask row d
  rw [hw]
  refine hd.place_writeAll hs (hl ▸ hj) fun w hmem hj' => ?_
  rcases ht w hmem j hj' with hshown | hle
  · rw [hp.mask_get hm hj (hp.numValueSlots ▸ hlt), hh] at hshown
    cases hshown
  · omega

/-- One more row that is written for a combination keeps what it hides blank. -/
private theorem Sound.blanked_appendWith {row : Row} {b c : Batch} (hp : p.Sound (exprs.map (·.datatype)))
    (hm : p.mask combination = .ok mask) (hb : b.Valid) (hl : b.layout = p.outputLayout)
    (h : p.Blanked combination b)
    (hc : b.appendWith (p.writeRow exprs combination mask row) = (.ok (), c)) :
    p.Blanked combination c := by
  obtain ⟨d, e, hbegun, hwrite, hkept, rfl⟩ :=
    hb.appendWith_ok (p.careful_writeRow exprs combination mask row) hc
  have hx := hbegun.extended_commit hb hkept
  intro i r hr j slot hj hlt hh
  have hi := Batch.lt_of_row hr
  rw [hx.numRows] at hi
  by_cases hlast : i = b.numRows
  · rw [hlast, hbegun.row_commit hkept] at hr
    cases hr
    have hplace : (p.writeRow exprs combination mask row d).2.row.place j slot = d.row.place j slot :=
      hp.place_writeRow hm hbegun.valid hbegun.sound (hbegun.layout.trans hl) hj hlt hh
    rw [hwrite] at hplace
    exact hplace.trans (hbegun.place (hl ▸ hj))
  · obtain ⟨old, ho⟩ := Batch.exists_row (by omega : i < b.numRows)
    obtain ⟨record, hrec, rfl⟩ := Batch.row_ok ho
    obtain ⟨record', hrec', rfl⟩ := Batch.row_ok hr
    have hsame : record' = record :=
      Except.ok.inj (hrec'.symm.trans ((hbegun.record hkept.grown (by omega)).trans hrec))
    have hold := h i _ ho j slot hj hlt hh
    rwa [Row.place, hsame, hx.layout]

private theorem Sound.blanked_writeRows {input output c : Batch} (hp : p.Sound (exprs.map (·.datatype)))
    (hm : p.mask combination = .ok mask) (hv : output.Valid) (hl : output.layout = p.outputLayout)
    (h : p.Blanked combination output) {places : List Nat}
    (hc : p.writeRows exprs combination mask input places output = (.ok (), c)) :
    p.Blanked combination c := by
  induction places generalizing output with
  | nil =>
    cases hc
    exact h
  | cons first rest ih =>
    unfold writeRows at hc
    split at hc
    · cases hc
    · next row _ =>
      rcases ha : output.appendWith (p.writeRow exprs combination mask row) with ⟨failure | u, b⟩
      · rw [ha] at hc
        cases hc
      · rw [ha] at hc
        obtain ⟨d, e, hbegun, _, hkept, rfl⟩ :=
          hv.appendWith_ok (p.careful_writeRow exprs combination mask row) ha
        exact ih (hbegun.valid_commit hv hkept) ((hbegun.extended_commit hv hkept).layout.trans hl)
          (hp.blanked_appendWith hm hv hl h ha) hc

/-- An output that was empty is blank wherever the combination that was written hides a slot. -/
private theorem Sound.blanked_writeCombination {input output c : Batch} (hp : p.Sound (exprs.map (·.datatype)))
    (hv : output.Valid) (he : output.numRows = 0) (hl : output.layout = p.outputLayout)
    (hc : p.writeCombination exprs input combination output = (.ok (), c)) : p.Blanked combination c := by
  have hempty : p.Blanked combination output := fun i _ hr => by
    have := Batch.lt_of_row hr
    omega
  unfold writeCombination at hc
  split at hc
  · cases hc
  · split at hc
    · cases hc
    · next hm => exact hp.blanked_writeRows hm hv hl hempty hc

end Zeros

/-- A combination tells nothing about what it hides. Written into batches that are new or were reset, any
two inputs that look alike to it come to the same result and to the same output, with every byte of the
records, the heap and the memory that is reserved. In the output the slots it hides hold zeros, and the heap
holds the bytes of the values that are shown, and no others. -/
theorem writeCombination_blind {d : Descriptor} {tables : LayoutTable} {exprs : List Expr} {p : Plan}
    (h : (build d tables exprs).1 = .ok p) {bound : List Expr}
    (hbound : bound.map (·.unbind) = exprs.map (·.unbind)) {combination : Nat}
    (hc : combination < d.keepSets.length) {layout : Layout} {a b : Batch}
    (ha : Batch.Built layout a) (hab : p.Alike bound combination a b)
    {capacity : Nat} {limit : Option Nat} {output spare : Batch}
    (ho : Batch.Cleared p.outputLayout capacity limit output)
    (hs : Batch.Cleared p.outputLayout capacity limit spare) :
    p.writeCombination bound a combination output = p.writeCombination bound b combination spare ∧
      ∀ c, p.writeCombination bound a combination output = (.ok (), c) →
        p.Blanked combination c ∧
          ∃ rows, a.toRows = .ok rows ∧
            c.arena.heap.toList = (rows.map (d.expandRow p.outputLayout.slots exprs combination)).flatMap
              fun row => row.flatMap Scalar.payload := by
  obtain ⟨rfl, _, hp⟩ := build_ok h
  rw [← Expr.map_datatype_unbind hbound] at hp
  rw [← hp.numCombinations] at hc
  cases ho.eq_new
  cases hs.eq_new
  have hv := Batch.valid_new p.outputLayout capacity limit
  refine ⟨hp.writeCombination_congr hab _, fun c hw => ⟨hp.blanked_writeCombination hv rfl rfl hw, ?_⟩⟩
  obtain ⟨rows, hrows⟩ := ha.valid.exists_toRows
  have hholds := hp.writeCombination_holds hc hrows hv rfl rfl hw
  rw [p.descriptor.expandRow_unbind _ hbound] at hholds
  exact ⟨rows, hrows, hholds.heap⟩

/-- Two rows that differ in a text, which is hidden, are written to a new output and to one that has held
other rows. -/
theorem writeCombination_blind_text :
    let input (text : String) : Batch :=
      (Batch.new Sample.child.layout 2 none).after [.append [.int32 7, .utf8 text]]
    let output := Batch.new Sample.layout 2 none
    let spare := (output.after [.append [.int32 1, .utf8 "used", .int64 2]]).reset
    let written := Sample.plan.writeCombination Sample.exprs (input "a") 0 output
    written = Sample.plan.writeCombination Sample.exprs (input "secret") 0 spare ∧
      written.1 = .ok () ∧ Sample.plan.Blanked 0 written.2 := by
  intro input output spare written
  have hvalue (text : String)
      (h : ((input text).values 0).toOption = some [.int32 7, .utf8 text]) (r : Row)
      (hr : (input text).row 0 = .ok r) : r.value 0 = .ok (.int32 7) := by
    obtain ⟨s, hs, hv⟩ := Batch.row_of_values (ok_of_toOption h)
    rw [hr] at hs
    cases hs
    exact (Row.values_eq_ok_iff.mp hv).2 0 _ rfl
  have halike : Sample.plan.Alike Sample.exprs 0 (input "a") (input "secret") := by
    refine ⟨by decide +kernel, fun i r s hr hs j slot expr hslot hexpr hshown => ?_⟩
    have hone : (input "a").numRows = 1 := by decide +kernel
    obtain rfl : i = 0 := by
      have := Batch.lt_of_row hr
      omega
    match j with
    | 0 =>
      cases hexpr
      exact (hvalue "a" (by decide +kernel) r hr).trans (hvalue "secret" (by decide +kernel) s hs).symm
    | 1 =>
      cases hslot
      have hhidden : Sample.plan.descriptor.hides 0 ⟨11⟩ = true := by decide
      rw [hhidden] at hshown
      cases hshown
    | j + 2 => cases hexpr
  have hwritten : written.1 = .ok () := ok_of_toOption (by decide +kernel)
  have hin : Batch.Built Sample.child.layout (input "a") :=
    ⟨2, none, [.append [.int32 7, .utf8 "a"]], rfl⟩
  have hspare : Batch.Cleared Sample.layout 2 none spare :=
    ⟨[.append [.int32 1, .utf8 "used", .int64 2]], rfl⟩
  have hc : 0 < Sample.descriptor.keepSets.length := by decide
  obtain ⟨hsame, hblank⟩ := writeCombination_blind Sample.build_eq rfl hc hin halike
    (Batch.cleared_new Sample.layout 2 none) hspare
  have hpair : written = (.ok (), written.2) := by rw [← hwritten]
  exact ⟨hsame, hwritten, (hblank written.2 hpair).1⟩

end Repeat.Plan

end GroupingSets
