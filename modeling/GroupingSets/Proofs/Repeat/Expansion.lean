import GroupingSets.Proofs.Batch.Rows
import GroupingSets.Proofs.Repeat.Plan
import GroupingSets.Proofs.Repeat.Writes

/-! The rows that a combination stands for, as lists of values, and that writing a combination gives
them. -/
namespace GroupingSets

namespace Expr

def on (row : List Scalar) : Expr → Scalar
  | .column index _ _ => row.getD index .null
  | .literal value _ => value

theorem eval_ok {e : Expr} {row : Row} {values : List Scalar} {v : Scalar} (hr : row.values = .ok values)
    (h : e.eval row = .ok v) : v = e.on values := by
  cases e with
  | literal value type =>
    cases h
    rfl
  | column index type bound =>
    obtain ⟨hl, hv⟩ := Row.values_eq_ok_iff.mp hr
    have hi : index < values.length := by
      rw [hl]
      refine Nat.lt_of_not_le fun hle => ?_
      rw [eval, Row.value, List.getElem?_eq_none hle] at h
      cases h
    have hx := List.getElem?_eq_getElem hi
    rw [on, List.getD_eq_getElem?_getD, hx]
    exact Except.ok.inj (h.symm.trans (hv index _ hx))

private theorem datatype_unbind (e : Expr) : e.unbind.datatype = e.datatype := by cases e <;> rfl

theorem map_datatype_unbind {es fs : List Expr} (h : es.map (·.unbind) = fs.map (·.unbind)) :
    es.map (·.datatype) = fs.map (·.datatype) := by
  have unbound (exprs : List Expr) : (exprs.map (·.unbind)).map (·.datatype) = exprs.map (·.datatype) := by
    rw [List.map_map]
    exact List.map_congr_left fun e _ => datatype_unbind e
  rw [← unbound es, h, unbound]

theorem on_unbind (e : Expr) (row : List Scalar) : e.unbind.on row = e.on row := by cases e <;> rfl

end Expr

namespace Repeat

/-- The output row of a combination for one input row: the values of the expressions, null where the
combination hides the slot, and the numbers of the combination. -/
def Descriptor.expandRow (d : Descriptor) (slots : List Slot) (exprs : List Expr) (combination : Nat)
    (row : List Scalar) : List Scalar :=
  List.zipWith (fun slot e => if d.hides combination slot.id then .null else e.on row) slots exprs ++
    List.zipWith (fun slot column => .ofInteger slot.datatype (column.getD combination 0))
      (slots.drop exprs.length) d.groupingList

/-- The expansion depends on the expressions only as far as they are not bound. -/
theorem Descriptor.expandRow_unbind (d : Descriptor) (slots : List Slot) {es fs : List Expr}
    (h : es.map (·.unbind) = fs.map (·.unbind)) : d.expandRow slots es = d.expandRow slots fs := by
  have unbound (exprs : List Expr) : d.expandRow slots (exprs.map (·.unbind)) = d.expandRow slots exprs := by
    funext combination row
    rw [expandRow, expandRow, List.zipWith_map_right, List.length_map]
    simp only [Expr.on_unbind]
  rw [← unbound es, h, unbound]

namespace Plan

section Writing
variable {d e : Draft} {mask : Bitmap} {row : Row}

/-- Why a row is not written: a slot that is not hidden and whose expression has no value, or a value that
the slot does not take. -/
def Blocked (hides : SlotId → Bool) (slots : List Slot) (exprs : List Expr) (row : Row)
    (failure : Failure) : Prop :=
  ∃ (j : Nat) (slot : Slot) (expr : Expr), slots[j]? = some slot ∧ exprs[j]? = some expr ∧
    hides slot.id = false ∧
    (expr.eval row = .error failure ∨
      ∃ v err, expr.eval row = .ok v ∧ failure = .error err ∧ Draft.Refused slot v err)

private theorem Blocked.cons {hides : SlotId → Bool} {slots : List Slot} {exprs : List Expr} {failure : Failure}
    (h : Blocked hides slots exprs row failure) (slot : Slot) (expr : Expr) :
    Blocked hides (slot :: slots) (expr :: exprs) row failure := by
  obtain ⟨j, s, e, hj, he, hh, hwhy⟩ := h
  exact ⟨j + 1, s, e, hj, he, hh, hwhy⟩

/-- What a value slot gets for a row: null if it is hidden, and else the value of its expression, which it
takes. -/
def Gets (hides : SlotId → Bool) (row : Row) (slot : Slot) (expr : Expr) (v : Scalar) : Prop :=
  if hides slot.id then v = .null else expr.eval row = .ok v ∧ (v = .null → slot.nullable = true)

private theorem Gets.eq {hides : SlotId → Bool} {slot : Slot} {expr : Expr} {v : Scalar} {values : List Scalar}
    (h : Gets hides row slot expr v) (hr : row.values = .ok values) :
    v = if hides slot.id then .null else expr.on values := by
  unfold Gets at h
  split at h
  · next hh => rw [if_pos hh, h]
  · next hh => rw [if_neg hh, Expr.eval_ok hr h.1]

private theorem eq_zipWith_of_gets {hides : SlotId → Bool} {values : List Scalar} (hr : row.values = .ok values)
    {slots : List Slot} {exprs : List Expr} {got : List Scalar}
    (h : List.Forall₂ (fun (slot, expr) v => Gets hides row slot expr v) (slots.zip exprs) got) :
    got = List.zipWith (fun slot expr => if hides slot.id then .null else expr.on values) slots exprs := by
  induction slots generalizing exprs got with
  | nil =>
    cases h
    rfl
  | cons slot more ih =>
    cases exprs with
    | nil =>
      cases h
      rfl
    | cons expr rest =>
      cases h with
      | cons hv hmore => rw [List.zipWith_cons_cons, ← Gets.eq hv hr, ← ih hmore]

/-- Each value slot gets the value of its expression, or null where the mask says so, up to a slot that is
not masked and does not take its value. -/
private theorem writeValues_gets (mask : Bitmap) (hides : SlotId → Bool) (row : Row) (hd : d.Valid)
    (hs : d.row.Sound) (position : Nat) {exprs : List Expr} (slots : List Slot) (hle : exprs.length ≤ slots.length)
    (hslots : ∀ (j : Nat) slot, slots[j]? = some slot → d.layout.slots[position + j]? = some slot)
    (hmask : ∀ (j : Nat) slot, slots[j]? = some slot → j < exprs.length →
      mask.get (position + j) = .ok (hides slot.id)) :
    Yields
      (fun e => ∃ values,
        List.Forall₂ (fun (slot, expr) v => Gets hides row slot expr v) (slots.zip exprs) values ∧
          Draft.Filled position values d e)
      (Blocked hides slots exprs row) (writeValues mask row position exprs d) := by
  induction exprs generalizing d position slots with
  | nil =>
    rw [List.zip_nil_right]
    exact ⟨[], .nil, .nil hd hs position⟩
  | cons expr rest ih =>
    obtain ⟨slot, more, rfl⟩ := List.exists_cons_of_length_pos (Nat.zero_lt_of_lt hle)
    have hi := hslots 0 slot rfl
    have hm := hmask 0 slot rfl (Nat.zero_lt_succ _)
    rw [Nat.add_zero] at hi hm
    -- Once this slot holds its value, the others are written as the induction hypothesis says.
    have tail {f : Draft} {v : Scalar} (hst : Draft.Stored position v d f) (hv : Gets hides row slot expr v) :
        Yields
          (fun e => ∃ values,
            List.Forall₂ (fun (slot, expr) v => Gets hides row slot expr v)
              ((slot :: more).zip (expr :: rest)) values ∧ Draft.Filled position values d e)
          (Blocked hides (slot :: more) (expr :: rest) row) (writeValues mask row (position + 1) rest f) := by
      have hlay : f.layout = d.layout := hst.writes.grown.layout
      refine (ih hst.writes.valid hst.sound (position + 1) more (Nat.le_of_succ_le_succ hle)
        (fun j s hj => ?_) (fun j s hj hlt => ?_)).imp (fun e hw => ?_) (fun failure hb => hb.cons slot expr)
      · rw [hlay, Nat.add_assoc, Nat.add_comm 1]
        exact hslots (j + 1) s hj
      · rw [Nat.add_assoc, Nat.add_comm 1]
        exact hmask (j + 1) s hj (Nat.succ_lt_succ hlt)
      · obtain ⟨values, hall, hf⟩ := hw
        exact ⟨v :: values, .cons hv hall, hf.cons hs hst⟩
    unfold writeValues
    rw [hm]
    cases hh : hides slot.id with
    | true =>
      obtain ⟨f, hf, hst⟩ := hd.putNull_stored hs hi
      dsimp only
      rw [hf]
      exact tail hst (by rw [Gets, if_pos hh])
    | false =>
      dsimp only
      cases he : expr.eval row with
      | error failure => exact ⟨0, slot, expr, rfl, rfl, hh, Or.inl he⟩
      | ok v =>
        dsimp only
        rcases hd.writeValue_cases hs hi v with ⟨err, f, hf, href, _⟩ | ⟨f, hf, hst⟩
        · rw [hf]
          exact ⟨0, slot, expr, rfl, rfl, hh, Or.inr ⟨v, err, he, rfl, href⟩⟩
        · have hv : Gets hides row slot expr v := by
            rw [Gets, if_neg (Bool.eq_false_iff.mp hh)]
            refine ⟨he, fun hnull => ?_⟩
            subst hnull
            exact Draft.nullable_of_writeValue hi hf
          rw [hf]
          exact tail hst hv

/-- Numbers that fit are all written, each in the type of its slot. -/
private theorem exists_writeIndicators (hd : d.Valid) (hs : d.row.Sound) (position : Nat) {numbers : List Int64}
    (slots : List Slot) (hle : numbers.length ≤ slots.length)
    (hslots : ∀ (j : Nat) slot, slots[j]? = some slot → d.layout.slots[position + j]? = some slot)
    (hfits : ∀ (j : Nat) slot n, slots[j]? = some slot → numbers[j]? = some n →
      Encoding.integerFits slot.datatype n = true) :
    ∃ e, writeIndicators position numbers d = (.ok (), e) ∧
      Draft.Filled position (List.zipWith (fun slot n => .ofInteger slot.datatype n) slots numbers) d e := by
  induction numbers generalizing d position slots with
  | nil =>
    rw [List.zipWith_nil_right]
    exact ⟨d, rfl, .nil hd hs position⟩
  | cons n rest ih =>
    obtain ⟨slot, more, rfl⟩ := List.exists_cons_of_length_pos (Nat.zero_lt_of_lt hle)
    have hi := hslots 0 slot rfl
    rw [Nat.add_zero] at hi
    unfold writeIndicators
    rcases hd.writeInteger_cases hs hi n with ⟨_, f, _, hf, _⟩ | ⟨f, hf, _, hst⟩
    · rw [hfits 0 slot n rfl rfl] at hf
      cases hf
    · rw [hf]
      have hlay : f.layout = d.layout := hst.writes.grown.layout
      have hmore (j : Nat) (s : Slot) (hj : more[j]? = some s) :
          f.layout.slots[position + 1 + j]? = some s := by
        rw [hlay, Nat.add_assoc, Nat.add_comm 1]
        exact hslots (j + 1) s hj
      obtain ⟨e, he, hfill⟩ := ih hst.writes.valid hst.sound (position + 1) more (Nat.le_of_succ_le_succ hle)
        hmore fun j s m hj hn => hfits (j + 1) s m hj hn
      exact ⟨e, he, hfill.cons hs hst⟩

end Writing

private theorem lt_of_mask {p : Plan} {combination : Nat} {mask : Bitmap} (h : p.mask combination = .ok mask) :
    combination < p.numCombinations := by
  unfold Plan.mask at h
  split at h
  · next hm => exact (List.getElem?_eq_some_iff.mp hm).1
  · cases h

variable {p : Plan} {exprs : List Expr} {combination : Nat} {mask : Bitmap}

theorem Sound.length_slots (hp : p.Sound (exprs.map (·.datatype))) :
    p.outputLayout.slots.length = exprs.length + p.descriptor.groupingList.length := by
  have hn := hp.numSlots
  rwa [List.length_map] at hn

private theorem Sound.indicators_eq {types : List DataType} (hp : p.Sound types)
    (hc : combination < p.numCombinations) :
    p.indicators combination = .ok (p.descriptor.groupingList.map (·.getD combination 0)) := by
  refine mapM_eq_ok_iff.mpr ?_
  rw [List.forall₂_map_right_iff, List.forall₂_same]
  intro column hm
  have hx := List.getElem?_eq_getElem (hp.columns column hm ▸ hc)
  rw [List.getD_eq_getElem?_getD, hx]
  rfl

theorem Sound.mask_get {types : List DataType} (hp : p.Sound types) (hm : p.mask combination = .ok mask)
    {i : Nat} {slot : Slot} (hi : p.outputLayout.slots[i]? = some slot) (hlt : i < types.length) :
    mask.get i = .ok (p.descriptor.hides combination slot.id) := by
  obtain ⟨found, hf, hget⟩ := hp.mask combination (lt_of_mask hm)
  rw [hm] at hf
  cases hf
  exact hget i slot hi hlt

/-- The number of a combination in an indicator column fits into the slot of the column. -/
private theorem Sound.fits_getD {types : List DataType} (hp : p.Sound types) (hc : combination < p.numCombinations)
    {j : Nat} {slot : Slot} {n : Int64} (hj : p.outputLayout.slots[types.length + j]? = some slot)
    (hn : (p.descriptor.groupingList.map (·.getD combination 0))[j]? = some n) :
    Encoding.integerFits slot.datatype n = true := by
  rw [List.getElem?_map, Option.map_eq_some_iff] at hn
  obtain ⟨column, hcol, rfl⟩ := hn
  have hlen := hp.columns column (List.mem_of_getElem? hcol)
  refine hp.fits j slot column hj hcol _ ?_
  rw [List.getD_eq_getElem?_getD, List.getElem?_eq_getElem (hlen ▸ hc)]
  exact List.getElem_mem _

/-- The values of an output row of a combination for an input row: each value slot has what it gets, and each
indicator slot the number of the combination, in its own type. -/
def Outputs (p : Plan) (exprs : List Expr) (combination : Nat) (row : Row) (out : List Scalar) : Prop :=
  ∃ values,
    List.Forall₂ (fun (slot, expr) v => Gets (p.descriptor.hides combination) row slot expr v)
      (p.outputLayout.slots.zip exprs) values ∧
    out = values ++ List.zipWith (fun slot column => .ofInteger slot.datatype (column.getD combination 0))
      (p.outputLayout.slots.drop exprs.length) p.descriptor.groupingList

/-- If the input row has values, the output row is its expansion. -/
private theorem Outputs.eq_expandRow {row : Row} {values out : List Scalar} (h : p.Outputs exprs combination row out)
    (hr : row.values = .ok values) :
    out = p.descriptor.expandRow p.outputLayout.slots exprs combination values := by
  obtain ⟨got, hgot, rfl⟩ := h
  rw [Descriptor.expandRow, eq_zipWith_of_gets hr hgot]

/-- A record that is written for an input row holds an output row for it, and the heap gets the bytes of that
output row and no others. -/
private theorem Sound.writeRow_outputs (row : Row) {d : Draft} (hp : p.Sound (exprs.map (·.datatype)))
    (hm : p.mask combination = .ok mask) (hd : d.Valid) (hs : d.row.Sound) (hl : d.layout = p.outputLayout) :
    Yields
      (fun e => ∃ out, p.Outputs exprs combination row out ∧ e.row.values = .ok out ∧
        e.row.heap.toList = d.batch.arena.heap.toList ++ out.flatMap Scalar.payload)
      (Blocked (p.descriptor.hides combination) p.outputLayout.slots exprs row)
      (p.writeRow exprs combination mask row d) := by
  have hcount := hp.length_slots
  have hnv : p.numValueSlots = exprs.length := by
    rw [hp.numValueSlots, List.length_map]
  have hle : exprs.length ≤ p.outputLayout.slots.length := Nat.le.intro hcount.symm
  obtain ⟨first, hclear, hv, hg, _, hheap⟩ := hd.clearNulls
  have hc : d.Kept first := ⟨hv, hg, (hd.clearNulls_sound hs hclear).2.2.1⟩
  have hlay : first.layout = p.outputLayout := hc.grown.layout.trans hl
  have hvalues := writeValues_gets mask (p.descriptor.hides combination) row hc.valid hc.sound 0
    p.outputLayout.slots hle
    (fun j slot hj => by rw [hlay, Nat.zero_add]; exact hj)
    (fun j slot hj hlt => by
      rw [Nat.zero_add]
      exact hp.mask_get hm hj (by rw [List.length_map]; exact hlt))
  unfold writeRow
  rw [hclear]
  dsimp only
  rcases hw : writeValues mask row 0 exprs first with ⟨failure | u, second⟩
  · rw [hw] at hvalues
    exact hvalues
  · rw [hw] at hvalues
    obtain ⟨values, hgot, hf⟩ := hvalues
    have hlay' : second.layout = p.outputLayout := hf.kept.grown.layout.trans hlay
    rw [hp.indicators_eq (lt_of_mask hm)]
    dsimp only
    obtain ⟨e, he, hfill⟩ := exists_writeIndicators hf.kept.valid hf.kept.sound p.numValueSlots
      (p.outputLayout.slots.drop exprs.length)
      (by rw [List.length_map, List.length_drop]; omega)
      (fun j slot hj => by rw [hlay', hnv, ← List.getElem?_drop]; exact hj)
      (fun j slot n hj hn => hp.fits_getD (lt_of_mask hm)
        (by rw [List.length_map, ← List.getElem?_drop]; exact hj) hn)
    rw [List.zipWith_map_right] at hfill
    have hlen : values.length = exprs.length := by
      rw [← hgot.length_eq, List.length_zip, Nat.min_eq_right hle]
    rw [he]
    have hrow := hf.append (by rw [hlen, hnv, Nat.zero_add]) hfill
    refine ⟨_, ⟨values, hgot, rfl⟩, hrow.values ?_, hrow.heap.trans (congrArg (·.toList ++ _) hheap)⟩
    rw [List.length_append, hlen, List.length_zipWith, List.length_drop, hlay, Layout.numSlots]
    omega

inductive Stopped (p : Plan) (exprs : List Expr) (combination : Nat) (input : Batch) (capacity total : Nat) :
    Failure → Prop
  | begun (b : Batch) (e : Error) : b.capacity = capacity → b.numRows < total → Batch.NotBegun b e →
    Stopped p exprs combination input capacity total (.error e)
  | row (i : Nat) (row : Row) (failure : Failure) : input.row i = .ok row →
    Blocked (p.descriptor.hides combination) p.outputLayout.slots exprs row failure →
    Stopped p exprs combination input capacity total failure

def OutputsAt (p : Plan) (exprs : List Expr) (combination : Nat) (input : Batch) (i : Nat)
    (out : List Scalar) : Prop :=
  ∃ row, input.row i = .ok row ∧ p.Outputs exprs combination row out

/-- Every input row gets its output row, behind the rows that are there. -/
private theorem Sound.writeRows_outputs (input : Batch) {output : Batch} (hp : p.Sound (exprs.map (·.datatype)))
    (hm : p.mask combination = .ok mask) {done : List (List Scalar)}
    (ho : output.Holds done) (hl : output.layout = p.outputLayout) {places : List Nat}
    (hplaces : ∀ i ∈ places, i < input.numRows) :
    Yields
      (fun c => ∃ outs, List.Forall₂ (p.OutputsAt exprs combination input) places outs ∧
        c.Holds (done ++ outs))
      (Stopped p exprs combination input output.capacity (output.numRows + places.length))
      (p.writeRows exprs combination mask input places output) := by
  induction places generalizing output done with
  | nil => exact ⟨[], .nil, by rwa [List.append_nil]⟩
  | cons first places ih =>
    obtain ⟨hfirst, hmore⟩ := List.forall_mem_cons.mp hplaces
    obtain ⟨row, hrow⟩ := Batch.exists_row hfirst
    have hwrite := ho.valid.appendWith_yields (p.careful_writeRow exprs combination mask row) fun d hb =>
      hb.heap ▸ hp.writeRow_outputs row hm hb.valid hb.sound (hb.layout.trans hl)
    unfold writeRows
    rw [hrow, List.length_cons]
    dsimp only
    rcases ha : output.appendWith (p.writeRow exprs combination mask row) with ⟨failure | u, b⟩
    · rw [ha] at hwrite
      rcases hwrite with ⟨e, rfl, hn⟩ | hblocked
      · exact .begun output e rfl (by omega) hn
      · exact .row first row failure hrow hblocked
    · rw [ha] at hwrite
      obtain ⟨hbv, e, ⟨out, hout, he, hh⟩, hx, hc⟩ := hwrite
      have hrest := ih (ho.extend hx hbv he (by rw [hc, hh])) (hx.layout.trans hl) hmore
      rw [hx.numRows, hx.capacity, show output.numRows + 1 + places.length =
        output.numRows + (places.length + 1) by omega] at hrest
      refine hrest.imp (fun c hc => ?_) fun _ hf => hf
      obtain ⟨outs, houts, hholds⟩ := hc
      exact ⟨out :: outs, .cons ⟨row, hrow, hout⟩ houts, by rwa [List.append_assoc] at hholds⟩

/-- Unless it is too small for the input, an empty output gets one output row for each input row, in order. -/
private theorem Sound.writeCombination_outputs {input output : Batch} (hp : p.Sound (exprs.map (·.datatype)))
    (hc : combination < p.numCombinations) (hv : output.Valid) (he : output.numRows = 0)
    (hl : output.layout = p.outputLayout) (hroom : input.numRows ≤ output.capacity) :
    Yields
      (fun c => ∃ outs, List.Forall₂ (p.OutputsAt exprs combination input) (List.range input.numRows) outs ∧
        c.Holds outs)
      (Stopped p exprs combination input output.capacity input.numRows)
      (p.writeCombination exprs input combination output) := by
  obtain ⟨mask, hm, _⟩ := hp.mask combination hc
  have hwritten := hp.writeRows_outputs input hm (hv.holds_nil he) hl
    (fun i hi => List.mem_range.mp hi)
  rw [he, Nat.zero_add, List.length_range] at hwritten
  unfold writeCombination
  rw [if_neg (Nat.not_lt_of_le hroom), hm]
  exact hwritten

/-- If the input rows have values, the output rows are their expansions. -/
private theorem eq_expansions {input : Batch} {places : List Nat} {rows outs : List (List Scalar)}
    (hrows : List.Forall₂ (fun i values => input.values i = .ok values) places rows)
    (houts : List.Forall₂ (p.OutputsAt exprs combination input) places outs) :
    outs = rows.map (p.descriptor.expandRow p.outputLayout.slots exprs combination) := by
  induction hrows generalizing outs with
  | nil =>
    cases houts
    rfl
  | cons hread _ ih =>
    obtain ⟨row, hrow, hvalues⟩ := Batch.row_of_values hread
    cases houts with
    | cons hout hmore =>
      obtain ⟨found, hfound, hout⟩ := hout
      cases hrow.symm.trans hfound
      rw [List.map_cons, ← hout.eq_expandRow hvalues, ih hmore]

/-- Unless it is too small for the input, an empty output gets the expansions of the input rows, in
order. -/
theorem Sound.writeCombination_yields {input output : Batch} {rows : List (List Scalar)}
    (hp : p.Sound (exprs.map (·.datatype))) (hc : combination < p.numCombinations)
    (hrows : input.toRows = .ok rows) (hv : output.Valid) (he : output.numRows = 0)
    (hl : output.layout = p.outputLayout) (hroom : input.numRows ≤ output.capacity) :
    Yields (·.Holds (rows.map (p.descriptor.expandRow p.outputLayout.slots exprs combination)))
      (Stopped p exprs combination input output.capacity input.numRows)
      (p.writeCombination exprs input combination output) := by
  refine (hp.writeCombination_outputs hc hv he hl hroom).imp (fun c hw => ?_) fun _ hf => hf
  obtain ⟨outs, houts, hholds⟩ := hw
  rwa [eq_expansions (mapM_eq_ok_iff.mp hrows) houts] at hholds

theorem writeCombination_too_small {input output : Batch} (h : output.capacity < input.numRows) :
    p.writeCombination exprs input combination output =
      (.error (.error (.outputTooSmall output.capacity input.numRows)), output) := if_pos h

/-- A combination that is written fits, so that every input row has its output row. -/
theorem Sound.outputs_of_writeCombination {input output c : Batch} (hp : p.Sound (exprs.map (·.datatype)))
    (hc : combination < p.numCombinations) (hv : output.Valid) (he : output.numRows = 0)
    (hl : output.layout = p.outputLayout)
    (h : p.writeCombination exprs input combination output = (.ok (), c)) :
    ∃ outs, List.Forall₂ (p.OutputsAt exprs combination input) (List.range input.numRows) outs ∧
      c.Holds outs := by
  by_cases hroom : input.numRows ≤ output.capacity
  · have hy := hp.writeCombination_outputs hc hv he hl hroom
    rw [h] at hy
    exact hy
  · rw [writeCombination_too_small (Nat.lt_of_not_le hroom)] at h
    cases h

/-- Once a combination is written, the output holds the expansions of the input rows. -/
theorem Sound.writeCombination_holds {input output c : Batch} {rows : List (List Scalar)}
    (hp : p.Sound (exprs.map (·.datatype))) (hc : combination < p.numCombinations)
    (hrows : input.toRows = .ok rows) (hv : output.Valid) (he : output.numRows = 0)
    (hl : output.layout = p.outputLayout)
    (h : p.writeCombination exprs input combination output = (.ok (), c)) :
    c.Holds (rows.map (p.descriptor.expandRow p.outputLayout.slots exprs combination)) := by
  obtain ⟨outs, houts, hholds⟩ := hp.outputs_of_writeCombination hc hv he hl h
  rwa [eq_expansions (mapM_eq_ok_iff.mp hrows) houts] at hholds

end Plan

end Repeat

end GroupingSets
