import GroupingSets.Repeat.Plan
import GroupingSets.Proofs.Bitmap
import GroupingSets.Proofs.Encoding

/-! What a descriptor that passes its checks guarantees: one null mask for each combination, slots of
the types of what is written to them, and nullable slots wherever a mask nulls one out. -/
namespace GroupingSets

namespace Repeat

/-- Whether a combination nulls out the slots with the given id: it is grouped by and not kept. -/
def Descriptor.hides (d : Descriptor) (combination : Nat) (id : SlotId) : Bool :=
  decide (id ∈ d.groupingSlots) && !decide (id ∈ d.keepSets.getD combination ∅)

namespace Plan

private theorem contains_positionsIn {slots : List Slot} {ids : SlotSet} {b : Bitmap}
    (h : positionsIn slots ids = .ok b) {i : Nat} {slot : Slot} (hi : slots[i]? = some slot) :
    b.contains i = decide (slot.id ∈ ids) := by
  rw [Bitmap.contains_ofIndices h]
  refine decide_eq_decide.mpr ?_
  rw [List.mem_map]
  constructor
  · rintro ⟨⟨found, k⟩, hm, rfl⟩
    rw [List.mem_filter] at hm
    have hf := List.mem_zipIdx_iff_getElem?.mp hm.1
    rw [hi] at hf
    cases hf
    simpa using hm.2
  · intro hid
    refine ⟨(slot, i), List.mem_filter.mpr ⟨List.mem_zipIdx_iff_getElem?.mpr hi, ?_⟩, rfl⟩
    simpa using hid

/-- A mask nulls out the slots that are grouped by and not kept. -/
theorem get_nullMask {slots : List Slot} {grouped : SlotSet} {keep : SlotSet} {grouping mask : Bitmap}
    (hg : positionsIn slots grouped = .ok grouping) (h : nullMask slots grouping keep = .ok mask)
    {i : Nat} {slot : Slot} (hi : slots[i]? = some slot) :
    mask.get i = .ok (decide (slot.id ∈ grouped) && !decide (slot.id ∈ keep)) := by
  unfold nullMask at h
  split at h
  · cases h
  · next kept hk =>
    have hlt := (List.getElem?_eq_some_iff.mp hi).1
    rw [Bitmap.get_ofIndices h hlt, ← contains_positionsIn hg hi, ← contains_positionsIn hk hi]
    refine congrArg Except.ok ?_
    rw [Bool.eq_iff_iff, decide_eq_true_iff, List.mem_filter, List.mem_range]
    exact and_iff_right hlt

theorem nullMasksOf_ok {slots : List Slot} {grouping : Bitmap} {keeps : List SlotSet}
    {masks : List Bitmap} (h : nullMasksOf slots grouping keeps = .ok masks) :
    masks.length = keeps.length ∧
      ∀ (i : Nat) keep, keeps[i]? = some keep →
        ∃ mask, masks[i]? = some mask ∧ nullMask slots grouping keep = .ok mask := by
  induction keeps generalizing masks with
  | nil =>
    cases h
    refine ⟨rfl, fun i keep hi => ?_⟩
    rw [List.getElem?_nil] at hi
    cases hi
  | cons keep rest ih =>
    unfold nullMasksOf at h
    split at h
    · cases h
    · next mask hm =>
      split at h
      · cases h
      · next tail ht =>
        cases h
        obtain ⟨hl, hr⟩ := ih ht
        refine ⟨congrArg Nat.succ hl, fun i other hi => ?_⟩
        cases i with
        | zero =>
          cases hi
          exact ⟨mask, rfl, hm⟩
        | succ i => exact hr i other hi

private theorem splitSlots_ok {layout : Layout} {numValueSlots : Nat} {valueSlots indicatorSlots : List Slot}
    (h : splitSlots layout numValueSlots = .ok (valueSlots, indicatorSlots)) :
    numValueSlots ≤ layout.numSlots ∧ valueSlots = layout.slots.take numValueSlots ∧
      indicatorSlots = layout.slots.drop numValueSlots := by
  unfold splitSlots at h
  split at h
  · next hle =>
    cases h
    exact ⟨hle, rfl, rfl⟩
  · cases h

/-! What each check asks for. -/

/-- A check passes exactly if `P` holds. Otherwise it reports that the operator cannot be set up. -/
structure Decides (check : Except Error Unit) (P : Prop) : Prop where
  ok_iff : check = .ok () ↔ P
  kind : ∀ e, check = .error e → e.kind = .initialization

private theorem Decides.congr {check : Except Error Unit} {P Q : Prop} (h : Decides check P) (hpq : P ↔ Q) :
    Decides check Q := ⟨h.ok_iff.trans hpq, h.kind⟩

private theorem decides_pass : Decides (.ok ()) True :=
  ⟨iff_of_true rfl trivial, fun e h => by cases h⟩

private theorem decides_refuse {e : Error} (he : e.kind = .initialization) : Decides (.error e) False :=
  ⟨iff_of_false (fun h => by cases h) id, fun f h => by cases h; exact he⟩

/-- What refuses on a condition, and goes on to another check otherwise. -/
private theorem Decides.unless {check : Except Error Unit} {P : Prop} (h : Decides check P) {c : Prop} [Decidable c]
    {e : Error} (he : e.kind = .initialization) : Decides (if c then .error e else check) (¬ c ∧ P) := by
  split
  · next hc => exact (decides_refuse he).congr (by simp [hc])
  · next hc => exact h.congr (by simp [hc])

/-- One check behind the other. -/
private theorem Decides.and_then {first second : Except Error Unit} {P Q : Prop} (hp : Decides first P)
    (hq : Decides second Q) : Decides (first >>= fun _ => second) (P ∧ Q) := by
  rcases first with e | _
  · have hn : ¬ P := fun h => by cases hp.ok_iff.mpr h
    exact (decides_refuse (hp.kind e rfl)).congr (by simp [hn])
  · exact hq.congr (by simp [hp.ok_iff.mp rfl])

/-- What looks for an offender passes exactly if there is none. -/
private theorem decides_find? {α : Type} {l : List α} {p : α → Bool} {check : Except Error Unit}
    (hnone : l.find? p = none → check = .ok ())
    (hsome : ∀ a, l.find? p = some a → ∃ e, check = .error e ∧ e.kind = .initialization) :
    Decides check (∀ a ∈ l, p a = false) := by
  cases hf : l.find? p with
  | none =>
    rw [hnone hf]
    exact decides_pass.congr (by simpa using hf)
  | some a =>
    obtain ⟨e, he, hk⟩ := hsome a hf
    rw [he]
    refine (decides_refuse hk).congr (iff_of_false id fun h => ?_)
    have ha := List.find?_some hf
    rw [h a (List.mem_of_find?_eq_some hf)] at ha
    cases ha

/-- The same for a search that also says where the offender is. -/
private theorem decides_find?_zipIdx {α : Type} {l : List α} {p : α → Bool} {check : Except Error Unit}
    (hnone : l.zipIdx.find? (fun (a, _) => p a) = none → check = .ok ())
    (hsome : ∀ x, l.zipIdx.find? (fun (a, _) => p a) = some x →
      ∃ e, check = .error e ∧ e.kind = .initialization) :
    Decides check (∀ a ∈ l, p a = false) := by
  refine (decides_find? hnone hsome).congr ?_
  rw [← List.forall_mem_map (f := Prod.fst) (P := fun a => p a = false), List.zipIdx_map_fst]

private theorem decides_checkColumns (d : Descriptor) :
    Decides (checkColumns d) (∀ column ∈ d.groupingList, column.length = d.keepSets.length) := by
  have hcolumns : Decides (checkColumns d)
      (∀ column ∈ d.groupingList, (column.length != d.keepSets.length) = false) :=
    decides_find?_zipIdx (fun h => by rw [checkColumns, h])
      (fun (_, i) h => ⟨_, by rw [checkColumns, h], rfl⟩)
  exact hcolumns.congr (by simp)

private theorem decides_checkCounts (d : Descriptor) :
    Decides (checkCounts d)
      (0 < d.keepSets.length ∧ d.repeatIds.length = d.keepSets.length ∧
        ∀ column ∈ d.groupingList, column.length = d.keepSets.length) :=
  (((decides_checkColumns d).unless rfl).unless rfl).congr (by simp [Nat.pos_iff_ne_zero])

private theorem decides_checkSlots (d : Descriptor) (layout : Layout) (exprs : List Expr) :
    Decides (checkSlots d layout exprs)
      (exprs ≠ [] ∧ layout.numSlots = exprs.length + d.groupingList.length) :=
  ((decides_pass.unless rfl).unless rfl).congr (by simp)

private theorem decides_checkKeepSets (d : Descriptor) :
    Decides (checkKeepSets d) (∀ keep ∈ d.keepSets, ∀ id ∈ keep, id ∈ d.groupingSlots) := by
  have hkeep : Decides (checkKeepSets d)
      (∀ keep ∈ d.keepSets, (!SlotSet.isSubset keep d.groupingSlots) = false) :=
    decides_find?_zipIdx (fun h => by rw [checkKeepSets, h])
      (fun (_, i) h => ⟨_, by rw [checkKeepSets, h], rfl⟩)
  exact hkeep.congr (by simp [SlotSet.isSubset_iff])

theorem decides_checkShape (d : Descriptor) (layout : Layout) (exprs : List Expr) :
    Decides (checkShape d layout exprs)
      ((0 < d.keepSets.length ∧ d.repeatIds.length = d.keepSets.length ∧
          ∀ column ∈ d.groupingList, column.length = d.keepSets.length) ∧
        (exprs ≠ [] ∧ layout.numSlots = exprs.length + d.groupingList.length) ∧
        ∀ keep ∈ d.keepSets, ∀ id ∈ keep, id ∈ d.groupingSlots) :=
  (decides_checkCounts d).and_then ((decides_checkSlots d layout exprs).and_then (decides_checkKeepSets d))

private theorem decides_checkValueSlot (grouping : Bitmap) (slot : Slot) (expr : Expr) (position : Nat) :
    Decides (checkValueSlot grouping slot expr position)
      (slot.datatype = expr.datatype ∧ (grouping.contains position = true → slot.nullable = true)) :=
  ((decides_pass.unless rfl).unless rfl).congr (by simp)

private theorem checkValueSlots_cons (grouping : Bitmap) (position : Nat) (slot : Slot) (expr : Expr)
    (rest : List (Slot × Expr)) :
    checkValueSlots grouping position ((slot, expr) :: rest) =
      (checkValueSlot grouping slot expr position >>= fun _ =>
        checkValueSlots grouping (position + 1) rest) := by
  rw [checkValueSlots]
  cases checkValueSlot grouping slot expr position <;> rfl

private theorem checkIndicatorSlots_cons (slot : Slot) (column : List Int64) (rest : List (Slot × List Int64)) :
    checkIndicatorSlots ((slot, column) :: rest) =
      (checkIndicatorSlot slot column >>= fun _ => checkIndicatorSlots rest) := by
  rw [checkIndicatorSlots]
  cases checkIndicatorSlot slot column <;> rfl

theorem decides_checkValueSlots (grouping : Bitmap) (position : Nat) (pairs : List (Slot × Expr)) :
    Decides (checkValueSlots grouping position pairs)
      (∀ i slot expr, pairs[i]? = some (slot, expr) → slot.datatype = expr.datatype ∧
        (grouping.contains (position + i) = true → slot.nullable = true)) := by
  induction pairs generalizing position with
  | nil => exact decides_pass.congr (iff_of_true trivial fun i _ _ h => by cases h)
  | cons pair rest ih =>
    obtain ⟨slot, expr⟩ := pair
    rw [checkValueSlots_cons]
    refine ((decides_checkValueSlot grouping slot expr position).and_then (ih (position + 1))).congr ?_
    constructor
    · rintro ⟨hfirst, hrest⟩ i s e hi
      cases i with
      | zero =>
        cases hi
        exact hfirst
      | succ i =>
        rw [show position + (i + 1) = position + 1 + i by omega]
        exact hrest i s e hi
    · intro h
      refine ⟨h 0 slot expr rfl, fun i s e hi => ?_⟩
      rw [show position + 1 + i = position + (i + 1) by omega]
      exact h (i + 1) s e hi

private theorem decides_checkRange (slot : Slot) (column : List Int64) :
    Decides (checkRange slot column) (∀ n ∈ column, Encoding.integerFits slot.datatype n = true) := by
  have hfits : Decides (checkRange slot column)
      (∀ n ∈ column, (!Encoding.integerFits slot.datatype n) = false) :=
    decides_find? (fun h => by rw [checkRange, h]) (fun n h => ⟨_, by rw [checkRange, h], rfl⟩)
  exact hfits.congr (by simp)

private theorem decides_checkIndicatorSlot (slot : Slot) (column : List Int64) :
    Decides (checkIndicatorSlot slot column)
      (slot.datatype.isInteger = true ∧ ∀ n ∈ column, Encoding.integerFits slot.datatype n = true) :=
  ((decides_checkRange slot column).unless rfl).congr (by simp)

theorem decides_checkIndicatorSlots (pairs : List (Slot × List Int64)) :
    Decides (checkIndicatorSlots pairs)
      (∀ pair ∈ pairs, pair.1.datatype.isInteger = true ∧
        ∀ n ∈ pair.2, Encoding.integerFits pair.1.datatype n = true) := by
  induction pairs with
  | nil => exact decides_pass.congr (by simp)
  | cons pair rest ih =>
    obtain ⟨slot, column⟩ := pair
    rw [checkIndicatorSlots_cons]
    exact ((decides_checkIndicatorSlot slot column).and_then ih).congr (by simp)

/-- What is asked of a descriptor, for the layout of the output and the expressions for its values. -/
structure Specified (d : Descriptor) (layout : Layout) (exprs : List Expr) : Prop where
  combinations : 0 < d.keepSets.length
  repeatIds : d.repeatIds.length = d.keepSets.length
  columns : ∀ column ∈ d.groupingList, column.length = d.keepSets.length
  exprs_ne_nil : exprs ≠ []
  numSlots : layout.numSlots = exprs.length + d.groupingList.length
  kept : ∀ keep ∈ d.keepSets, ∀ id ∈ keep, id ∈ d.groupingSlots
  datatype : ∀ (i : Nat) slot expr, layout.slots[i]? = some slot → exprs[i]? = some expr →
    slot.datatype = expr.datatype
  nullable : ∀ (i : Nat) slot, layout.slots[i]? = some slot → i < exprs.length →
    slot.id ∈ d.groupingSlots → slot.nullable = true
  indicator : ∀ (j : Nat) slot column, layout.slots[exprs.length + j]? = some slot →
    d.groupingList[j]? = some column → slot.datatype.isInteger = true ∧
      ∀ n ∈ column, -Int.pow 2 (8 * slot.datatype.width - 1) ≤ n.toInt ∧
        n.toInt < Int.pow 2 (8 * slot.datatype.width - 1)

private theorem getElem?_zip_take {slots : List Slot} {exprs : List Expr} {i : Nat} {slot : Slot}
    {expr : Expr} : ((slots.take exprs.length).zip exprs)[i]? = some (slot, expr) ↔
      slots[i]? = some slot ∧ exprs[i]? = some expr := by
  rw [List.getElem?_zip_eq_some]
  refine and_congr_left fun he => ?_
  rw [List.getElem?_take_of_lt (List.getElem?_eq_some_iff.mp he).1]

private theorem forall_mem_zip_drop {slots : List Slot} {columns : List (List Int64)} {k : Nat}
    {P : Slot → List Int64 → Prop} :
    (∀ pair ∈ (slots.drop k).zip columns, P pair.1 pair.2) ↔
      ∀ (j : Nat) slot column, slots[k + j]? = some slot → columns[j]? = some column → P slot column := by
  constructor
  · intro h j slot column hslot hcolumn
    have hz : ((slots.drop k).zip columns)[j]? = some (slot, column) :=
      List.getElem?_zip_eq_some.mpr ⟨by rwa [List.getElem?_drop], hcolumn⟩
    exact h _ (List.mem_of_getElem? hz)
  · intro h pair hpair
    obtain ⟨j, hj⟩ := List.mem_iff_getElem?.mp hpair
    obtain ⟨hslot, hcolumn⟩ := List.getElem?_zip_eq_some.mp hj
    rw [List.getElem?_drop] at hslot
    exact h j pair.1 pair.2 hslot hcolumn

/-- The checks together ask for exactly what is specified. -/
theorem specified_iff {d : Descriptor} {layout : Layout} {exprs : List Expr} {grouping : Bitmap}
    (hg : positionsIn (layout.slots.take exprs.length) d.groupingSlots = .ok grouping) :
    Specified d layout exprs ↔ checkShape d layout exprs = .ok () ∧
      checkValueSlots grouping 0 ((layout.slots.take exprs.length).zip exprs) = .ok () ∧
      checkIndicatorSlots ((layout.slots.drop exprs.length).zip d.groupingList) = .ok () := by
  rw [(decides_checkShape d layout exprs).ok_iff, (decides_checkValueSlots grouping 0 _).ok_iff,
    (decides_checkIndicatorSlots _).ok_iff]
  have hgrouped {i : Nat} {slot : Slot} (hi : layout.slots[i]? = some slot) (hlt : i < exprs.length) :
      grouping.contains (0 + i) = true ↔ slot.id ∈ d.groupingSlots := by
    rw [Nat.zero_add, contains_positionsIn hg ((List.getElem?_take_of_lt hlt).trans hi),
      decide_eq_true_iff]
  constructor
  · intro h
    refine ⟨⟨⟨h.combinations, h.repeatIds, h.columns⟩, ⟨h.exprs_ne_nil, h.numSlots⟩, h.kept⟩, ?_, ?_⟩
    · intro i slot expr hi
      obtain ⟨hslot, hexpr⟩ := getElem?_zip_take.mp hi
      have hlt := (List.getElem?_eq_some_iff.mp hexpr).1
      refine ⟨h.datatype i slot expr hslot hexpr, fun hc => ?_⟩
      exact h.nullable i slot hslot hlt ((hgrouped hslot hlt).mp hc)
    · exact forall_mem_zip_drop.mpr fun j slot column hslot hcolumn =>
        Encoding.isInteger_and_fit_iff.mpr (h.indicator j slot column hslot hcolumn)
  · rintro ⟨⟨⟨hpos, hids, hcolumns⟩, ⟨hne, hnum⟩, hkept⟩, hvalue, hind⟩
    constructor
    case combinations => exact hpos
    case repeatIds => exact hids
    case columns => exact hcolumns
    case exprs_ne_nil => exact hne
    case numSlots => exact hnum
    case kept => exact hkept
    case datatype =>
      intro i slot expr hslot hexpr
      exact (hvalue i slot expr (getElem?_zip_take.mpr ⟨hslot, hexpr⟩)).1
    case nullable =>
      intro i slot hslot hlt hid
      have hexpr := List.getElem?_eq_getElem hlt
      exact (hvalue i slot _ (getElem?_zip_take.mpr ⟨hslot, hexpr⟩)).2 ((hgrouped hslot hlt).mpr hid)
    case indicator =>
      intro j slot column hslot hcolumn
      have hfits := (forall_mem_zip_drop (P := fun slot column => slot.datatype.isInteger = true ∧
        ∀ n ∈ column, Encoding.integerFits slot.datatype n = true)).mp hind j slot column hslot hcolumn
      exact Encoding.isInteger_and_fit_iff.mp hfits

structure Sound (p : Plan) (types : List DataType) : Prop where
  numValueSlots : p.numValueSlots = types.length
  numSlots : p.outputLayout.numSlots = types.length + p.descriptor.groupingList.length
  numCombinations : p.numCombinations = p.descriptor.keepSets.length
  combinations_pos : 0 < p.numCombinations
  columns : ∀ column ∈ p.descriptor.groupingList, column.length = p.numCombinations
  datatype : ∀ (i : Nat) slot type, p.outputLayout.slots[i]? = some slot → types[i]? = some type →
    slot.datatype = type
  nullable : ∀ (i : Nat) slot, p.outputLayout.slots[i]? = some slot → i < types.length →
    slot.id ∈ p.descriptor.groupingSlots → slot.nullable = true
  fits : ∀ (j : Nat) slot column, p.outputLayout.slots[types.length + j]? = some slot →
    p.descriptor.groupingList[j]? = some column → ∀ n ∈ column, Encoding.integerFits slot.datatype n = true
  mask : ∀ combination, combination < p.numCombinations → ∃ mask, p.mask combination = .ok mask ∧
    ∀ (i : Nat) slot, p.outputLayout.slots[i]? = some slot → i < types.length →
      mask.get i = .ok (p.descriptor.hides combination slot.id)

private theorem Specified.sound {d : Descriptor} {layout : Layout} {exprs : List Expr} {grouping : Bitmap}
    {masks : List Bitmap} (h : Specified d layout exprs)
    (hg : positionsIn (layout.slots.take exprs.length) d.groupingSlots = .ok grouping)
    (hm : nullMasksOf (layout.slots.take exprs.length) grouping d.keepSets = .ok masks) :
    Sound ⟨d, layout, exprs.length, masks⟩ (exprs.map (·.datatype)) := by
  obtain ⟨hlen, hmask⟩ := nullMasksOf_ok hm
  have hcount : Plan.numCombinations ⟨d, layout, exprs.length, masks⟩ = d.keepSets.length := hlen
  constructor
  case numValueSlots => rw [List.length_map]
  case numSlots => rw [List.length_map]; exact h.numSlots
  case numCombinations => exact hcount
  case combinations_pos => rw [hcount]; exact h.combinations
  case columns => rw [hcount]; exact h.columns
  case datatype =>
    intro i slot type hi ht
    rw [List.getElem?_map, Option.map_eq_some_iff] at ht
    obtain ⟨expr, hexpr, rfl⟩ := ht
    exact h.datatype i slot expr hi hexpr
  case nullable =>
    intro i slot hi hlt
    rw [List.length_map] at hlt
    exact h.nullable i slot hi hlt
  case fits =>
    intro j slot column hj hc
    rw [List.length_map] at hj
    exact (Encoding.isInteger_and_fit_iff.mpr (h.indicator j slot column hj hc)).2
  case mask =>
    intro combination hlt
    rw [hcount] at hlt
    have hk := List.getElem?_eq_getElem hlt
    obtain ⟨mask, hget, hnull⟩ := hmask _ _ hk
    refine ⟨mask, by rw [Plan.mask, hget], fun i slot hi hi' => ?_⟩
    rw [List.length_map] at hi'
    rw [get_nullMask hg hnull ((List.getElem?_take_of_lt hi').trans hi), Descriptor.hides,
      List.getD_eq_getElem?_getD, hk]
    rfl

/-- What an accepted descriptor was made into: a layout for which it is as specified, and the masks that were
worked out for the slots of its values. -/
theorem exists_of_build {d : Descriptor} {tables : LayoutTable} {exprs : List Expr} {p : Plan}
    (h : (build d tables exprs).1 = .ok p) :
    ∃ layout grouping masks, tables.get? d.outputTuple = some layout ∧ Specified d layout exprs ∧
      positionsIn (layout.slots.take exprs.length) d.groupingSlots = .ok grouping ∧
      nullMasksOf (layout.slots.take exprs.length) grouping d.keepSets = .ok masks ∧
      p = ⟨d, layout, exprs.length, masks⟩ := by
  unfold build at h
  split at h
  · cases h
  · next layout ht =>
    dsimp only at h
    split at h
    · cases h
    · next hshape =>
      split at h
      · cases h
      · next hsplit =>
        obtain ⟨_, rfl, rfl⟩ := splitSlots_ok hsplit
        split at h
        · cases h
        · next grouping hg =>
          split at h
          · cases h
          · next hv =>
            split at h
            · cases h
            · next hind =>
              split at h
              · cases h
              · next masks hm =>
                cases h
                exact ⟨layout, grouping, masks, ht, (specified_iff hg).mpr ⟨hshape, hv, hind⟩, hg, hm, rfl⟩

/-- A descriptor is accepted only for a layout and for expressions that fit it. -/
theorem build_ok {d : Descriptor} {tables : LayoutTable} {exprs : List Expr} {p : Plan}
    (h : (build d tables exprs).1 = .ok p) :
    p.descriptor = d ∧ tables.get? d.outputTuple = some p.outputLayout ∧
      p.Sound (exprs.map (·.datatype)) := by
  obtain ⟨layout, grouping, masks, ht, hspec, hg, hm, rfl⟩ := exists_of_build h
  exact ⟨rfl, ht, hspec.sound hg hm⟩

end Plan

end Repeat

end GroupingSets
