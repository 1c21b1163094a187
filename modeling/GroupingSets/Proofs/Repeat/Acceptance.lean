import GroupingSets.Proofs.Repeat.Plan
import GroupingSets.Proofs.Row

/-! Which descriptors are accepted. A descriptor is turned into a plan exactly if it is as specified,
and what stands in the way of one is always reported. -/
namespace GroupingSets

namespace Repeat.Plan

private theorem exists_positionsIn (slots : List Slot) (ids : SlotSet) : ∃ b, positionsIn slots ids = .ok b := by
  refine Bitmap.exists_ofIndices fun i hi => ?_
  obtain ⟨⟨slot, k⟩, hm, rfl⟩ := List.mem_map.mp hi
  exact List.snd_lt_of_mem_zipIdx (List.mem_filter.mp hm).1

private theorem exists_nullMask (slots : List Slot) (grouping : Bitmap) (keep : SlotSet) :
    ∃ mask, nullMask slots grouping keep = .ok mask := by
  obtain ⟨kept, hk⟩ := exists_positionsIn slots keep
  rw [nullMask, hk]
  exact Bitmap.exists_ofIndices fun i hi => List.mem_range.mp (List.mem_filter.mp hi).1

private theorem exists_nullMasksOf (slots : List Slot) (grouping : Bitmap) (keeps : List SlotSet) :
    ∃ masks, nullMasksOf slots grouping keeps = .ok masks := by
  induction keeps with
  | nil => exact ⟨[], rfl⟩
  | cons keep rest ih =>
    obtain ⟨mask, hm⟩ := exists_nullMask slots grouping keep
    obtain ⟨masks, hms⟩ := ih
    rw [nullMasksOf, hm, hms]
    exact ⟨mask :: masks, rfl⟩

/-- A plan is built exactly if `P` holds. Otherwise it is reported that the operator cannot be set up. -/
def Settles (result : Except Failure Plan) (P : Prop) : Prop :=
  P ∧ (∃ p, result = .ok p) ∨ ¬ P ∧ ∃ e, result = .error (.error e) ∧ e.kind = .initialization

private theorem settles_refuse {P : Prop} {e : Error} (hn : ¬ P) (he : e.kind = .initialization) :
    Settles (.error (.error e)) P :=
  .inr ⟨hn, e, rfl, he⟩

private theorem Settles.ok_iff {result : Except Failure Plan} {P : Prop} (h : Settles result P) :
    (∃ p, result = .ok p) ↔ P := by
  obtain ⟨hp, hok⟩ | ⟨hn, e, rfl, _⟩ := h
  · exact iff_of_true hok hp
  · exact iff_of_false (fun ⟨p, hp⟩ => by cases hp) hn

private theorem Settles.reported {result : Except Failure Plan} {P : Prop} (h : Settles result P) {failure : Failure}
    (hf : result = .error failure) : ∃ e, failure = .error e ∧ e.kind = .initialization := by
  obtain ⟨_, p, rfl⟩ | ⟨_, e, rfl, he⟩ := h
  · cases hf
  · cases hf
    exact ⟨e, rfl, he⟩

/-- With the layout of its output at hand, a descriptor is settled by its checks. No step between
them stops: the check of the shape comes before the layout is split, and positions in a list of
slots are below its length. -/
private theorem settles_build {d : Descriptor} {tables : LayoutTable} {exprs : List Expr} {layout : Layout}
    (ht : tables.get? d.outputTuple = some layout) :
    Settles (build d tables exprs).1 (Specified d layout exprs) := by
  obtain ⟨grouping, hg⟩ := exists_positionsIn (layout.slots.take exprs.length) d.groupingSlots
  obtain ⟨masks, hm⟩ := exists_nullMasksOf (layout.slots.take exprs.length) grouping d.keepSets
  have hspec := specified_iff hg
  rw [build, ht]
  dsimp only
  cases hshape : checkShape d layout exprs with
  | error e =>
    refine settles_refuse (fun h => ?_) ((decides_checkShape d layout exprs).kind e hshape)
    cases hshape.symm.trans (hspec.mp h).1
  | ok =>
    obtain ⟨_, ⟨_, hnum⟩, _⟩ := (decides_checkShape d layout exprs).ok_iff.mp hshape
    rw [splitSlots, if_pos (by omega)]
    dsimp only
    rw [hg]
    dsimp only
    cases hvalue : checkValueSlots grouping 0 ((layout.slots.take exprs.length).zip exprs) with
    | error e =>
      refine settles_refuse (fun h => ?_) ((decides_checkValueSlots grouping 0 _).kind e hvalue)
      cases hvalue.symm.trans (hspec.mp h).2.1
    | ok =>
      dsimp only
      cases hind : checkIndicatorSlots ((layout.slots.drop exprs.length).zip d.groupingList) with
      | error e =>
        refine settles_refuse (fun h => ?_) ((decides_checkIndicatorSlots _).kind e hind)
        cases hind.symm.trans (hspec.mp h).2.2
      | ok =>
        rw [hm]
        exact .inl ⟨hspec.mpr ⟨hshape, hvalue, hind⟩, _, rfl⟩

/-- A descriptor is accepted exactly if its output tuple has a layout for which it is as specified, and
a refusal always reports that the operator cannot be set up. -/
theorem build_accepts_iff (d : Descriptor) (tables : LayoutTable) (exprs : List Expr) :
    ((∃ p, (build d tables exprs).1 = .ok p) ↔
        ∃ layout, tables.get? d.outputTuple = some layout ∧ Specified d layout exprs) ∧
      ∀ failure, (build d tables exprs).1 = .error failure →
        ∃ e, failure = .error e ∧ e.kind = .initialization := by
  have hsettles : Settles (build d tables exprs).1
      (∃ layout, tables.get? d.outputTuple = some layout ∧ Specified d layout exprs) := by
    cases ht : tables.get? d.outputTuple with
    | none =>
      rw [build, ht]
      exact settles_refuse (fun ⟨_, h, _⟩ => by cases h) rfl
    | some layout =>
      have h : Settles (build d tables exprs).1 (Specified d layout exprs) := settles_build ht
      have hP : (∃ found, some layout = some found ∧ Specified d found exprs) ↔ Specified d layout exprs := by
        simp
      rwa [Settles, hP]
  exact ⟨hsettles.ok_iff, fun failure => hsettles.reported⟩

/-- Slots in any order of their ids, a grouping slot that the output lacks, and an indicator of one
byte, which has room for 127 and not for 128. -/
theorem build_accepts_iff_at_bound :
    let layout : Layout := ⟨⟨1⟩, [⟨⟨40⟩, .int32, true⟩, ⟨⟨7⟩, .utf8, false⟩, ⟨⟨3⟩, .int8, false⟩]⟩
    let d (n : Int64) : Descriptor := ⟨.ofList [⟨40⟩, ⟨99⟩], [.ofList [⟨40⟩], ∅], [0, 1], [[-128, n]], ⟨1⟩⟩
    let exprs : List Expr := [.ofColumn 0 .int32, .ofColumn 1 .utf8]
    Specified (d 127) layout exprs ∧ ¬ Specified (d 128) layout exprs := by
  intro layout d exprs
  have htable (n : Int64) : (LayoutTable.mk [layout]).get? (d n).outputTuple = some layout := rfl
  have hspec (n : Int64) : (∃ p, (build (d n) ⟨[layout]⟩ exprs).1 = .ok p) ↔ Specified (d n) layout exprs := by
    rw [(build_accepts_iff (d n) ⟨[layout]⟩ exprs).1, htable]
    simp
  refine ⟨(hspec 127).mp ?_, fun h => ?_⟩
  · exact ⟨_, ok_of_toOption (a := ⟨d 127, layout, 2, [⟨2, #[0]⟩, ⟨2, #[1]⟩]⟩) (by decide +kernel)⟩
  · obtain ⟨p, hp⟩ := (hspec 128).mpr h
    have hrefused : ((build (d 128) ⟨[layout]⟩ exprs).1).toOption = none := by decide +kernel
    rw [hp] at hrefused
    cases hrefused

end Repeat.Plan

end GroupingSets
