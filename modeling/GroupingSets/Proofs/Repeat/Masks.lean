import GroupingSets.Proofs.Repeat.Acceptance

/-! The null masks of a plan as sets. What a mask has set is said by the ids of the slots alone: the positions of
the value slots that are grouped by and not kept, however the ids are chosen and however often they occur. -/
namespace GroupingSets

namespace Repeat.Plan

private theorem len_nullMask {slots : List Slot} {grouping mask : Bitmap} {keep : SlotSet}
    (h : nullMask slots grouping keep = .ok mask) : mask.len = slots.length := by
  unfold nullMask at h
  split at h
  · cases h
  · exact Bitmap.len_ofIndices h

/-- A mask has the positions of the slots that are grouped by and not kept. -/
private theorem mem_indices_nullMask {slots : List Slot} {grouped keep : SlotSet} {grouping mask : Bitmap}
    (hg : positionsIn slots grouped = .ok grouping) (h : nullMask slots grouping keep = .ok mask) {k : Nat} :
    k ∈ mask.indices ↔ ∃ slot, slots[k]? = some slot ∧ slot.id ∈ grouped ∧ slot.id ∉ keep := by
  have hat {slot : Slot} (hk : slots[k]? = some slot) :
      k ∈ mask.indices ↔ slot.id ∈ grouped ∧ slot.id ∉ keep := by
    rw [Bitmap.mem_indices, Bitmap.contains_of_get (get_nullMask hg h hk)]
    simp
  constructor
  · intro hm
    have hlt : k < slots.length := len_nullMask h ▸ Bitmap.lt_of_mem_indices hm
    have hk := List.getElem?_eq_getElem hlt
    exact ⟨_, hk, (hat hk).mp hm⟩
  · rintro ⟨slot, hk, hid⟩
    exact (hat hk).mpr hid

/-- A plan has a mask for each keep set. It is as long as there are value slots, is set at exactly the positions of
those whose ids are grouped by and not in the keep set, and lists these positions in ascending order. -/
theorem mask_indices_iff (d : Descriptor) (tables : LayoutTable) (exprs : List Expr) (p : Plan)
    (h : (build d tables exprs).1 = .ok p) :
    p.numCombinations = d.keepSets.length ∧ p.numValueSlots = exprs.length ∧
      ∀ combination keep, d.keepSets[combination]? = some keep →
        ∃ mask, p.mask combination = .ok mask ∧ mask.len = p.numValueSlots ∧
          (∀ k, k < p.numValueSlots → ∃ slot, p.outputLayout.slots[k]? = some slot ∧
            mask.get k = .ok (decide (slot.id ∈ d.groupingSlots ∧ slot.id ∉ keep))) ∧
          mask.indices.Pairwise (· < ·) ∧
          ∀ k, k ∈ mask.indices ↔ k < p.numValueSlots ∧
            ∃ slot, p.outputLayout.slots[k]? = some slot ∧ slot.id ∈ d.groupingSlots ∧ slot.id ∉ keep := by
  obtain ⟨layout, grouping, masks, _, hspec, hg, hm, rfl⟩ := exists_of_build h
  obtain ⟨hlen, hmask⟩ := nullMasksOf_ok hm
  have hslots : exprs.length ≤ layout.slots.length := Nat.le.intro hspec.numSlots.symm
  refine ⟨hlen, rfl, fun combination keep hkeep => ?_⟩
  obtain ⟨mask, hget, hnull⟩ := hmask combination keep hkeep
  refine ⟨mask, by rw [Plan.mask, hget], ?_, fun k hk => ?_, mask.indices_sorted, fun k => ?_⟩
  · exact (len_nullMask hnull).trans (List.length_take_of_le hslots)
  · have hslot := List.getElem?_eq_getElem (Nat.lt_of_lt_of_le hk hslots)
    refine ⟨_, hslot, ?_⟩
    rw [get_nullMask hg hnull ((List.getElem?_take_of_lt hk).trans hslot), Bool.decide_and, decide_not]
  · rw [mem_indices_nullMask hg hnull]
    constructor
    · rintro ⟨slot, hk, hid⟩
      rw [List.getElem?_take] at hk
      split at hk
      · exact ⟨‹_›, slot, hk, hid⟩
      · cases hk
    · rintro ⟨hlt, slot, hk, hid⟩
      exact ⟨slot, (List.getElem?_take_of_lt hlt).trans hk, hid⟩

/-- Ten value slots, two of them with ids that occur twice, a grouping slot that the output lacks, and masks that
reach into the second byte. -/
theorem mask_indices_iff_of_repeated_ids :
    let ids : List SlotId := [⟨5⟩, ⟨900⟩, ⟨5⟩, ⟨7⟩, ⟨3⟩, ⟨3⟩, ⟨8⟩, ⟨20⟩, ⟨900⟩, ⟨1⟩]
    let layout : Layout := ⟨⟨1⟩, ids.map fun id => ⟨id, .int8, true⟩⟩
    let d : Descriptor :=
      ⟨.ofList [⟨900⟩, ⟨77⟩, ⟨5⟩, ⟨20⟩], [.ofList [⟨5⟩, ⟨77⟩], .ofList [⟨900⟩]], [0, 1], [], ⟨1⟩⟩
    let exprs : List Expr := List.replicate 10 (.ofColumn 0 .int8)
    let p : Plan := ⟨d, layout, 10, [⟨10, #[130, 1]⟩, ⟨10, #[133, 0]⟩]⟩
    (build d ⟨[layout]⟩ exprs).1 = .ok p ∧ ∃ mask, p.mask 0 = .ok mask ∧ mask.len = 10 ∧
      mask.get 8 = .ok true ∧ 1 ∈ mask.indices ∧ 0 ∉ mask.indices := by
  intro ids layout d exprs p
  have h : (build d ⟨[layout]⟩ exprs).1 = .ok p := ok_of_toOption (by decide +kernel)
  obtain ⟨_, _, hmasks⟩ := mask_indices_iff d ⟨[layout]⟩ exprs p h
  obtain ⟨mask, hmask, hlen, hget, _, hmem⟩ := hmasks 0 (.ofList [⟨5⟩, ⟨77⟩]) rfl
  refine ⟨h, mask, hmask, hlen, ?_, ?_, fun h0 => ?_⟩
  · obtain ⟨slot, hslot, hvalue⟩ := hget 8 (by decide)
    cases hslot
    rw [hvalue]
    decide
  · exact (hmem 1).mpr ⟨by decide, ⟨⟨900⟩, .int8, true⟩, rfl, by decide⟩
  · obtain ⟨_, slot, hslot, hid⟩ := (hmem 0).mp h0
    cases hslot
    exact absurd hid (by decide)

end Repeat.Plan

end GroupingSets
