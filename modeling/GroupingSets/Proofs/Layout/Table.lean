import GroupingSets.Proofs.Repeat.Plan
import GroupingSets.Proofs.Row

/-! What a table of layouts holds after layouts were inserted. A second layout for a tuple is refused, and is in the
table all the same: each tuple has the layout that came for it last, and a plan that is built afterwards is built on
that one. -/
namespace GroupingSets

namespace LayoutTable
variable {t u : LayoutTable}

def after (t : LayoutTable) (inserted : List Layout) : LayoutTable :=
  inserted.foldl (fun t layout => (t.insert layout).2) t

def layoutsFor (layouts : List Layout) (id : TupleId) : List Layout := layouts.filter (·.id = id)

private theorem layoutsFor_cons (layout : Layout) (rest : List Layout) (id : TupleId) :
    layoutsFor (layout :: rest) id =
      if layout.id = id then layout :: layoutsFor rest id else layoutsFor rest id := by
  simp only [layoutsFor, List.filter_cons, decide_eq_true_eq]

private theorem isSome_getLast?_layoutsFor {layouts : List Layout} {id : TupleId} :
    ((layoutsFor layouts id).getLast?).isSome ↔ ∃ layout ∈ layouts, layout.id = id := by
  simp [layoutsFor]

/-- A tuple has the last layout that was inserted for it, and without any the one it had. -/
private theorem get?_after (t : LayoutTable) (inserted : List Layout) (id : TupleId) :
    (t.after inserted).get? id = ((layoutsFor inserted id).getLast?).or (t.get? id) := by
  induction inserted generalizing t with
  | nil => rfl
  | cons layout rest ih =>
    have hstep : (t.after (layout :: rest)).get? id =
        ((layoutsFor rest id).getLast?).or ((t.insert layout).2.get? id) := ih (t.insert layout).2
    rw [hstep, get?_insert, layoutsFor_cons]
    split
    · rw [List.getLast?_cons]
      cases (layoutsFor rest id).getLast? <;> rfl
    · rfl

/-! A table that is set up at once. -/

def insertNew (t : LayoutTable) (layout : Layout) : Except Error LayoutTable :=
  match t.insert layout with
  | (.ok _, t) => .ok t
  | (.error e, _) => .error e

private theorem ofLayouts_eq (layouts : List Layout) : ofLayouts layouts = layouts.foldlM insertNew ∅ := rfl

private theorem insertNew_ok {layout : Layout} (h : t.insertNew layout = .ok u) :
    t.get? layout.id = none ∧ u = (t.insert layout).2 := by
  unfold insertNew insert at h
  cases hg : t.get? layout.id with
  | some found =>
    rw [hg] at h
    cases h
  | none =>
    rw [hg] at h
    cases h
    exact ⟨rfl, rfl⟩

private theorem foldlM_insertNew_ok {layouts : List Layout} (h : layouts.foldlM insertNew t = .ok u) :
    u = t.after layouts ∧ (layouts.map (·.id)).Nodup ∧ ∀ layout ∈ layouts, t.get? layout.id = none := by
  induction layouts generalizing t with
  | nil =>
    cases h
    exact ⟨rfl, List.nodup_nil, nofun⟩
  | cons layout rest ih =>
    rw [List.foldlM_cons] at h
    cases hl : t.insertNew layout with
    | error e =>
      rw [hl] at h
      cases h
    | ok v =>
      rw [hl] at h
      obtain ⟨hu, hnodup, hfresh⟩ := ih h
      obtain ⟨hnone, rfl⟩ := insertNew_ok hl
      have hother (other : Layout) (hm : other ∈ rest) : layout.id ≠ other.id ∧ t.get? other.id = none := by
        have := hfresh other hm
        rw [get?_insert] at this
        split at this
        · cases this
        · next hne => exact ⟨hne, this⟩
      refine ⟨hu, ?_, ?_⟩
      · rw [List.map_cons, List.nodup_cons]
        refine ⟨fun hm => ?_, hnodup⟩
        obtain ⟨other, hm, he⟩ := List.mem_map.mp hm
        exact (hother other hm).1 he.symm
      · intro other hm
        rcases List.mem_cons.mp hm with rfl | hm
        · exact hnone
        · exact (hother other hm).2

/-- Layouts are accepted together only if they are for different tuples, and are then what the table holds. -/
private theorem ofLayouts_ok {layouts : List Layout} (h : ofLayouts layouts = .ok t) :
    t = (∅ : LayoutTable).after layouts ∧ (layouts.map (·.id)).Nodup := by
  rw [ofLayouts_eq] at h
  obtain ⟨ht, hnodup, _⟩ := foldlM_insertNew_ok h
  exact ⟨ht, hnodup⟩

/-- Whatever is inserted into such a table, refused or not, a tuple has the layout that came for it last. -/
private theorem get?_after_ofLayouts {layouts : List Layout} (h : ofLayouts layouts = .ok t) (inserted : List Layout)
    (id : TupleId) : (t.after inserted).get? id = (layoutsFor (layouts ++ inserted) id).getLast? := by
  obtain ⟨rfl, _⟩ := ofLayouts_ok h
  have hrun : ((∅ : LayoutTable).after layouts).after inserted = (∅ : LayoutTable).after (layouts ++ inserted) :=
    List.foldl_append.symm
  rw [hrun, get?_after]
  exact Option.or_none

/-- An insertion leaves what every tuple has exactly if it brings what its own tuple has already. -/
private theorem get?_insert_eq_iff {layout : Layout} :
    (∀ id, (t.insert layout).2.get? id = t.get? id) ↔ t.get? layout.id = some layout := by
  constructor
  · intro h
    rw [← h layout.id, get?_insert, if_pos rfl]
  · intro h id
    rw [get?_insert]
    split
    · next he => rw [← he, h]
    · rfl

end LayoutTable

namespace Repeat.Plan

/-- Of a table, a plan depends on the layout of its output alone. -/
private theorem build_congr {d : Descriptor} {t u : LayoutTable} (h : t.get? d.outputTuple = u.get? d.outputTuple)
    (exprs : List Expr) : build d t exprs = build d u exprs := by
  rw [build, build, h]

/-- A plan that was built before and after an insertion is the same exactly if the insertion was for another tuple, or
brought the layout that the plan has. -/
theorem build_insert_iff {d : Descriptor} {t : LayoutTable} {layout : Layout} {exprs : List Expr} {p q : Plan}
    (hp : (build d t exprs).1 = .ok p) (hq : (build d (t.insert layout).2 exprs).1 = .ok q) :
    p = q ↔ layout.id ≠ d.outputTuple ∨ p.outputLayout = layout := by
  obtain ⟨_, hbefore, _⟩ := build_ok hp
  obtain ⟨_, hafter, _⟩ := build_ok hq
  rw [LayoutTable.get?_insert] at hafter
  constructor
  · rintro rfl
    by_cases he : layout.id = d.outputTuple
    · rw [if_pos he] at hafter
      exact Or.inr (Option.some.inj hafter).symm
    · exact Or.inl he
  · intro h
    have hsame : (t.insert layout).2.get? d.outputTuple = t.get? d.outputTuple := by
      rw [LayoutTable.get?_insert]
      split
      · next he => rw [hbefore, h.resolve_left (not_not_intro he)]
      · rfl
    rw [build_congr hsame, hp] at hq
    exact Except.ok.inj hq

end Repeat.Plan

namespace LayoutTable
open Repeat Repeat.Plan

/-- A table that was set up at once, and anything inserted since. Each tuple has the layout that came for it last; one
more layout is refused exactly if one came for its tuple before, and whether or not it is refused its tuple has it
from then on, while all others keep theirs. So a refusal leaves the table as it was exactly if it refuses what the
tuple has already, and it leaves the plans that are built exactly if their output is another tuple or has that very
layout. -/
theorem last_layout_stays {layouts : List Layout} {t : LayoutTable} (h : ofLayouts layouts = .ok t)
    (inserted : List Layout) (layout : Layout) :
    let now := t.after inserted
    let next := (now.insert layout).2
    (layouts.map (·.id)).Nodup ∧
    (∀ id, now.get? id = (layoutsFor (layouts ++ inserted) id).getLast?) ∧
    ((∃ e, (now.insert layout).1 = .error e) ↔ ∃ other ∈ layouts ++ inserted, other.id = layout.id) ∧
    (∀ id, next.get? id = if layout.id = id then some layout else now.get? id) ∧
    ((∀ id, next.get? id = now.get? id) ↔ now.get? layout.id = some layout) ∧
    (∀ d exprs, layout.id ≠ d.outputTuple ∨ now.get? layout.id = some layout →
      build d next exprs = build d now exprs) ∧
    ∀ d exprs p q, (build d now exprs).1 = .ok p → (build d next exprs).1 = .ok q →
      (p = q ↔ layout.id ≠ d.outputTuple ∨ p.outputLayout = layout) := by
  intro now next
  have hlast : ∀ id, now.get? id = (layoutsFor (layouts ++ inserted) id).getLast? := get?_after_ofLayouts h inserted
  refine ⟨(ofLayouts_ok h).2, hlast, ?_, get?_insert now layout, get?_insert_eq_iff, fun d exprs hd => ?_,
    fun d exprs p q => build_insert_iff⟩
  · rw [insert_error_iff, hlast, isSome_getLast?_layoutsFor]
  · refine build_congr ?_ exprs
    rcases hd with hne | hsame
    · exact (get?_insert now layout _).trans (if_neg hne)
    · exact get?_insert_eq_iff.mpr hsame d.outputTuple

/-- Two tuples, of which the first has been given another layout since. A third one is refused for it too, and it has
it; the second tuple, and a plan on it, are as before. -/
theorem last_layout_stays_of_three :
    let first (datatype : DataType) : Layout := ⟨⟨1⟩, [⟨⟨0⟩, datatype, true⟩]⟩
    let second : Layout := ⟨⟨2⟩, [⟨⟨5⟩, .int32, false⟩]⟩
    let now := (LayoutTable.mk [second, first .int32]).after [first .int64]
    let next := (now.insert (first .utf8)).2
    let d : Descriptor := ⟨∅, [∅], [0], [], ⟨2⟩⟩
    let exprs : List Expr := [.ofColumn 0 .int32]
    ofLayouts [first .int32, second] = .ok ⟨[second, first .int32]⟩ ∧ now.get? ⟨1⟩ = some (first .int64) ∧
      (∃ e, (now.insert (first .utf8)).1 = .error e) ∧ next.get? ⟨1⟩ = some (first .utf8) ∧
      next.get? ⟨2⟩ = some second ∧ (∃ p, (build d now exprs).1 = .ok p ∧ (build d next exprs).1 = .ok p) := by
  intro first second now next d exprs
  have hset : ofLayouts [first .int32, second] = .ok ⟨[second, first .int32]⟩ := rfl
  obtain ⟨_, hlast, hrefused, hnext, _, hplan, _⟩ := last_layout_stays hset [first .int64] (first .utf8)
  have hbuilt : (build d now exprs).1 = .ok ⟨d, second, 1, [⟨1, #[0]⟩]⟩ := ok_of_toOption (by decide +kernel)
  exact ⟨hset, hlast ⟨1⟩, hrefused.mpr ⟨first .int32, by decide, rfl⟩, hnext ⟨1⟩, hnext ⟨2⟩, _, hbuilt,
    (congrArg Prod.fst (hplan d exprs (Or.inl (by decide)))).trans hbuilt⟩

/-- A layout that is refused takes the place of the one that is there, and a descriptor that was accepted on that one
no longer is. -/
theorem refused_layout_replaces :
    let old : Layout := ⟨⟨1⟩, [⟨⟨0⟩, .int32, true⟩]⟩
    let late : Layout := ⟨⟨1⟩, [⟨⟨0⟩, .int64, true⟩]⟩
    let next := ((LayoutTable.mk [old]).insert late).2
    let d : Descriptor := ⟨∅, [∅], [0], [], ⟨1⟩⟩
    let exprs : List Expr := [.ofColumn 0 .int32]
    ofLayouts [old] = .ok ⟨[old]⟩ ∧ ((LayoutTable.mk [old]).insert late).1 = .error (.duplicateTuple ⟨1⟩) ∧
      (LayoutTable.mk [old]).get? ⟨1⟩ = some old ∧ next.get? ⟨1⟩ = some late ∧ old ≠ late ∧
      (∃ p, (build d ⟨[old]⟩ exprs).1 = .ok p) ∧ ∃ e, (build d next exprs).1 = .error e := by
  intro old late next d exprs
  have hbuilt : (build d ⟨[old]⟩ exprs).1 = .ok ⟨d, old, 1, [⟨1, #[0]⟩]⟩ := ok_of_toOption (by decide +kernel)
  exact ⟨rfl, rfl, rfl, rfl, by decide, ⟨_, hbuilt⟩, error_of_toOption (by decide +kernel)⟩

end LayoutTable

end GroupingSets
