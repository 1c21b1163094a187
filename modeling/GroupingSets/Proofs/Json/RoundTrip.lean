import GroupingSets.Json.Descriptor
import GroupingSets.Json.Explain
import GroupingSets.Json.Scalar
import GroupingSets.Json.Settings
import GroupingSets.Proofs.Json.Form
import GroupingSets.Proofs.Json.Number
import GroupingSets.Repeat.Plan
import Mathlib.Data.List.Sort

/-! What has a JSON form is read back from it. The arrays of a set of slots may have its members in any
order and as often as one likes. -/
namespace GroupingSets
open Json

/-! Slots. -/

private theorem DataType.reads (t : DataType) : Reads DataType.readJson t.writeJson t :=
  reads_plain (by rw [DataType.ofName?_name]; rfl)

private theorem SlotId.reads (id : SlotId) : Reads SlotId.readJson id.writeJson id :=
  (reads_uint32 id.val).map fun h => by simp only [SlotId.readJson, h]

private theorem Slot.reads (slot : Slot) : Reads Slot.readJson slot.writeJson slot := by
  have hm : Gathers (readField Slot.fields) {}
      [("id", slot.id.writeJson), ("datatype", slot.datatype.writeJson), ("nullable", writeBool slot.nullable)]
      ⟨some slot.id, some slot.datatype, some slot.nullable⟩ :=
    .cons (slot.id.reads.field rfl rfl) <|
      .cons (slot.datatype.reads.field rfl rfl) <|
        .cons ((reads_bool slot.nullable).field rfl rfl) .nil
  exact hm.structure rfl

/-! Settings. -/

/-- A batch size of zero would be refused. -/
private theorem Settings.reads {c : Settings} (h : c.batchSize ≠ 0) : Reads Settings.readJson c.writeJson c := by
  obtain ⟨size, limit⟩ := c
  have hs : Reads Settings.readBatchSize (writeNat size.toNat) size :=
    (reads_uint64 size).map fun hr => by
      simp only [Settings.readBatchSize, hr]
      exact if_neg h
  have gathers {text : List Char} (hl : Reads (readOption readUInt64) text limit) :
      Gathers (readField Settings.fields) {} [("batch_size", writeNat size.toNat), ("arena_limit", text)]
        ⟨some size, some limit⟩ :=
    .cons (hs.field rfl rfl) <| .cons (hl.field rfl rfl) .nil
  cases limit with
  | none => exact (gathers reads_null).structure rfl
  | some limit => exact (gathers ((reads_uint64 limit).option (head?_writeNat_ne _ rfl))).structure rfl

/-! Descriptions. -/

namespace Explain

/-- An entry whose key lies behind all others goes to the end. -/
private theorem insertEntry_of_lt {key : String} {v : Value} {entries : List (String × Value)}
    (h : ∀ e ∈ entries, e.1 < key) : insertEntry key v entries = entries ++ [(key, v)] := by
  induction entries with
  | nil => rfl
  | cons e rest ih =>
    obtain ⟨k, w⟩ := e
    have hk : k < key := h (k, w) List.mem_cons_self
    rw [insertEntry, if_neg (String.lt_asymm hk), if_pos hk,
      ih fun e he => h e (List.mem_cons_of_mem _ he), List.cons_append]

/-- Items are read one after the other, in the order of their keys. -/
private theorem Items.gathers {member : String → Items → Reader Items}
    (hm : ∀ key items v, Reads (member key items) v.writeJson (items.insert key v)) {before items : Items}
    {entries : List (String × Value)} (h : items.entries = before.entries ++ entries) :
    Gathers member before (entries.map fun (key, v) => (key, v.writeJson)) items := by
  induction entries generalizing before with
  | nil =>
    have hb : before = items := by
      cases before
      cases items
      simp_all
    exact hb ▸ .nil
  | cons e entries ih =>
    obtain ⟨key, v⟩ := e
    -- keys ascend, so that the next item goes behind all that were read
    have hl : ∀ b ∈ before.entries, b.1 < key := by
      have hs := items.sorted
      rw [h, List.pairwise_append] at hs
      exact fun b hb => hs.2.2 b hb (key, v) List.mem_cons_self
    have hb : (before.insert key v).entries = before.entries ++ [(key, v)] := insertEntry_of_lt hl
    have hi : items.entries = (before.insert key v).entries ++ entries := by
      rw [hb, h, List.append_assoc, List.singleton_append]
    exact .cons (hm key before v) (ih hi)

private theorem Value.reads (v : Value) : Reads Value.readJson v.writeJson v := by
  cases v with
  | value text =>
    exact .carrying ((reads_string text).map fun h => by simp only [h]) rfl
  | values texts =>
    exact .carrying ((reads_array reads_string texts).map fun h => by simp only [h]) rfl

private theorem Items.reads (items : Items) : Reads Items.readJson items.writeJson items := by
  refine ⟨writeObject_opens _, fun rest _ => ?_⟩
  rw [Items.writeJson, writeObject_append, Items.readJson, expect_cons rfl]
  refine Gathers.readObject (Items.gathers (fun key before v => ?_) rfl) rest
  exact v.reads.map fun h => by simp only [h]

private theorem reads (e : Explain) : Reads Explain.readJson e.writeJson e := by
  have hm : Gathers (readField Explain.fields) {} [("name", writeString e.name), ("items", e.items.writeJson)]
      ⟨some e.name, some e.items⟩ :=
    .cons ((reads_string e.name).field rfl rfl) <| .cons (e.items.reads.field rfl rfl) .nil
  exact hm.structure rfl

end Explain

/-! Values. -/

namespace Scalar

private theorem reads_case {α : Type} {read : Reader α} {text : List Char} {a : α} (h : Reads read text a)
    {name : String} {make : α → Scalar} {v : Scalar} (hc : case? name = some (caseOf read make)) (hv : make a = v) :
    Reads Scalar.readJson (writeCase name text) v :=
  (h.map fun hr => by simp only [hr, hv]).carrying hc

private theorem exists_reads {v : Scalar} (hs : ∀ bits, v ≠ .float32 bits) (hd : ∀ bits, v ≠ .float64 bits) :
    ∃ text, v.writeJson? = some text ∧ Reads Scalar.readJson text v := by
  cases v with
  | null => exact ⟨_, rfl, reads_plain rfl⟩
  | boolean b => exact ⟨_, rfl, reads_case (reads_bool b) rfl rfl⟩
  | int8 n =>
    have hr := reads_integer (by decide) (by decide) ⟨n.minValue_le_toInt, n.toInt_le⟩
    exact ⟨_, rfl, reads_case hr rfl (congrArg _ n.ofInt_toInt)⟩
  | int16 n =>
    have hr := reads_integer (by decide) (by decide) ⟨n.minValue_le_toInt, n.toInt_le⟩
    exact ⟨_, rfl, reads_case hr rfl (congrArg _ n.ofInt_toInt)⟩
  | int32 n =>
    have hr := reads_integer (by decide) (by decide) ⟨n.minValue_le_toInt, n.toInt_le⟩
    exact ⟨_, rfl, reads_case hr rfl (congrArg _ n.ofInt_toInt)⟩
  | int64 n => exact ⟨_, rfl, reads_case (reads_int64 n) rfl rfl⟩
  | float16 bits => exact ⟨_, rfl, reads_case (reads_nat (by decide) bits.toNat_lt) rfl
    (congrArg _ UInt16.ofNat_toNat)⟩
  | float32 bits => exact absurd rfl (hs bits)
  | float64 bits => exact absurd rfl (hd bits)
  | utf8 s => exact ⟨_, rfl, reads_case (reads_string s) rfl rfl⟩
  | binary bytes =>
    have hb : Reads (readArray (readNat 8)) (writeArray (bytes.map fun b => writeNat b.toNat))
        (bytes.map UInt8.toNat) := by
      refine .array (List.forall₂_map_left_iff.mpr (List.forall₂_map_right_iff.mpr ?_))
      exact List.forall₂_same.mpr fun b _ => reads_nat (by decide) b.toNat_lt
    refine ⟨_, rfl, reads_case hb rfl (congrArg _ ?_)⟩
    rw [List.map_map]
    exact List.map_id'' (fun b => UInt8.ofNat_toNat) bytes

end Scalar

/-! Descriptors. -/

namespace SlotSet

/-- A list has the members of a set, in whatever order and however often it has them. -/
def Lists (ids : List SlotId) (s : SlotSet) : Prop := ∀ id, id ∈ ids ↔ id ∈ s

instance : Std.Irrefl (α := SlotId) (· < ·) := ⟨fun id => UInt32.lt_irrefl id.val⟩

instance : Std.Antisymm (α := SlotId) (· < ·) := ⟨fun _ _ h k => absurd h (UInt32.lt_asymm k)⟩

private theorem lists_toList (s : SlotSet) : Lists s.toList s := fun _ => Iff.rfl

private theorem ofList_eq {ids : List SlotId} {s : SlotSet} (h : Lists ids s) : ofList ids = s := by
  have he : (ofList ids).ids = s.ids :=
    (ofList ids).sorted.eq_of_mem_iff s.sorted fun id => mem_ofList.trans (h id)
  cases s
  cases hids : ofList ids
  simp_all

private theorem reads {ids : List SlotId} {s : SlotSet} (h : Lists ids s) :
    Reads SlotSet.readJson (writeArray (ids.map SlotId.writeJson)) s :=
  (reads_array SlotId.reads ids).map fun hr => by simp only [SlotSet.readJson, hr, ofList_eq h]

end SlotSet

namespace Repeat.Descriptor

/-- The members of a descriptor's form, but with the given arrays for its sets. -/
def listedMembers (d : Descriptor) (grouping : List SlotId) (keeps : List (List SlotId)) :
    List (String × List Char) :=
  [("grouping_slots", writeArray (grouping.map SlotId.writeJson)),
    ("keep_sets", writeArray (keeps.map fun ids => writeArray (ids.map SlotId.writeJson))),
    ("repeat_ids", writeNumbers d.repeatIds),
    ("grouping_list", writeArray (d.groupingList.map writeNumbers)),
    ("output_tuple_id", writeNat d.outputTuple.val.toNat)]

def writeListed (d : Descriptor) (grouping : List SlotId) (keeps : List (List SlotId)) : List Char :=
  writeObject (d.listedMembers grouping keeps)

private theorem writeListed_toList (d : Descriptor) :
    d.writeListed d.groupingSlots.toList (d.keepSets.map SlotSet.toList) = d.writeJson := by
  rw [writeListed, listedMembers, List.map_map]
  rfl

private theorem reads_numbers (ns : List Int64) : Reads (readArray readInt64) (writeNumbers ns) ns :=
  reads_array reads_int64 ns

private theorem reads_tuple (id : TupleId) : Reads readTuple (writeNat id.val.toNat) id :=
  (reads_uint32 id.val).map fun h => by simp only [readTuple, h]

private theorem reads {d : Descriptor} {grouping : List SlotId} {keeps : List (List SlotId)}
    (hg : SlotSet.Lists grouping d.groupingSlots) (hk : List.Forall₂ SlotSet.Lists keeps d.keepSets) :
    Reads Descriptor.readJson (d.writeListed grouping keeps) d := by
  have hs : Reads (readArray SlotSet.readJson)
      (writeArray (keeps.map fun ids => writeArray (ids.map SlotId.writeJson))) d.keepSets :=
    .array (List.forall₂_map_left_iff.mpr (hk.imp fun _ _ => SlotSet.reads))
  have hm : Gathers (readField Descriptor.fields) {} (d.listedMembers grouping keeps)
      ⟨some d.groupingSlots, some d.keepSets, some d.repeatIds, some d.groupingList, some d.outputTuple⟩ :=
    .cons ((SlotSet.reads hg).field rfl rfl) <|
      .cons (hs.field rfl rfl) <|
        .cons ((reads_numbers d.repeatIds).field rfl rfl) <|
          .cons ((reads_array reads_numbers d.groupingList).field rfl rfl) <|
            .cons ((reads_tuple d.outputTuple).field rfl rfl) .nil
  exact hm.structure rfl

end Repeat.Descriptor

/-- What is written of the inputs of a plan is read back from it: descriptors, slots, settings whose batch
size is not zero, descriptions, and values other than singles and doubles. A descriptor, and with it its plan,
does not change when the array of any of its sets is replaced by one with the same ids, in any order and with
repetitions. -/
theorem ofJson_toJson :
    (∀ d : Repeat.Descriptor, Repeat.Descriptor.ofJson d.toJson = .ok d) ∧
    (∀ slot : Slot, Slot.ofJson slot.toJson = .ok slot) ∧
    (∀ c : Settings, c.batchSize ≠ 0 → Settings.ofJson c.toJson = .ok c) ∧
    (∀ e : Explain, Explain.ofJson e.toJson = .ok e) ∧
    (∀ v : Scalar, (∀ bits, v ≠ .float32 bits) → (∀ bits, v ≠ .float64 bits) →
      ∃ text, v.toJson? = some text ∧ Scalar.ofJson text = .ok v) ∧
    ∀ d : Repeat.Descriptor,
      d.toJson = String.ofList (d.writeListed d.groupingSlots.toList (d.keepSets.map SlotSet.toList)) ∧
      ∀ grouping keeps, SlotSet.Lists grouping d.groupingSlots → List.Forall₂ SlotSet.Lists keeps d.keepSets →
        Repeat.Descriptor.ofJson (String.ofList (d.writeListed grouping keeps)) = .ok d ∧
        ∀ tables exprs,
          (Repeat.Descriptor.ofJson (String.ofList (d.writeListed grouping keeps))).map
              (Repeat.Plan.build · tables exprs) =
            .ok (Repeat.Plan.build d tables exprs) := by
  have listed (d : Repeat.Descriptor) {grouping keeps} (hg : SlotSet.Lists grouping d.groupingSlots)
      (hk : List.Forall₂ SlotSet.Lists keeps d.keepSets) :
      Repeat.Descriptor.ofJson (String.ofList (d.writeListed grouping keeps)) = .ok d :=
    (Repeat.Descriptor.reads hg hk).readAll
  have own (d : Repeat.Descriptor) :
      d.toJson = String.ofList (d.writeListed d.groupingSlots.toList (d.keepSets.map SlotSet.toList)) :=
    congrArg String.ofList d.writeListed_toList.symm
  refine ⟨fun d => ?_, fun slot => slot.reads.readAll, fun c hc => (Settings.reads hc).readAll,
    fun e => e.reads.readAll, fun v hs hd => ?_, fun d => ⟨own d, fun grouping keeps hg hk => ?_⟩⟩
  · have hk : List.Forall₂ SlotSet.Lists (d.keepSets.map SlotSet.toList) d.keepSets :=
      List.forall₂_map_left_iff.mpr (List.forall₂_same.mpr fun s _ => s.lists_toList)
    rw [own]
    exact listed d d.groupingSlots.lists_toList hk
  · obtain ⟨text, ht, hr⟩ := Scalar.exists_reads hs hd
    exact ⟨String.ofList text, by rw [Scalar.toJson?, ht, Option.map_some], hr.readAll⟩
  · refine ⟨listed d hg hk, fun tables exprs => ?_⟩
    rw [listed d hg hk]
    rfl

/-- Settings without defaults, the least of the integers, a half that is no number, and two sets in another
order. -/
theorem ofJson_toJson_on_edges :
    let d : Repeat.Descriptor := ⟨.ofList [⟨1⟩, ⟨2⟩], [.ofList [⟨2⟩]], [-1], [[Int64.minValue]], ⟨0⟩⟩
    let c : Settings := ⟨1, some 18446744073709551615⟩
    (c.batchSize ≠ 0 ∧ Settings.ofJson c.toJson = .ok c) ∧
    (∃ text, (Scalar.int64 Int64.minValue).toJson? = some text ∧
      Scalar.ofJson text = .ok (.int64 Int64.minValue)) ∧
    (∃ text, (Scalar.float16 0x7e01).toJson? = some text ∧ Scalar.ofJson text = .ok (.float16 0x7e01)) ∧
    String.ofList (d.writeListed [⟨2⟩, ⟨1⟩, ⟨2⟩] [[⟨2⟩, ⟨2⟩]]) =
      "\x7b\"grouping_slots\":[2,1,2],\"keep_sets\":[[2,2]],\"repeat_ids\":[-1]," ++
        "\"grouping_list\":[[-9223372036854775808]],\"output_tuple_id\":0\x7d" ∧
    Repeat.Descriptor.ofJson (String.ofList (d.writeListed [⟨2⟩, ⟨1⟩, ⟨2⟩] [[⟨2⟩, ⟨2⟩]])) = .ok d := by
  have hg : SlotSet.Lists [⟨2⟩, ⟨1⟩, ⟨2⟩] (.ofList [⟨1⟩, ⟨2⟩]) := fun id => by
    simp only [SlotSet.mem_ofList, List.mem_cons, List.not_mem_nil, or_false]
    tauto
  have hk : SlotSet.Lists [⟨2⟩, ⟨2⟩] (.ofList [⟨2⟩]) := fun id => by
    simp only [SlotSet.mem_ofList, List.mem_cons, List.not_mem_nil, or_false, or_self]
  obtain ⟨_, _, settings, _, values, descriptors⟩ := ofJson_toJson
  exact ⟨⟨by decide, settings _ (by decide)⟩, values _ nofun nofun, values _ nofun nofun, by decide +kernel,
    ((descriptors _).2 _ _ hg (.cons hk .nil)).1⟩

end GroupingSets
