import GroupingSets.Json.Settings
import GroupingSets.Proofs.Json.Form
import GroupingSets.Proofs.Row
import Mathlib.Algebra.Ring.Int.Defs
import Mathlib.Algebra.Ring.Nat

/-! Settings under requests by name. A batch size comes from a text or from a request, and neither takes zero.
Sizes are shown as signed numbers of 64 bits: those that a request can give are all shown as they are, while a
text also gives larger ones. -/
namespace GroupingSets
open Json

namespace Scalar

def carried? : Scalar → Option Int
  | .int8 n => some n.toInt
  | .int16 n => some n.toInt
  | .int32 n => some n.toInt
  | .int64 n => some n.toInt
  | _ => none

def Denotes (v : Scalar) : Option UInt64 → Prop
  | some size => v.carried? = some (size.toNat : Int)
  | none => v = .null

private theorem carried?_eq (v : Scalar) : v.carried? = v.integer?.map Int64.toInt := by
  cases v <;> simp [carried?, integer?]

/-- Sizes of the upper half are shown as negative numbers. -/
private theorem toInt_toInt64_cases (size : UInt64) :
    size.toNat < 2 ^ 63 ∧ size.toInt64.toInt = size.toNat ∨
      2 ^ 63 ≤ size.toNat ∧ size.toInt64.toInt = size.toNat - 2 ^ 64 := by
  have h : size.toInt64.toInt = size.toBitVec.toInt := rfl
  rw [h, BitVec.toInt_eq_toNat_cond, UInt64.toNat_toBitVec]
  split <;> omega

private theorem toSize_int64 (n : Int64) :
    (int64 n).toSize = if n.toInt < 0 then .error (.notSize n) else .ok n.toUInt64 := by
  simp [toSize, toInt64, integer?, Int64.lt_iff_toInt_lt]

private theorem toSize_eq_ok_iff {v : Scalar} {size : UInt64} :
    v.toSize = .ok size ↔ v.carried? = some (size.toNat : Int) := by
  rw [carried?_eq, toSize, toInt64]
  cases v.integer? with
  | none => simp
  | some n =>
    have hn := toInt_toInt64_cases n.toUInt64
    have hs := n.toUInt64.toNat_lt
    rw [Int64.toInt64_toUInt64] at hn
    simp only [Int64.lt_iff_toInt_lt, Int64.toInt_zero, Option.map_some, Option.some.injEq]
    constructor
    · intro h
      split at h <;> cases h
      omega
    · intro h
      rw [if_neg (by omega)]
      exact congrArg Except.ok (UInt64.toNat_inj.mp (by omega))

private theorem Denotes.lt {v : Scalar} {size : UInt64} (h : v.Denotes (some size)) : size.toNat < 2 ^ 63 := by
  have hc : v.carried? = some (size.toNat : Int) := h
  rw [carried?_eq, Option.map_eq_some_iff] at hc
  obtain ⟨n, _, hn⟩ := hc
  have := n.toInt_lt
  omega

private theorem Denotes.isNull {v : Scalar} {size : UInt64} (h : v.Denotes (some size)) : v.isNull = false := by
  cases v with
  | null => cases h
  | _ => rfl

end Scalar

private theorem Setting.ofName_eq_ok_iff {name : String} {setting : Setting} :
    ofName name = .ok setting ↔ setting.name = name := by
  constructor
  · intro h
    unfold ofName at h
    split at h <;> cases h
    next hf => simpa using List.find?_some hf
  · rintro rfl
    exact ofName_name setting

namespace Settings
variable {c d : Settings} {setting : Setting} {name : String} {v : Scalar} {size : Option UInt64}

def size? (c : Settings) : Setting → Option UInt64
  | .batchSize => some c.batchSize
  | .arenaLimit => c.arenaLimit

/-- One setting is given a size, and the others keep theirs. -/
structure Gives (c : Settings) (setting : Setting) (size : Option UInt64) (d : Settings) : Prop where
  given : d.size? setting = size
  kept : ∀ other, other ≠ setting → d.size? other = c.size? other

private theorem Gives.refl (c : Settings) (setting : Setting) : c.Gives setting (c.size? setting) c :=
  ⟨rfl, fun _ _ => rfl⟩

private theorem eq_of_size?_eq (h : ∀ setting, c.size? setting = d.size? setting) : c = d := by
  cases c
  cases d
  have hs := h .batchSize
  have hl := h .arenaLimit
  simp only [size?, Option.some.injEq] at hs hl
  rw [hs, hl]

private theorem Gives.unique {e : Settings} (hd : c.Gives setting size d) (he : c.Gives setting size e) : d = e := by
  refine eq_of_size?_eq fun other => ?_
  by_cases h : other = setting
  · rw [h, hd.given, he.given]
  · rw [hd.kept other h, he.kept other h]

private theorem gives_batchSize (c : Settings) (n : UInt64) : c.Gives .batchSize (some n) { c with batchSize := n } :=
  ⟨rfl, fun other h => by cases other <;> simp_all [size?]⟩

private theorem gives_arenaLimit (c : Settings) (limit : Option UInt64) :
    c.Gives .arenaLimit limit { c with arenaLimit := limit } :=
  ⟨rfl, fun other h => by cases other <;> simp_all [size?]⟩

/-! One request. -/

private theorem set_eq_ok_iff (hc : c.batchSize ≠ 0) :
    c.set setting v = .ok d ↔ d.batchSize ≠ 0 ∧ ∃ size, v.Denotes size ∧ c.Gives setting size d := by
  constructor
  · intro h
    cases setting with
    | batchSize =>
      simp only [set] at h
      split at h
      · cases h
      · next n hn =>
        split at h <;> cases h
        next hz => exact ⟨hz, some n, Scalar.toSize_eq_ok_iff.mp hn, gives_batchSize c n⟩
    | arenaLimit =>
      simp only [set] at h
      split at h
      · next hv =>
        cases h
        exact ⟨hc, none, Scalar.isNull_iff.mp hv, gives_arenaLimit c none⟩
      · split at h <;> cases h
        next n hn => exact ⟨hc, some n, Scalar.toSize_eq_ok_iff.mp hn, gives_arenaLimit c (some n)⟩
  · rintro ⟨hd, size, hv, hg⟩
    cases setting with
    | batchSize =>
      obtain rfl : some d.batchSize = size := hg.given
      rw [hg.unique (gives_batchSize c d.batchSize), set, Scalar.toSize_eq_ok_iff.mpr hv]
      exact if_neg hd
    | arenaLimit =>
      rw [hg.unique (gives_arenaLimit c size), set]
      cases size with
      | none => rw [if_pos (Scalar.isNull_iff.mpr hv)]
      | some n => simp only [hv.isNull, Scalar.toSize_eq_ok_iff.mpr hv, Bool.false_eq_true, if_false]

/-- A setting is changed by its name, to what the value stands for. -/
private theorem setNamed_eq_ok_iff (hc : c.batchSize ≠ 0) :
    c.setNamed name v = (.ok (), d) ↔
      d.batchSize ≠ 0 ∧ ∃ setting size, setting.name = name ∧ v.Denotes size ∧ c.Gives setting size d := by
  constructor
  · intro h
    simp only [setNamed] at h
    split at h
    · cases h
    · next setting hn =>
      split at h <;> cases h
      next hs =>
      obtain ⟨hd, size, hv, hg⟩ := (set_eq_ok_iff hc).mp hs
      exact ⟨hd, setting, size, Setting.ofName_eq_ok_iff.mp hn, hv, hg⟩
  · rintro ⟨hd, setting, size, rfl, hv, hg⟩
    have hs : c.set setting v = .ok d := (set_eq_ok_iff hc).mpr ⟨hd, size, hv, hg⟩
    simp only [setNamed, Setting.ofName_name, hs]

private theorem setNamed_error {e : Error} (h : (c.setNamed name v).1 = .error e) : (c.setNamed name v).2 = c := by
  simp only [setNamed] at h ⊢
  split
  · rfl
  · next setting hn =>
    rw [hn] at h
    dsimp only at h
    split
    · rfl
    · next hs => simp [hs] at h

private theorem getNamed_name (c : Settings) (setting : Setting) : c.getNamed setting.name = .ok (c.get setting) := by
  simp only [getNamed, Setting.ofName_name]

private theorem resetNamed_error {e : Error} (h : (c.resetNamed name).1 = .error e) : (c.resetNamed name).2 = c := by
  simp only [resetNamed] at h ⊢
  split
  · rfl
  · next hn =>
    simp only [hn] at h
    exact setNamed_error h

/-- A setting that there is can always be reset. -/
private theorem resetNamed_name (c : Settings) (setting : Setting) :
    ∃ d, c.resetNamed setting.name = (.ok (), d) ∧ c.Gives setting (({} : Settings).size? setting) d := by
  cases setting with
  | batchSize => exact ⟨_, rfl, gives_batchSize c 2048⟩
  | arenaLimit => exact ⟨_, rfl, gives_arenaLimit c none⟩

/-! A run of requests. -/

inductive Request where
  | set (name : String) (v : Scalar)
  | get (name : String)
  | reset (name : String)

def serve (c : Settings) : Request → Except Error (Option Scalar) × Settings
  | .set name v => ((c.setNamed name v).1.map fun _ => none, (c.setNamed name v).2)
  | .get name => ((c.getNamed name).map some, c)
  | .reset name => ((c.resetNamed name).1.map fun _ => none, (c.resetNamed name).2)

def after (c : Settings) (requests : List Request) : Settings := requests.foldl (fun c r => (c.serve r).2) c

private theorem serve_error {r : Request} {e : Error} (h : (c.serve r).1 = .error e) : (c.serve r).2 = c := by
  cases r with
  | set name v =>
    cases hs : (c.setNamed name v).1 with
    | error f => exact setNamed_error hs
    | ok _ => simp [serve, hs, Except.map] at h
  | get name => rfl
  | reset name =>
    cases hs : (c.resetNamed name).1 with
    | error f => exact resetNamed_error hs
    | ok _ => simp [serve, hs, Except.map] at h

/-- A request changes nothing, or gives one setting a size that some value stands for. -/
private theorem serve_cases (hc : c.batchSize ≠ 0) (r : Request) :
    (c.serve r).2 = c ∨
      (c.serve r).2.batchSize ≠ 0 ∧
        ∃ setting v size, Scalar.Denotes v size ∧ c.Gives setting size (c.serve r).2 := by
  have cases_setNamed (name : String) (v : Scalar) :
      (c.setNamed name v).2 = c ∨ (c.setNamed name v).2.batchSize ≠ 0 ∧
        ∃ setting w size, Scalar.Denotes w size ∧ c.Gives setting size (c.setNamed name v).2 := by
    cases hs : (c.setNamed name v).1 with
    | error e => exact Or.inl (setNamed_error hs)
    | ok _ =>
      obtain ⟨hd, setting, size, _, hv, hg⟩ := (setNamed_eq_ok_iff hc).mp (Prod.ext hs rfl)
      exact Or.inr ⟨hd, setting, v, size, hv, hg⟩
  cases r with
  | set name v => exact cases_setNamed name v
  | get name => exact Or.inl rfl
  | reset name =>
    -- a reset is a request like any other, for the value that default settings show
    rw [serve, resetNamed]
    split
    · exact Or.inl rfl
    · exact cases_setNamed name _

private theorem after_batchSize_ne_zero (hc : c.batchSize ≠ 0) (requests : List Request) :
    (c.after requests).batchSize ≠ 0 := by
  induction requests generalizing c with
  | nil => exact hc
  | cons r requests ih =>
    have hr : (c.serve r).2.batchSize ≠ 0 := by
      obtain h | ⟨h, _⟩ := serve_cases hc r
      · rwa [h]
      · exact h
    exact ih hr

/-- The size of a setting, if it has one, is among the signed numbers. -/
def Showable (c : Settings) (setting : Setting) : Prop :=
  ∀ size, c.size? setting = some size → size.toNat < 2 ^ 63

private theorem default_showable (setting : Setting) : ({} : Settings).Showable setting := by
  intro size h
  cases setting <;> cases h
  decide

/-- Requests give sizes that can be shown. Any other size was there before them. -/
private theorem after_showable (hc : c.batchSize ≠ 0) (requests : List Request) (setting : Setting) :
    (c.after requests).Showable setting ∨ (c.after requests).size? setting = c.size? setting := by
  -- the first request comes first: what the others leave alone, it left alone or gave
  induction requests generalizing c with
  | nil => exact Or.inr rfl
  | cons r requests ih =>
    have hn := after_batchSize_ne_zero hc [r]
    obtain h | h := ih hn
    · exact Or.inl h
    have hl : (c.after (r :: requests)).size? setting = (c.serve r).2.size? setting := h
    obtain hr | ⟨_, given, v, size, hv, hg⟩ := serve_cases hc r
    · exact Or.inr (by rw [hl, hr])
    · by_cases he : setting = given
      · left
        rintro n hs
        rw [hl, he, hg.given] at hs
        exact Scalar.Denotes.lt (hs ▸ hv)
      · exact Or.inr (by rw [hl, hg.kept setting he])

/-! Settings from a text. -/

private theorem batchSize_ne_zero_of_ofJson {text : String} (h : ofJson text = .ok c) : c.batchSize ≠ 0 := by
  obtain ⟨rest, hr⟩ := exists_of_readAll h
  -- no field puts a zero into the place of the batch size, so none is there whatever form the text has
  have hf : ∀ f ∈ fields, Keeps (fun p : Parts => p.batchSize ≠ some 0) f.2 := by
    intro f hf
    simp only [fields, List.mem_cons, List.not_mem_nil, or_false] at hf
    obtain rfl | rfl := hf
    · refine keeps_ofPlace fun acc n s rest _ hn => ?_
      simp only [readBatchSize] at hn
      split at hn
      · cases hn
      · split at hn <;> cases hn
        simpa
    · exact keeps_ofPlace fun acc limit s rest ha _ => ha
  obtain ⟨parts, hp, hb⟩ := exists_parts_of_readStructure hf (by simp) hr
  cases hb
  cases hs : parts.batchSize with
  | none => simp [Parts.build, hs]
  | some n =>
    rw [hs] at hp
    simpa [Parts.build, hs] using hp

/-- The settings there are to begin with: the default ones, and those of a text. -/
def Accepted (c : Settings) : Prop := c = {} ∨ ∃ text, ofJson text = .ok c

private theorem Accepted.batchSize_ne_zero (h : Accepted c) : c.batchSize ≠ 0 := by
  obtain rfl | ⟨text, ht⟩ := h
  · decide
  · exact batchSize_ne_zero_of_ofJson ht

/-- Whatever is asked of settings, no batch size is zero, and a request that fails changes nothing. A setting is
changed by its name only, to what the value stands for, and every setting can be given its default value. -/
theorem requests_keep_safe (h : Accepted c) (requests : List Request) :
    let now := c.after requests
    now.batchSize ≠ 0 ∧
    (∀ r e, (now.serve r).1 = .error e → (now.serve r).2 = now) ∧
    (∀ name v d, now.setNamed name v = (.ok (), d) ↔
      d.batchSize ≠ 0 ∧ ∃ setting size, setting.name = name ∧ v.Denotes size ∧ now.Gives setting size d) ∧
    ∀ setting : Setting, ∃ d,
      now.resetNamed setting.name = (.ok (), d) ∧ now.Gives setting (({} : Settings).size? setting) d := by
  have hn := after_batchSize_ne_zero h.batchSize_ne_zero requests
  exact ⟨hn, fun _ _ => serve_error, fun _ _ _ => setNamed_eq_ok_iff hn, resetNamed_name _⟩

/-- Members in any order, some of them unknown; one request is refused for its value, and one for its name. -/
theorem requests_keep_safe_from_text :
    let c : Settings := ⟨7, some 9⟩
    let requests : List Request :=
      [.set "batch_size" (.int8 0), .set "arena_limit" .null, .set "batch_size" (.int16 5), .reset "size"]
    ofJson "\x7b\"arena_limit\":9,\"rows\":[null],\"batch_size\":7\x7d" = .ok c ∧
    c.after requests = ⟨5, none⟩ ∧ (c.after requests).batchSize ≠ 0 ∧
    ((c.after requests).serve (.set "batch_size" (.int64 (-1)))).1 = .error (.notSize (-1)) ∧
    ((c.after requests).serve (.set "batch_size" (.int64 (-1)))).2 = c.after requests := by
  intro c requests
  have ht : ofJson "\x7b\"arena_limit\":9,\"rows\":[null],\"batch_size\":7\x7d" = .ok c := by decide +kernel
  obtain ⟨safe, refused, _⟩ := requests_keep_safe (Or.inr ⟨_, ht⟩) requests
  exact ⟨ht, by decide +kernel, safe, rfl, refused _ _ rfl⟩

/-! Reading a setting and writing it back. -/

private theorem get_of_size? {size : UInt64} (h : c.size? setting = some size) :
    c.get setting = .int64 size.toInt64 := by
  cases setting with
  | batchSize =>
    cases h
    rfl
  | arenaLimit =>
    have hl : c.arenaLimit = some size := h
    simp only [get, hl]

private theorem get_denotes (h : c.Showable setting) : (c.get setting).Denotes (c.size? setting) := by
  cases hs : c.size? setting with
  | some size =>
    have hl := h size hs
    have hc := Scalar.toInt_toInt64_cases size
    rw [get_of_size? hs]
    exact congrArg some (by omega)
  | none =>
    cases setting with
    | batchSize => cases hs
    | arenaLimit =>
      have hn : c.arenaLimit = none := hs
      simp only [get, hn, Scalar.Denotes]

/-- A size that is shown as a negative number is not taken back. -/
private theorem setNamed_get_of_le {size : UInt64} (h : c.size? setting = some size) (hs : 2 ^ 63 ≤ size.toNat) :
    c.setNamed setting.name (c.get setting) = (.error (.notSize size.toInt64), c) := by
  have hc := Scalar.toInt_toInt64_cases size
  have hb := size.toNat_lt
  have ht : (Scalar.int64 size.toInt64).toSize = .error (.notSize size.toInt64) := by
    rw [Scalar.toSize_int64, if_pos (by omega)]
  have hset : c.set setting (.int64 size.toInt64) = .error (.notSize size.toInt64) := by
    cases setting <;> simp only [set, ht, Scalar.isNull, Bool.false_eq_true, if_false]
  simp only [setNamed, Setting.ofName_name, get_of_size? h, hset]

/-- A setting that is read is shown as it is, and can be written back, exactly if its size is among the signed
numbers. A larger size, which only a text can give, is shown as a negative number and refused when it is written
back. -/
theorem setNamed_getNamed_iff (h : Accepted c) (requests : List Request) (setting : Setting) :
    let now := c.after requests
    (now.Showable setting ∨ now.size? setting = c.size? setting ∧ c ≠ {}) ∧
    ∃ v, now.getNamed setting.name = .ok v ∧
      (v.Denotes (now.size? setting) ↔ now.Showable setting) ∧
      (now.setNamed setting.name v = (.ok (), now) ↔ now.Showable setting) ∧
      ∀ size, now.size? setting = some size → 2 ^ 63 ≤ size.toNat →
        v.carried? = some ((size.toNat : Int) - 2 ^ 64) ∧
        now.setNamed setting.name v = (.error (.notSize size.toInt64), now) := by
  intro now
  have hn : now.batchSize ≠ 0 := after_batchSize_ne_zero h.batchSize_ne_zero requests
  have hd : (now.get setting).Denotes (now.size? setting) ↔ now.Showable setting :=
    ⟨fun hv size hs => Scalar.Denotes.lt (hs ▸ hv), get_denotes⟩
  have large {size : UInt64} (hs : now.size? setting = some size) (hl : 2 ^ 63 ≤ size.toNat) :=
    setNamed_get_of_le hs hl
  refine ⟨?_, now.get setting, getNamed_name now setting, hd, ⟨fun hw => ?_, fun hs => ?_⟩,
    fun size hs hl => ?_⟩
  · obtain hs | hs := after_showable h.batchSize_ne_zero requests setting
    · exact Or.inl hs
    · by_cases hc : c = {}
      · left
        intro size hsize
        rw [hs, hc] at hsize
        exact default_showable setting size hsize
      · exact Or.inr ⟨hs, hc⟩
  · -- what is written back without an error cannot be one of the large sizes
    intro size hs
    by_contra hl
    rw [large hs (by omega)] at hw
    cases hw
  · exact (setNamed_eq_ok_iff hn).mpr ⟨hn, setting, _, rfl, get_denotes hs, .refl now setting⟩
  · refine ⟨?_, large hs hl⟩
    have hc := Scalar.toInt_toInt64_cases size
    rw [get_of_size? hs]
    exact congrArg some (by omega)

/-- The greatest size that can be shown beside the least one that cannot. -/
theorem setNamed_getNamed_iff_at_bound :
    let c : Settings := ⟨9223372036854775807, some 9223372036854775808⟩
    ofJson "[9223372036854775807,9223372036854775808]" = .ok c ∧
    c.setNamed "batch_size" (.int64 Int64.maxValue) = (.ok (), c) ∧
    c.setNamed "arena_limit" (.int64 Int64.minValue) = (.error (.notSize Int64.minValue), c) := by
  intro c
  have ht : ofJson "[9223372036854775807,9223372036854775808]" = .ok c := by decide +kernel
  obtain ⟨_, v, hv, _, hw, _⟩ := setNamed_getNamed_iff (Or.inr ⟨_, ht⟩) [] .batchSize
  obtain ⟨_, w, hw', _, _, hl⟩ := setNamed_getNamed_iff (Or.inr ⟨_, ht⟩) [] .arenaLimit
  cases hv
  cases hw'
  refine ⟨ht, hw.mpr ?_, (hl 9223372036854775808 rfl (by decide)).2⟩
  rintro size hs
  cases hs
  decide

/-- A text gives a size whose shown value neither stands for it nor can be written back. -/
theorem getNamed_not_written_back :
    let c : Settings := ⟨9223372036854775808, none⟩
    ofJson "\x7b\"batch_size\":9223372036854775808\x7d" = .ok c ∧
    c.getNamed "batch_size" = .ok (.int64 Int64.minValue) ∧
    ¬ (Scalar.int64 Int64.minValue).Denotes (some c.batchSize) ∧
    c.setNamed "batch_size" (.int64 Int64.minValue) = (.error (.notSize Int64.minValue), c) := by
  intro c
  exact ⟨by decide +kernel, rfl, fun h => absurd h.lt (by decide), rfl⟩

end Settings

end GroupingSets
