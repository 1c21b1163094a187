import GroupingSets.Proofs.Batch.Locality
import GroupingSets.Proofs.Encoding.RoundTrip

/-! Numbers in places of an integer type. The check that a number fits, the bytes that are written for it, the bytes
of the value of that type and the number that is read back all agree, on every type and every number. -/
namespace GroupingSets

namespace Scalar

private theorem toInt64_of_integer? {v : Scalar} {n : Int64} (h : v.integer? = some n) : v.toInt64 = .ok n := by
  rw [toInt64, h]

/-- A value of an integer type is that of a number which fits the type. -/
private theorem exists_eq_ofInteger {t : DataType} {v : Scalar} (hv : v.datatype? = some t) (ht : t.isInteger = true) :
    ∃ n, v.integer? = some n ∧ Encoding.integerFits t n = true ∧ v = ofInteger t n := by
  cases v with
  | int8 n =>
    cases hv
    refine ⟨n.toInt64, rfl, Encoding.integerFits_iff.mpr ⟨rfl, ?_⟩, congrArg _ n.toInt8_toInt64.symm⟩
    rw [Int8.toInt_toInt64]
    exact ⟨n.le_toInt, n.toInt_lt⟩
  | int16 n =>
    cases hv
    refine ⟨n.toInt64, rfl, Encoding.integerFits_iff.mpr ⟨rfl, ?_⟩, congrArg _ n.toInt16_toInt64.symm⟩
    rw [Int16.toInt_toInt64]
    exact ⟨n.le_toInt, n.toInt_lt⟩
  | int32 n =>
    cases hv
    refine ⟨n.toInt64, rfl, Encoding.integerFits_iff.mpr ⟨rfl, ?_⟩, congrArg _ n.toInt32_toInt64.symm⟩
    rw [Int32.toInt_toInt64]
    exact ⟨n.le_toInt, n.toInt_lt⟩
  | int64 n =>
    cases hv
    exact ⟨n, rfl, rfl, rfl⟩
  | null => cases hv
  | boolean | float16 | float32 | float64 | utf8 | binary =>
    cases hv
    cases ht

end Scalar

namespace Encoding

/-- A number fits a type exactly if it can be written as one, which is exactly if the type is one of integers and has
the number in its range. Its bytes then are those of the value of that type with that number, and are read back as
that value; a number that does not fit leaves the bytes of the place it is written to. Every value of an integer type
has a number that can be written as one of that type, and is read back from it. -/
theorem integer_paths_agree (t : DataType) :
    (∀ n, (integerFits t n = true ↔ ∃ bytes, integerBytes t n = .ok bytes) ∧
      (integerFits t n = true ↔ t.isInteger = true ∧ -Int.pow 2 (8 * t.width - 1) ≤ n.toInt ∧
        n.toInt < Int.pow 2 (8 * t.width - 1))) ∧
    (∀ n bytes, integerBytes t n = .ok bytes → bytes.length = t.width ∧
      ∃ v, v.datatype? = some t ∧ v.toInt64 = .ok n ∧ fixedBytes t v = .ok bytes ∧
        ∀ rest heap, decode t (bytes ++ rest) heap = .ok v) ∧
    (∀ layout d i slot n, Draft.Open layout d → layout.slots[i]? = some slot → slot.datatype = t →
      (∀ bytes, integerBytes t n = .ok bytes →
        (d.writeInteger i n).1 = .ok () ∧ (d.writeInteger i n).2.row.place i slot = bytes) ∧
      ∀ err, integerBytes t n = .error err →
        (d.writeInteger i n).1 = .error (.error err) ∧
          (d.writeInteger i n).2.row.place i slot = d.row.place i slot) ∧
    ∀ v, v.datatype? = some t → t.isInteger = true →
      ∃ n bytes, v.toInt64 = .ok n ∧ integerBytes t n = .ok bytes ∧
        ∀ rest heap, decode t (bytes ++ rest) heap = .ok v := by
  refine ⟨fun n => ⟨exists_integerBytes_iff.symm, integerFits_iff⟩, fun n bytes hb => ?_,
    fun layout d i slot n hd hi ht => ?_, fun v hv ht => ?_⟩
  · have hfits : integerFits t n = true := exists_integerBytes_iff.mp ⟨bytes, hb⟩
    exact ⟨length_integerBytes hb, .ofInteger t n, Scalar.datatype?_ofInteger (integerFits_isInteger hfits) n,
      Scalar.toInt64_of_integer? (Scalar.integer?_ofInteger hfits), fixedBytes_ofInteger hb, decode_integerBytes hb⟩
  · subst ht
    obtain ⟨hvalid, _, rfl, _⟩ := hd.ready
    refine ⟨fun bytes hb => ?_, fun err hb => ?_⟩
    · obtain ⟨e, he, _, hplace, _⟩ := hvalid.writeInteger_of_bytes hi hb
      rw [he]
      exact ⟨rfl, hplace⟩
    · obtain ⟨e, he, hwrite⟩ := hvalid.writeInteger_of_error hi hb
      have hplace := hvalid.place_putNull i false hi
      rw [he] at hplace
      rw [hwrite]
      exact ⟨rfl, hplace⟩
  · obtain ⟨n, hn, hfits, rfl⟩ := Scalar.exists_eq_ofInteger hv ht
    obtain ⟨bytes, hb⟩ := exists_integerBytes_iff.mpr hfits
    exact ⟨n, bytes, Scalar.toInt64_of_integer? hn, hb, decode_integerBytes hb⟩

/-- The least number of one byte, and the first that is too great: it is refused by a slot that holds a five, which
stays. The least number of two bytes is read back as itself. -/
theorem integer_paths_agree_at_bounds :
    let layout : Layout := ⟨⟨0⟩, [⟨⟨1⟩, .int8, true⟩]⟩
    let d := (Draft.mk (Batch.new layout 1 none).beginRecord.2 0).writeAll [.integer 0 5]
    d.Open layout ∧ integerBytes .int8 (-128) = .ok [0x80] ∧
      (∃ v, v.toInt64 = .ok (-128) ∧ fixedBytes .int8 v = .ok [0x80] ∧ decode .int8 [0x80, 1] #[] = .ok v) ∧
      integerFits .int8 128 = false ∧ (d.writeInteger 0 128).1 = .error (.error (.integerRange .int8 128)) ∧
      (d.writeInteger 0 128).2.row.place 0 ⟨⟨1⟩, .int8, true⟩ = [5] ∧
      ∃ n bytes, (Scalar.int16 (-32768)).toInt64 = .ok n ∧ integerBytes .int16 n = .ok bytes ∧
        decode .int16 bytes #[] = .ok (.int16 (-32768)) := by
  intro layout d
  have hbegin : (Batch.new layout 1 none).beginRecord = (.ok 0, (Batch.new layout 1 none).beginRecord.2) :=
    Prod.ext (ok_of_toOption (by decide +kernel)) rfl
  have hopen : d.Open layout := ⟨_, 0, _, _, ⟨1, none, [], rfl⟩, hbegin, rfl⟩
  have hplace : d.row.place 0 ⟨⟨1⟩, .int8, true⟩ = [5] := by decide +kernel
  obtain ⟨_, hbytes, hwrite, _⟩ := integer_paths_agree .int8
  obtain ⟨_, _, _, hvalue⟩ := integer_paths_agree .int16
  obtain ⟨_, v, _, hn, hfixed, hread⟩ := hbytes (-128) [0x80] rfl
  obtain ⟨hrefused, hkept⟩ := (hwrite layout d 0 ⟨⟨1⟩, .int8, true⟩ 128 hopen rfl rfl).2 (.integerRange .int8 128) rfl
  obtain ⟨n, bytes, hnumber, hb, hback⟩ := hvalue (.int16 (-32768)) rfl rfl
  refine ⟨hopen, rfl, ⟨v, hn, hfixed, hread [1] #[]⟩, by decide, hrefused, hkept.trans hplace, n, bytes, hnumber,
    hb, ?_⟩
  have := hback [] #[]
  rwa [List.append_nil] at this

end Encoding

end GroupingSets
