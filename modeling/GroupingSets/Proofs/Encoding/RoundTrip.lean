import GroupingSets.Proofs.Arena.Run
import GroupingSets.Proofs.Encoding

/-! Values and the bytes of their places. In a place of fixed width each of the two gives back the other. A value of
varying length is read through the reference that the heap gave out for it, whatever is put behind its bytes; a
reference that no heap gave out is read as the bytes that it names, or refused. -/
namespace GroupingSets

namespace Word

/-- The number of some bytes, cut to as many bits as they have, has these bytes. -/
private theorem toBytes_ofBytes_mod {bytes : List UInt8} {width : Nat} (h : bytes.length = width) :
    toBytes width (ofBytes bytes % Nat.pow 2 (8 * width)) = bytes := by
  subst h
  have hlt : ofBytes bytes < Nat.pow 2 (8 * bytes.length) := by
    have hpow : Nat.pow 2 (8 * bytes.length) = Nat.pow 256 bytes.length := Nat.pow_mul 2 8 bytes.length
    rw [hpow]
    exact ofBytes_lt bytes
  rw [Nat.mod_eq_of_lt hlt, toBytes_ofBytes]

end Word

namespace HeapRef

/-- Any bytes of the right number are those of a reference. -/
private theorem exists_encode_eq {buf : List UInt8} (h : buf.length = width) :
    ∃ ref : HeapRef, ref.encode = buf ∧ decode? buf = some ref := by
  have hfirst : (buf.take 4).length = 4 := by rw [List.length_take, h]; rfl
  have hsecond : ((buf.drop 4).take 4).length = 4 := by rw [List.length_take, List.length_drop, h]; rfl
  have hrest : (buf.drop 4).take 4 = buf.drop 4 :=
    List.take_of_length_le (by rw [List.length_drop, h]; exact Nat.le_refl _)
  refine ⟨_, ?_, if_pos (Nat.le_of_eq h.symm)⟩
  rw [encode, UInt32.toNat_ofNat', UInt32.toNat_ofNat']
  have hoffset : Word.toBytes 4 (Word.ofBytes (buf.take 4) % 2 ^ 32) = buf.take 4 :=
    Word.toBytes_ofBytes_mod hfirst
  have hlength : Word.toBytes 4 (Word.ofBytes ((buf.drop 4).take 4) % 2 ^ 32) = (buf.drop 4).take 4 :=
    Word.toBytes_ofBytes_mod hsecond
  rw [hoffset, hlength, hrest, List.take_append_drop]

def named (r : HeapRef) (heap : Array UInt8) : List UInt8 :=
  (heap.toList.drop r.offset.toNat).take r.length.toNat

def Inside (r : HeapRef) (heap : Array UInt8) : Prop := r.offset.toNat + r.length.toNat ≤ heap.size

private theorem resolve?_of_inside {r : HeapRef} {heap : Array UInt8} (h : r.Inside heap) :
    r.resolve? heap = some (r.named heap) := by
  have hslice : r.resolve? heap = some (Region.slice heap r.offset.toNat r.length.toNat) := if_pos h
  rw [hslice, Region.slice_eq_take_drop, named]

end HeapRef

namespace Encoding

/-! Places of fixed width. -/

/-- Each type but the truth values has one value for each content of its place. Of truth there are more contents than
values, since any byte but zero is true. -/
private theorem fixedBytes_decode {t : DataType} (ht : t.isVarlen = false) (hb : t ≠ .boolean) {buf : List UInt8}
    (hl : buf.length = t.width) {heap : Array UInt8} {v : Scalar} (h : decode t buf heap = .ok v) :
    fixedBytes t v = .ok buf := by
  have hword : Word.toBytes t.width (Word.ofBytes buf % Nat.pow 2 (8 * t.width)) = buf :=
    Word.toBytes_ofBytes_mod hl
  rw [decode, if_neg (by omega), List.take_of_length_le (Nat.le_of_eq hl)] at h
  cases t with
  | int8 => cases h; rw [fixedBytes, UInt8.toUInt8_toInt8, UInt8.toNat_ofNat']; exact congrArg Except.ok hword
  | int16 => cases h; rw [fixedBytes, UInt16.toUInt16_toInt16, UInt16.toNat_ofNat']; exact congrArg Except.ok hword
  | int32 => cases h; rw [fixedBytes, UInt32.toUInt32_toInt32, UInt32.toNat_ofNat']; exact congrArg Except.ok hword
  | int64 => cases h; rw [fixedBytes, UInt64.toUInt64_toInt64, UInt64.toNat_ofNat']; exact congrArg Except.ok hword
  | float16 => cases h; rw [fixedBytes, UInt16.toNat_ofNat']; exact congrArg Except.ok hword
  | float32 => cases h; rw [fixedBytes, UInt32.toNat_ofNat']; exact congrArg Except.ok hword
  | float64 => cases h; rw [fixedBytes, UInt64.toNat_ofNat']; exact congrArg Except.ok hword
  | boolean => exact absurd rfl hb
  | utf8 | binary => cases ht

/-! Places of varying length. -/

/-- What is read through a reference: the value that the bytes it names are, unless they are no text where text is
wanted, or the heap ends before them. -/
inductive Refers (t : DataType) (ref : HeapRef) (heap : Array UInt8) : Except Failure Scalar → Prop where
  | value {v : Scalar} (inside : ref.Inside heap) (datatype : v.datatype? = some t)
    (payload : v.payload = ref.named heap) : Refers t ref heap (.ok v)
  | noText (flaw : Utf8.Flaw) (inside : ref.Inside heap) (datatype : t = .utf8)
    (noText : ∀ s, Utf8.encode s ≠ ref.named heap) : Refers t ref heap (.error (.error (.heapText flaw)))
  | outside (outside : ¬ ref.Inside heap) :
    Refers t ref heap
      (.error (.error (.heapRefOutOfBounds ref.offset.toNat ref.length.toNat heap.size)))

private theorem refers_decode {t : DataType} (ht : t.isVarlen = true) {buf : List UInt8} {ref : HeapRef}
    (hl : buf.length = HeapRef.width) (hd : HeapRef.decode? buf = some ref) (heap : Array UInt8) :
    Refers t ref heap (decode t buf heap) := by
  have hw : ¬ buf.length < t.width := by
    rw [hl]
    cases t <;> first | cases ht; done | exact Nat.lt_irrefl _
  rw [decode, if_neg hw]
  by_cases hin : ref.Inside heap
  · have hr : referred buf heap = .ok (ref.named heap) := by
      simp only [referred, hd, HeapRef.resolve?_of_inside hin]
    cases t with
    | utf8 =>
      dsimp only
      rw [hr]
      dsimp only
      split
      · next s hs => exact .value hin rfl (Utf8.encode_of_decode hs)
      · next flaw hs =>
        refine .noText flaw hin rfl fun s he => ?_
        rw [← he, Utf8.decode_encode] at hs
        cases hs
    | binary =>
      dsimp only
      rw [hr]
      exact .value hin rfl rfl
    | _ => cases ht
  · have hr : referred buf heap =
        .error (.error (.heapRefOutOfBounds ref.offset.toNat ref.length.toNat heap.size)) := by
      have hnone : ref.resolve? heap = none := if_neg hin
      simp only [referred, hd, hnone]
    cases t with
    | utf8 | binary =>
      dsimp only
      rw [hr]
      exact .outside hin
    | _ => cases ht

/-- What was put on a heap is read through the reference given out for it, as long as nothing is taken back. -/
private theorem decode_pushHeap {t : DataType} {v : Scalar} {bytes : List UInt8} (hb : varlenBytes t v = .ok bytes)
    {a b : Arena} {ref : HeapRef} (hp : a.pushHeap bytes = (.ok ref, b)) {ops : List Arena.Op}
    (ho : ∀ op ∈ ops, op.Extends) (rest : List UInt8) :
    decode t (ref.encode ++ rest) (b.after ops).heap = .ok v :=
  decode_longer (decode_encode_ref hb (Arena.resolve?_pushHeap hp) rest) (Arena.heap_grows_after ho)

/-- A value of fixed width has as many bytes as its type has room for, and is read back from them whatever stands
behind; and any content of its place, unless it is a truth value, is what the value read from it is written as. A
value of varying length is read back through the reference that its heap gave out, also after the heap has grown.
Any eight bytes are a reference: through it the bytes are read that it names, if they are there and are text where
text is wanted, and otherwise the read is refused. -/
theorem encoding_reads_back (t : DataType) :
    (t.isVarlen = false →
      (∀ v, v.datatype? = some t → ∃ bytes, fixedBytes t v = .ok bytes ∧ bytes.length = t.width ∧
        ∀ rest heap, decode t (bytes ++ rest) heap = .ok v) ∧
      (t ≠ .boolean → ∀ buf heap, buf.length = t.width →
        ∃ v, decode t buf heap = .ok v ∧ fixedBytes t v = .ok buf)) ∧
    (t.isVarlen = true →
      (∀ v, v.datatype? = some t → varlenBytes t v = .ok v.payload ∧
        ∀ (a b : Arena) (ref : HeapRef) (ops : List Arena.Op), a.pushHeap v.payload = (.ok ref, b) →
          (∀ op ∈ ops, op.Extends) → ∀ rest, decode t (ref.encode ++ rest) (b.after ops).heap = .ok v) ∧
      ∀ buf heap, buf.length = HeapRef.width →
        ∃ ref : HeapRef, ref.encode = buf ∧ Refers t ref heap (decode t buf heap)) := by
  refine ⟨fun ht => ⟨fun v hv => ?_, fun hb buf heap hl => ?_⟩, fun ht => ⟨fun v hv => ?_, fun buf heap hl => ?_⟩⟩
  · obtain ⟨bytes, hbytes⟩ := exists_fixedBytes_iff.mpr ⟨hv, ht⟩
    exact ⟨bytes, hbytes, length_fixedBytes hbytes, decode_fixedBytes hbytes⟩
  · obtain ⟨v, hv⟩ := exists_decode_fixed ht (Nat.le_of_eq hl.symm) heap
    exact ⟨v, hv, fixedBytes_decode ht hb hl hv⟩
  · obtain ⟨bytes, hbytes⟩ := exists_varlenBytes_iff.mpr ⟨hv, ht⟩
    obtain rfl := payload_of_varlenBytes hbytes
    exact ⟨hbytes, fun a b ref ops hp ho rest => decode_pushHeap hbytes hp ho rest⟩
  · obtain ⟨ref, he, hd⟩ := HeapRef.exists_encode_eq hl
    exact ⟨ref, he, refers_decode ht hl hd heap⟩

/-- A float that is no number keeps the bits behind its sign, and the least integer of two bytes is its own. A text
is found between others that were put on the heap; a reference into the middle of one of its characters is refused,
and so is one that leads beyond the heap. -/
theorem encoding_reads_back_on_edges :
    let a := (Arena.new 0 none).after [.pushHeap [0xC3]]
    let heap : Array UInt8 := #[0xC3, 0xC3, 0xA9, 0xA9]
    (∃ bytes, fixedBytes .float32 (.float32 0xFF812345) = .ok bytes ∧ bytes.length = 4 ∧
      decode .float32 (bytes ++ [7]) #[] = .ok (.float32 0xFF812345)) ∧
    (∃ v, decode .int16 [0x00, 0x80] #[] = .ok v ∧ fixedBytes .int16 v = .ok [0x00, 0x80]) ∧
    (a.after [.pushHeap (Utf8.encode "é"), .pushHeap [0xA9]]).heap = heap ∧
    decode .utf8 (HeapRef.encode ⟨1, 2⟩) heap = .ok (.utf8 "é") ∧
    (∃ ref : HeapRef, ref.encode = [2, 0, 0, 0, 1, 0, 0, 0] ∧
      Refers .utf8 ref heap (.error (.error (.heapText (.invalid 1 0))))) ∧
    ∃ ref : HeapRef, ref.encode = [1, 0, 0, 0, 255, 255, 255, 255] ∧
      Refers .binary ref heap (.error (.error (.heapRefOutOfBounds 1 4294967295 4))) := by
  intro a heap
  obtain ⟨hfloat, _⟩ := (encoding_reads_back .float32).1 rfl
  obtain ⟨_, hshort⟩ := (encoding_reads_back .int16).1 rfl
  obtain ⟨htext, hany⟩ := (encoding_reads_back .utf8).2 rfl
  obtain ⟨_, hbinary⟩ := (encoding_reads_back .binary).2 rfl
  obtain ⟨bytes, hbytes, hlength, hdecode⟩ := hfloat (.float32 0xFF812345) rfl
  have hheap : (a.after [.pushHeap (Utf8.encode "é"), .pushHeap [0xA9]]).heap = heap := by decide +kernel
  have hpush : a.pushHeap (Utf8.encode "é") = (.ok ⟨1, 2⟩, (a.pushHeap (Utf8.encode "é")).2) := Prod.ext (by rfl) rfl
  have hread := (htext (.utf8 "é") rfl).2 a _ ⟨1, 2⟩ [.pushHeap [0xA9]] hpush (by simp [Arena.Op.Extends]) []
  have hhalf : decode .utf8 [2, 0, 0, 0, 1, 0, 0, 0] heap = .error (.error (.heapText (.invalid 1 0))) := by
    have hnone : String.fromUTF8? ⟨#[0xA9]⟩ = none := by decide +kernel
    have hbytes : referred [2, 0, 0, 0, 1, 0, 0, 0] heap = .ok [0xA9] := rfl
    simp only [decode, hbytes, Utf8.decode, hnone]
    rfl
  have hbeyond : decode .binary [1, 0, 0, 0, 255, 255, 255, 255] heap =
      .error (.error (.heapRefOutOfBounds 1 4294967295 4)) := rfl
  refine ⟨⟨bytes, hbytes, hlength, hdecode [7] #[]⟩, hshort (by decide) [0x00, 0x80] #[] rfl, hheap, hheap ▸ hread,
    ?_, ?_⟩
  · rw [← hhalf]
    exact hany _ heap rfl
  · rw [← hbeyond]
    exact hbinary _ heap rfl

end Encoding

end GroupingSets
