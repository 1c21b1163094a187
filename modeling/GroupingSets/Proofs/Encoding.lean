import GroupingSets.Encoding
import GroupingSets.Proofs.Region

/-! Reading a value back from its place in a record. What was written is read again, on the same
heap and on every longer one. -/
namespace GroupingSets

namespace Scalar

def ofInteger (t : DataType) (n : Int64) : Scalar :=
  match t with
  | .int8 => .int8 n.toInt8
  | .int16 => .int16 n.toInt16
  | .int32 => .int32 n.toInt32
  | _ => .int64 n

def payload : Scalar → List UInt8
  | .utf8 s => Utf8.encode s
  | .binary bytes => bytes
  | _ => []

theorem datatype?_ofInteger {t : DataType} (h : t.isInteger = true) (n : Int64) :
    (ofInteger t n).datatype? = some t := by
  cases t <;> first | rfl | cases h

theorem payload_ofInteger (t : DataType) (n : Int64) : (ofInteger t n).payload = [] := by
  cases t <;> rfl

/-- A number in the range of a type stays the same number in that type. -/
theorem integer?_ofInteger {t : DataType} {n : Int64} (h : Encoding.integerFits t n = true) :
    (ofInteger t n).integer? = some n := by
  cases t with
  | int8 | int16 | int32 =>
    simp only [Encoding.integerFits, Int8.toInt_minValue, Int8.toInt_maxValue, Int16.toInt_minValue,
      Int16.toInt_maxValue, Int32.toInt_minValue, Int32.toInt_maxValue, Bool.and_eq_true,
      decide_eq_true_eq] at h
    simp only [ofInteger, integer?, Option.some.injEq]
    apply Int64.toInt_inj.mp
    simp only [Int8.toInt_toInt64, Int16.toInt_toInt64, Int32.toInt_toInt64, Int64.toInt_toInt8,
      Int64.toInt_toInt16, Int64.toInt_toInt32]
    exact Int.bmod_eq_of_le (by omega) (by omega)
  | int64 => rfl
  | boolean | float16 | float32 | float64 | utf8 | binary => cases h

end Scalar

namespace Encoding

/-- The numbers that fit are those of two's complement in as many bits as the type has. -/
theorem integerFits_iff {t : DataType} {n : Int64} :
    integerFits t n = true ↔ t.isInteger = true ∧ -Int.pow 2 (8 * t.width - 1) ≤ n.toInt ∧
      n.toInt < Int.pow 2 (8 * t.width - 1) := by
  cases t with
  | int8 | int16 | int32 =>
    simp [integerFits, DataType.isInteger, DataType.width, Int8.toInt_maxValue, Int16.toInt_maxValue,
      Int32.toInt_maxValue, Int.pow]
    omega
  | int64 => exact iff_of_true rfl ⟨rfl, n.le_toInt, n.toInt_lt⟩
  | boolean | float16 | float32 | float64 | utf8 | binary =>
    exact iff_of_false (fun h => by cases h) (fun h => by cases h.1)

/-- What a column of numbers asks of the type of its slot. -/
theorem isInteger_and_fit_iff {t : DataType} {column : List Int64} :
    (t.isInteger = true ∧ ∀ n ∈ column, integerFits t n = true) ↔
      t.isInteger = true ∧ ∀ n ∈ column, -Int.pow 2 (8 * t.width - 1) ≤ n.toInt ∧
        n.toInt < Int.pow 2 (8 * t.width - 1) := by
  refine and_congr_right fun ht => forall₂_congr fun n _ => ?_
  rw [integerFits_iff, and_iff_right ht]

private theorem ofBytes_take {width n : Nat} (h : n < Nat.pow 256 width) (rest : List UInt8) :
    Word.ofBytes ((Word.toBytes width n ++ rest).take width) = n := by
  rw [List.take_left' (Word.length_toBytes width n), Word.ofBytes_toBytes, Nat.mod_eq_of_lt h]

/-- A value of fixed width is read back, whatever follows its bytes and whatever the heap. -/
theorem decode_fixedBytes {t : DataType} {v : Scalar} {bytes : List UInt8}
    (h : fixedBytes t v = .ok bytes) (rest : List UInt8) (heap : Array UInt8) :
    decode t (bytes ++ rest) heap = .ok v := by
  have hl : ¬ (bytes ++ rest).length < t.width := by
    rw [List.length_append, length_fixedBytes h]
    omega
  unfold fixedBytes at h
  split at h <;> cases h
  all_goals rw [decode, if_neg hl]; simp only [DataType.width]
  · next b => cases b <;> rfl
  · next n => rw [ofBytes_take n.toUInt8.toNat_lt, UInt8.ofNat_toNat, Int8.toInt8_toUInt8]
  · next n => rw [ofBytes_take n.toUInt16.toNat_lt, UInt16.ofNat_toNat, Int16.toInt16_toUInt16]
  · next n => rw [ofBytes_take n.toUInt32.toNat_lt, UInt32.ofNat_toNat, Int32.toInt32_toUInt32]
  · next n => rw [ofBytes_take n.toUInt64.toNat_lt, UInt64.ofNat_toNat, Int64.toInt64_toUInt64]
  · next bits => rw [ofBytes_take bits.toNat_lt, UInt16.ofNat_toNat]
  · next bits => rw [ofBytes_take bits.toNat_lt, UInt32.ofNat_toNat]
  · next bits => rw [ofBytes_take bits.toNat_lt, UInt64.ofNat_toNat]

/-- A reference to the bytes of a value of varying length stands for that value. -/
theorem decode_encode_ref {t : DataType} {v : Scalar} {bytes : List UInt8} {ref : HeapRef}
    {heap : Array UInt8} (h : varlenBytes t v = .ok bytes) (hr : ref.resolve? heap = some bytes)
    (rest : List UInt8) : decode t (ref.encode ++ rest) heap = .ok v := by
  have hf : referred (ref.encode ++ rest) heap = .ok bytes := by
    simp only [referred, HeapRef.decode?_encode, hr]
  have hl (n : Nat) (hn : n ≤ HeapRef.width) : ¬ (ref.encode ++ rest).length < n := by
    rw [List.length_append, HeapRef.length_encode]
    omega
  unfold varlenBytes at h
  split at h <;> cases h
  · next s =>
    rw [decode, if_neg (hl DataType.utf8.width (Nat.le_refl _))]
    simp only [hf, Utf8.decode_encode]
  · rw [decode, if_neg (hl DataType.binary.width (Nat.le_refl _))]
    simp only [hf]

/-- A reference keeps its bytes while the heap grows behind them. -/
private theorem resolve?_longer {ref : HeapRef} {heap longer : Array UInt8} {bytes : List UInt8}
    (h : ref.resolve? heap = some bytes) (hp : heap.toList <+: longer.toList) :
    ref.resolve? longer = some bytes := by
  have hs : heap.size ≤ longer.size := by simpa using hp.length_le
  unfold HeapRef.resolve? at h ⊢
  split at h
  · next hf =>
    cases h
    rw [if_pos (by omega), Region.slice_longer hp hf]
  · cases h

private theorem referred_longer {buf bytes : List UInt8} {heap longer : Array UInt8}
    (h : referred buf heap = .ok bytes) (hp : heap.toList <+: longer.toList) :
    referred buf longer = .ok bytes := by
  unfold referred at h ⊢
  split at h
  · cases h
  · split at h <;> cases h
    next hr => simp only [resolve?_longer hr hp]

/-- What was read from a heap is read from every heap that continues it. -/
theorem decode_longer {t : DataType} {buf : List UInt8} {heap longer : Array UInt8} {v : Scalar}
    (h : decode t buf heap = .ok v) (hp : heap.toList <+: longer.toList) :
    decode t buf longer = .ok v := by
  unfold decode at h ⊢
  split at h
  · cases h
  · next hl =>
    rw [if_neg hl]
    cases t with
    | utf8 =>
      dsimp only at h ⊢
      split at h
      · cases h
      · next hr => rw [referred_longer hr hp]; exact h
    | binary =>
      dsimp only at h ⊢
      split at h
      · cases h
      · next hr => rw [referred_longer hr hp]; exact h
    | _ => exact h

/-- What is read is of the type it is read as. -/
theorem datatype?_decode {t : DataType} {buf : List UInt8} {heap : Array UInt8} {v : Scalar}
    (h : decode t buf heap = .ok v) : v.datatype? = some t := by
  unfold decode at h
  split at h
  · cases h
  · cases t with
    | utf8 =>
      dsimp only at h
      split at h
      · cases h
      · split at h <;> cases h
        rfl
    | binary =>
      dsimp only at h
      split at h <;> cases h
      rfl
    | _ => cases h; rfl

private theorem exists_ref_of_referred {buf bytes : List UInt8} {heap : Array UInt8}
    (h : referred buf heap = .ok bytes) :
    ∃ ref, HeapRef.decode? buf = some ref ∧ ref.resolve? heap = some bytes := by
  unfold referred at h
  split at h
  · cases h
  · next ref hd =>
    split at h <;> cases h
    exact ⟨ref, hd, ‹_›⟩

/-- The place of a value of varying length names exactly the bytes of the value that is read. -/
theorem exists_ref_of_decode {t : DataType} {buf : List UInt8} {heap : Array UInt8} {v : Scalar}
    (ht : t.isVarlen = true) (h : decode t buf heap = .ok v) :
    ∃ ref, HeapRef.decode? buf = some ref ∧ ref.resolve? heap = some v.payload := by
  unfold decode at h
  split at h
  · cases h
  · cases t with
    | utf8 =>
      dsimp only at h
      split at h
      · cases h
      · next hr =>
        split at h
        · next s hs =>
          cases h
          rw [Scalar.payload, Utf8.encode_of_decode hs]
          exact exists_ref_of_referred hr
        · cases h
    | binary =>
      dsimp only at h
      split at h <;> cases h
      exact exists_ref_of_referred ‹_›
    | _ => cases ht

/-- Bytes of the right number are a value of any type of fixed width. -/
theorem exists_decode_fixed {t : DataType} {buf : List UInt8} (ht : t.isVarlen = false)
    (h : t.width ≤ buf.length) (heap : Array UInt8) : ∃ v, decode t buf heap = .ok v := by
  rw [decode, if_neg (Nat.not_lt.2 h)]
  cases t <;> first | exact ⟨_, rfl⟩ | cases ht

/-- A place of zeros holds a value of every type: in one of varying length no bytes at all. -/
theorem exists_decode_zeros (t : DataType) (heap : Array UInt8) :
    ∃ v, decode t (List.replicate t.width 0) heap = .ok v := by
  have hr : referred (List.replicate 8 0) heap = .ok [] := by
    have hd : HeapRef.decode? (List.replicate 8 0) = some ⟨0, 0⟩ := by decide
    rw [referred, hd]
    simp [HeapRef.resolve?, Region.slice]
  have hl (n : Nat) : ¬ (List.replicate n (0 : UInt8)).length < n := by simp
  by_cases ht : t.isVarlen = true
  · cases t <;> cases ht
    · refine ⟨.utf8 "", ?_⟩
      rw [decode, if_neg (hl _)]
      simp only [DataType.width, hr]
      rfl
    · refine ⟨.binary [], ?_⟩
      rw [decode, if_neg (hl _)]
      simp only [DataType.width, hr]
  · exact exists_decode_fixed (by simpa using ht) (by simp) heap

/-- A value has bytes of fixed width exactly if it is of the type of its place, and that type is not
one of varying length. -/
theorem exists_fixedBytes_iff {t : DataType} {v : Scalar} :
    (∃ bytes, fixedBytes t v = .ok bytes) ↔ v.datatype? = some t ∧ t.isVarlen = false := by
  cases t <;> cases v <;> simp [fixedBytes, Scalar.datatype?, DataType.isVarlen]

private theorem narrow?_eq_some_iff {α : Type} {least greatest : Int} {take : Int64 → α} {n : Int64} {v : α} :
    narrow? least greatest take n = some v ↔ (least ≤ n.toInt ∧ n.toInt ≤ greatest) ∧ take n = v := by
  simp [narrow?]

private theorem narrow?_eq_none_iff {α : Type} {least greatest : Int} {take : Int64 → α} {n : Int64} :
    narrow? least greatest take n = none ↔ ¬ (least ≤ n.toInt ∧ n.toInt ≤ greatest) := by
  simp [narrow?]

/-- What is written for a number. The range check of each type is the one that `integerFits` makes, and the bytes are
those of the number as a value of the type. -/
theorem integerBytes_eq (t : DataType) (n : Int64) :
    integerBytes t n =
      if t.isInteger then
        if integerFits t n then fixedBytes t (.ofInteger t n) else .error (.integerRange t n)
      else .error (.integerMismatch t) := by
  cases t with
  | int8 | int16 | int32 =>
    simp only [integerBytes, integerFits, DataType.isInteger, Bool.and_eq_true, decide_eq_true_eq, if_true]
    split
    · next hv =>
      obtain ⟨hr, rfl⟩ := narrow?_eq_some_iff.mp hv
      rw [if_pos hr]
      rfl
    · next hv => rw [if_neg (narrow?_eq_none_iff.mp hv)]
  | int64 => rfl
  | boolean | float16 | float32 | float64 | utf8 | binary => rfl

/-- A number has bytes in a place of some type exactly if it fits. -/
theorem exists_integerBytes_iff {t : DataType} {n : Int64} :
    (∃ bytes, integerBytes t n = .ok bytes) ↔ integerFits t n = true := by
  rw [integerBytes_eq]
  split
  · next ht =>
    have hv : t.isVarlen = false := by cases t <;> first | rfl | cases ht
    split
    · next hf => exact iff_of_true (exists_fixedBytes_iff.mpr ⟨Scalar.datatype?_ofInteger ht n, hv⟩) hf
    · next hf => exact iff_of_false (fun ⟨_, h⟩ => by cases h) hf
  · next ht => exact iff_of_false (fun ⟨_, h⟩ => by cases h) fun hf => ht (integerFits_isInteger hf)

/-- The bytes of a number are those of the value that it is in the type of the place. -/
theorem fixedBytes_ofInteger {t : DataType} {n : Int64} {bytes : List UInt8} (h : integerBytes t n = .ok bytes) :
    fixedBytes t (.ofInteger t n) = .ok bytes := by
  have hf : integerFits t n = true := exists_integerBytes_iff.mp ⟨bytes, h⟩
  rwa [integerBytes_eq, if_pos (integerFits_isInteger hf), if_pos hf] at h

theorem length_integerBytes {t : DataType} {n : Int64} {bytes : List UInt8} (h : integerBytes t n = .ok bytes) :
    bytes.length = t.width :=
  length_fixedBytes (fixedBytes_ofInteger h)

/-- A number is read back as a value of the type it was written for. -/
theorem decode_integerBytes {t : DataType} {n : Int64} {bytes : List UInt8}
    (h : integerBytes t n = .ok bytes) (rest : List UInt8) (heap : Array UInt8) :
    decode t (bytes ++ rest) heap = .ok (.ofInteger t n) :=
  decode_fixedBytes (fixedBytes_ofInteger h) rest heap

/-- A value has bytes for the heap exactly if it is of the type of its place, and that type is one of
varying length. -/
theorem exists_varlenBytes_iff {t : DataType} {v : Scalar} :
    (∃ bytes, varlenBytes t v = .ok bytes) ↔ v.datatype? = some t ∧ t.isVarlen = true := by
  cases t <;> cases v <;> simp [varlenBytes, Scalar.datatype?, DataType.isVarlen]

theorem payload_of_fixedBytes {t : DataType} {v : Scalar} {bytes : List UInt8}
    (h : fixedBytes t v = .ok bytes) : v.payload = [] := by
  unfold fixedBytes at h
  split at h <;> cases h <;> rfl

theorem payload_of_varlenBytes {t : DataType} {v : Scalar} {bytes : List UInt8}
    (h : varlenBytes t v = .ok bytes) : v.payload = bytes := by
  unfold varlenBytes at h
  split at h <;> cases h <;> rfl

end Encoding

end GroupingSets
