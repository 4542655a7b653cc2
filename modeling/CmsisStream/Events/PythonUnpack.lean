import CmsisStream.Events.Python

/-!
# What the Python reader reads

The reader drops the last byte of a string and of a buffer, which it takes for a terminator.
-/

namespace CmsisStream.Events.Python

open Codec (Word Stream)
open Codec.Action

/-! ## Strings -/

@[simp]
theorem decode_encode (s : String) : decode (encode s) = .ok s := by
  have valid : (ByteArray.mk (encode s).toArray).IsValidUTF8 := by
    simpa [encode] using s.isValidUTF8
  simp only [decode, dif_pos valid]
  simp [encode]

theorem encode_of_decode {bytes : List UInt8} {s : String} (decoded : decode bytes = .ok s) :
    encode s = bytes := by
  simp only [decode] at decoded
  split at decoded
  · cases decoded
    simp [encode]
  · cases decoded

/-- The slice leaves the last byte out. -/
theorem sliceTo_last (data following : List UInt8) (nonempty : data ≠ []) :
    sliceTo (data ++ following) (data.length - 1) = data.dropLast := by
  have positive : 0 < data.length := List.length_pos_iff.mpr nonempty
  have stop : ((data.length : ℤ) - 1).toNat = data.length - 1 := by omega
  rw [sliceTo, if_neg (by omega), stop, List.take_append_of_le_length (by omega),
    List.dropLast_eq_take]

theorem sliceTo_nil (following : List UInt8) :
    sliceTo following (([] : List UInt8).length - 1) = following.dropLast := by
  rw [sliceTo, if_pos (by simp), List.dropLast_eq_take]
  rfl

/-- The slice keeps the bytes only if there are none, and at most one other byte. -/
theorem sliceTo_eq_iff (data following : List UInt8) :
    sliceTo (data ++ following) (data.length - 1) = data ↔ data = [] ∧ following.length ≤ 1 := by
  rcases data with _ | ⟨byte, data⟩
  · rw [List.nil_append, sliceTo_nil, ← List.length_eq_zero_iff, List.length_dropLast]
    simp only [true_and]
    omega
  · rw [sliceTo_last _ _ (by simp)]
    constructor
    · intro same
      have length := congrArg List.length same
      rw [List.length_dropLast, List.length_cons] at length
      omega
    · simp

namespace Unpack

/-! ## Tags -/

/-- The reader finds each kind of value by its tag. -/
theorem unpack_value_none (rest : List UInt8) (env : Option MemServer) :
    unpack_value ⟨ValueType.kNone.toByte :: rest, env⟩ = .ok (.none, ⟨rest, env⟩) :=
  ifTag_self _ _ _ rest env

theorem unpack_value_scalar (t : ElemType) (rest : List UInt8) (env : Option MemServer) :
    unpack_value ⟨t.tag.toByte :: rest, env⟩ = read_scalar t ⟨rest, env⟩ := by
  have ne : t.tag.toByte ≠ ValueType.kNone.toByte := by cases t <;> decide
  have mem : t ∈ scalarTypes := by cases t <;> decide
  rw [unpack_value, ifTag_of_ne ne, firstTag_of_mem mem]

theorem unpack_value_str (rest : List UInt8) (env : Option MemServer) :
    unpack_value ⟨ValueType.kStr.toByte :: rest, env⟩ = read_str ⟨rest, env⟩ := by
  rw [unpack_value, ifTag_of_ne (by decide), firstTag_of_not_mem (by decide), ifTag_self]

theorem unpack_value_any (rest : List UInt8) (env : Option MemServer) :
    unpack_value ⟨ValueType.kAny.toByte :: rest, env⟩ =
      _read_maybe_shared_bytestream ⟨rest, env⟩ := by
  rw [unpack_value, ifTag_of_ne (by decide), firstTag_of_not_mem (by decide),
    ifTag_of_ne (by decide), ifTag_self]

theorem unpack_value_tensor (rest : List UInt8) (env : Option MemServer) :
    unpack_value ⟨ValueType.kTensor.toByte :: rest, env⟩ = read_tensor ⟨rest, env⟩ := by
  rw [unpack_value, ifTag_of_ne (by decide), firstTag_of_not_mem (by decide),
    ifTag_of_ne (by decide), ifTag_of_ne (by decide), ifTag_self]

/-! ## Values -/

theorem toNat_count {count : ℕ} (lt : count < 2 ^ 32) : (Word.ofNat 4 count).toNat = count :=
  (BitVec.toNat_ofNat _ _).trans (Nat.mod_eq_of_lt lt)

theorem reads_none : Reads unpack_value Wire.none .none :=
  (reads_pure _).prepend unpack_value_none

/-- A scalar is read from what is written for it. -/
theorem reads_scalar (t : ElemType) (w : Word t.size) :
    Reads unpack_value (Wire.scalar t w) (scalar t w) := by
  have reads : Reads (read_scalar t) w.bytes (scalar t w) := (reads_word _ w).bind_pure
  exact reads.prepend (unpack_value_scalar t)

theorem slice_counted {data : List UInt8} (lt : data.length < 2 ^ 32) (following : List UInt8)
    (env : Option MemServer) :
    slice (Word.ofNat 4 data.length) ⟨data ++ following, env⟩ =
      .ok (sliceTo (data ++ following) (data.length - 1), ⟨following, env⟩) := by
  rw [slice, toNat_count lt, List.drop_left]

/-- A string is decoded from the bytes of the slice. -/
theorem unpack_value_string {data : List UInt8} (lt : data.length < 2 ^ 32)
    (following : List UInt8) (env : Option MemServer) :
    unpack_value ⟨Wire.string data.length data ++ following, env⟩ =
      (decode (sliceTo (data ++ following) (data.length - 1))).map fun s =>
        (.str s, ⟨following, env⟩) := by
  simp only [Wire.string, Wire.counted, List.cons_append, List.append_assoc]
  rw [unpack_value_str, read_str, read, bind_of_ok (reads_word _ _ _ env),
    bind_of_ok (slice_counted lt following env)]
  cases decode (sliceTo (data ++ following) (data.length - 1)) <;> rfl

/-- A buffer is the slice. -/
theorem unpack_value_buffer {data : List UInt8} (lt : data.length < 2 ^ 32)
    (following : List UInt8) (env : Option MemServer) :
    unpack_value ⟨Wire.buffer data.length data ++ following, env⟩ =
      .ok (.bytes (sliceTo (data ++ following) (data.length - 1)), ⟨following, env⟩) := by
  simp only [Wire.buffer, Wire.counted, List.cons_append, List.nil_append, List.append_assoc]
  rw [unpack_value_any, _read_maybe_shared_bytestream, read_byte, bind_of_ok (byte_cons _ _ _ env),
    read, bind_of_ok (reads_word _ _ _ env), if_pos rfl,
    bind_of_ok (slice_counted lt following env)]
  rfl

/-- As many words are read as there are. -/
theorem reads_words {n : ℕ} (words : List (Word n)) :
    Reads (repeatN (read n) words.length) (Wire.words words) words :=
  reads_repeatN (fun w => reads_word _ w) words

/-- The shape is given by the first dimensions. -/
theorem reads_ndarray {t : ElemType} {nb_dims : Word 1} {dims : List (Word 4)}
    {data : List (Word t.size)} {shape : List ℕ} (ltDims : dims.length < 2 ^ 32)
    (ltData : data.length < 2 ^ 32) (used : (dims.map (·.toNat)).take nb_dims.toNat = shape)
    (size_eq : data.length = shape.prod) :
    Reads unpack_value (Wire.tensor nb_dims dims t data.length data)
      (.ndarray ⟨t, shape, data, size_eq⟩) := by
  have elements : Reads (_read_maybe_shared_tensor shape t)
      ([BufferType.kCopyBuffer.toByte] ++ ((Word.ofNat 4 data.length).bytes ++ Wire.words data))
      (.ndarray ⟨t, shape, data, size_eq⟩) := by
    apply (reads_byte _ _).bind
    rw [if_pos rfl]
    apply (reads_word _ _).bind
    rw [toNat_count ltData]
    intro rest env
    rw [bind_of_ok (reads_words data rest env), reshape,
      dif_pos size_eq]
    rfl
  have typed : Reads
      (firstTag (.ok false) (_read_maybe_shared_tensor shape) tensorTypes (pure .none))
      (t.tag.toByte :: ([BufferType.kCopyBuffer.toByte] ++
        ((Word.ofNat 4 data.length).bytes ++ Wire.words data)))
      (.ndarray ⟨t, shape, data, size_eq⟩) := by
    apply elements.prepend
    intro rest env
    exact firstTag_of_mem (by cases t <;> decide) _ _ rest env
  have tensor : Reads read_tensor
      (nb_dims.bytes ++ ((Word.ofNat 4 dims.length).bytes ++ (Wire.words dims ++
        t.tag.toByte :: ([BufferType.kCopyBuffer.toByte] ++
          ((Word.ofNat 4 data.length).bytes ++ Wire.words data)))))
      (.ndarray ⟨t, shape, data, size_eq⟩) := by
    apply (reads_word _ nb_dims).bind
    apply (reads_word _ _).bind
    rw [toNat_count ltDims]
    apply (reads_words dims).bind
    rwa [used]
  have whole := tensor.prepend unpack_value_tensor
  simpa [Wire.tensor, Wire.counted] using whole

/-! ## Messages -/

/-- The reader goes on with the data after the header. -/
theorem unpack_header (nodeid event_id : Word 4) (priority : Word 1) (data : List UInt8)
    (env : Option MemServer) :
    unpack_event ⟨Wire.header nodeid event_id priority ++ data, env⟩ =
      unpack_data nodeid event_id priority ⟨data, env⟩ := by
  simp only [Wire.header, List.append_assoc, unpack_event, read]
  rw [bind_of_ok (reads_word _ nodeid _ env), bind_of_ok (reads_word _ event_id _ env),
    bind_of_ok (reads_word _ priority _ env)]

end Unpack

end CmsisStream.Events.Python
