import CmsisStream.Events.PythonRoundTrip
import CmsisStream.Events.RoundTrip

/-!
# Events between C++ and Python

The two readers share the format but not all its details.  C++ drops the terminator of a
string and reads as many dimensions as it is configured for, whatever the number of the
message, and it has no case for the 64-bit integers that Python writes.  Python takes the
last byte of a buffer for a terminator, which C++ does not write.
-/

namespace CmsisStream.Events

open Codec (Word Stream)
open Codec.Action
open Python (PyData PyEvent PyValue)

variable {cfg : Config}

/-! ## The same event in the two languages -/

namespace Value

/-- The array with the shape and the elements of a tensor which owns its data. -/
def ndarray {t : ElemType} : Option (Tensor cfg t) → Option PyValue
  | some ⟨nb_dims, dims, .unique data⟩ =>
      if size_eq : data.length = (Tensor.shape ⟨nb_dims, dims, .unique data⟩).prod then
        some (.ndarray ⟨t, _, data, size_eq⟩)
      else none
  | _ => none

/-- The Python value which is the same as a C++ value, if there is one. -/
def python : Value cfg → Option PyValue
  | .monostate => some .none
  | .scalar t v => some (Python.Unpack.scalar t v)
  | .buffer (some ⟨_, .unique data⟩) => some (.bytes data)
  | .buffer _ => none
  | .string s => (Python.decode s).toOption.map .str
  | .tensor _ handle | .constTensor _ handle => ndarray handle

/-- The length of the value fits in the 32 bits of the format. -/
def Short : Value cfg → Prop
  | .string s => s.length + 1 < 2 ^ 32
  | .tensor _ handle | .constTensor _ handle => ShortTensor handle
  | _ => True

end Value

def SameValues : PyData → EventData cfg → Prop
  | .value v, .value w => w.python = some v
  | .list vs, .list ws => List.Forall₂ (fun v w => w.python = some v) vs ws
  | _, _ => False

/-- The same data, a list of less than two Python values being also a single value. -/
def SameData (data : PyData) (data' : EventData cfg) : Prop :=
  SameValues data data' ∨ SameValues (Python.Pack.unwrap data) data'

structure SameEvent (event : PyEvent) (evt : Event cfg) : Prop where
  event_id : event.event_id = evt.event_id.toNat
  priority : event.priority = evt.priority.number.toNat
  data : SameData event.data evt.data

/-- C++ unpacks what Python packs. -/
def CppReads (cfg : Config) (nodeid : Word 4) (event : PyEvent) : Prop :=
  ∀ network memserver env, ∃ stream evt left,
    Python.Pack.pack nodeid.toNat event network ⟨[], memserver⟩ = .ok ((), stream) ∧
      Unpack.unpack cfg ⟨stream.bytes, env⟩ = .ok ((nodeid, evt), left) ∧ SameEvent event evt

/-- Python unpacks what C++ packs for the network. -/
def PythonReads (nodeid : Word 4) (evt : Event cfg) : Prop :=
  ∀ mem_server memserver, ∃ event left,
    Python.Unpack.unpack_event ⟨Pack.serialized nodeid evt true mem_server, memserver⟩ =
      .ok ((nodeid.toNat, event), left) ∧ SameEvent event evt

/-- C++ reads a value as Python writes it. -/
def CppReadable (cfg : Config) : PyValue → Prop
  | .int value => -2 ^ 31 ≤ value ∧ value < 2 ^ 31
  | .float value => Representable value
  | .ndarray value => max 4 value.shape.length = cfg.tensorNbDims
  | .none | .bytes _ => True
  | .str _ | .sharedBuffer _ | .mappedArray _ _ _ => False

/-- The bytes of a buffer. -/
def Value.bytes? : Value cfg → Option (List UInt8)
  | .buffer (some ⟨_, .unique data⟩) => some data
  | _ => none

/-! ## From Python to C++ -/

/-- What is known of a value which exists in the two languages. -/
def Limits (cfg : Config) : PyValue → Prop
  | .bytes value => value.length < 2 ^ 32
  | .ndarray value =>
      value.shape.length ≤ cfg.tensorNbDims ∧ value.shape.length < 256 ∧
        (∀ dim ∈ value.shape, dim < 2 ^ 32) ∧ value.data.length < 2 ^ 32
  | .sharedBuffer _ | .mappedArray _ _ _ => False
  | _ => True

theorem limits_scalar (t : ElemType) (w : Word t.size) :
    Limits cfg (Python.Unpack.scalar t w) := by
  cases t <;> trivial

theorem ndarray_eq_some {t : ElemType} {handle : Option (Tensor cfg t)} {v : PyValue}
    (same : Value.ndarray handle = some v) :
    ∃ nb_dims dims data size_eq, handle = some ⟨nb_dims, dims, .unique data⟩ ∧
      v = .ndarray ⟨t, Tensor.shape ⟨nb_dims, dims, .unique data⟩, data, size_eq⟩ := by
  rcases handle with _ | ⟨nb_dims, dims, data | fd⟩
  · cases same
  · simp only [Value.ndarray] at same
    split at same
    · rename_i size_eq
      cases same
      exact ⟨nb_dims, dims, data, size_eq, rfl, rfl⟩
    · cases same
  · cases same

theorem limits_ndarray {t : ElemType} {handle : Option (Tensor cfg t)} {v : PyValue}
    (short : Value.ShortTensor handle) (same : Value.ndarray handle = some v) :
    Limits cfg v := by
  rcases ndarray_eq_some same with ⟨nb_dims, dims, data, size_eq, rfl, rfl⟩
  refine ⟨?_, ?_, ?_, short⟩
  · simp [Tensor.shape]
  · have lt := nb_dims.isLt
    simp only [Tensor.shape, List.length_map, List.length_take]
    omega
  · intro dim mem
    rcases List.mem_map.mp mem with ⟨word, -, rfl⟩
    exact word.isLt

theorem limits_of_same {w : Value cfg} {v : PyValue} (owned : w.Owned) (short : w.Short)
    (same : w.python = some v) : Limits cfg v := by
  cases w with
  | monostate =>
      cases same
      trivial
  | scalar t x =>
      cases same
      exact limits_scalar t x
  | buffer handle =>
      rcases owned with ⟨size, data, rfl, length⟩
      cases same
      exact length.trans_lt size.isLt
  | string s =>
      rcases Option.map_eq_some_iff.mp same with ⟨text, -, rfl⟩
      trivial
  | tensor t handle => exact limits_ndarray short same
  | constTensor t handle => exact limits_ndarray short same

theorem Limits.plain {v : PyValue} (limits : Limits cfg v) : v.Plain := by
  cases v <;> trivial

theorem CppReadable.packable {v : PyValue} (readable : CppReadable cfg v)
    (limits : Limits cfg v) : v.Packable := by
  cases v with
  | int value =>
      rcases readable with ⟨low, high⟩
      exact ⟨by omega, by omega⟩
  | float value =>
      rcases readable with ⟨single, narrowed, -⟩
      exact Option.isSome_of_eq_some narrowed
  | bytes value => exact limits
  | ndarray value => exact limits.2
  | none => trivial
  | str value => exact readable.elim
  | sharedBuffer value => exact limits.elim
  | mappedArray shared dtype shape => exact limits.elim

/-- The dimensions of an array as they are sent. -/
theorem length_paddedShape (shape : List ℕ) :
    ((Python.Pack.paddedShape shape).map (Word.ofNat 4)).length = max 4 shape.length := by
  simp only [Python.Pack.paddedShape, List.length_map, List.length_append, List.length_replicate]
  omega

theorem python_ndarray {t : ElemType} {nb_dims : Word 1}
    {dims : List.Vector (Word 4) cfg.tensorNbDims} {data : List (Word t.size)} {shape : List ℕ}
    (size_eq : data.length = shape.prod)
    (used : (dims.toList.map (·.toNat)).take nb_dims.toNat = shape) :
    Value.ndarray (some ⟨nb_dims, dims, .unique data⟩) =
      some (.ndarray ⟨t, shape, data, size_eq⟩) := by
  have same : Tensor.shape ⟨nb_dims, dims, .unique data⟩ = shape := by
    rw [Tensor.shape, List.map_take, used]
  subst same
  exact dif_pos size_eq

namespace Unpack

/-- A readable value is read as the same value. -/
theorem reads_readable {v : PyValue} (limits : Limits cfg v) (readable : CppReadable cfg v) :
    ∃ w, Reads (unpack_value cfg) v.wire w ∧ w.python = some v := by
  cases v with
  | none => exact ⟨.monostate, reads_none, rfl⟩
  | int value =>
      refine ⟨.scalar (Python.Pack.intType value) (Word.ofInt _ value), reads_scalar ?_ _, ?_⟩
      · rcases readable with ⟨low, high⟩
        simp only [Python.Pack.intType]
        split_ifs <;> first | decide | omega
      · rw [Value.python, Python.Unpack.scalar_int (readable.packable limits)]
  | float value =>
      rcases readable with ⟨single, narrowed, widened⟩
      have reads : Reads (unpack_value cfg) (Wire.scalar .float single) (.scalar .float single) :=
        @reads_scalar cfg .float (by decide) single
      refine ⟨.scalar .float single, ?_, ?_⟩
      · rwa [PyValue.wire, narrowed]
      · change some (PyValue.float (widen single)) = _
        rw [widened]
  | bytes value => exact ⟨_, reads_buffer limits, rfl⟩
  | ndarray value =>
      rcases value with ⟨dtype, shape, data, size_eq⟩
      rcases limits with ⟨-, short, dims, ltData⟩
      obtain ⟨sent, eq⟩ : ∃ sent : List.Vector (Word 4) cfg.tensorNbDims,
          sent.toList = (Python.Pack.paddedShape shape).map (Word.ofNat 4) :=
        ⟨⟨_, (length_paddedShape shape).trans readable⟩, rfl⟩
      have used := Python.Unpack.used_paddedShape short dims
      rw [← eq] at used
      have reads := reads_tensor (Word.ofNat 1 shape.length) sent ltData
      rw [eq] at reads
      exact ⟨_, reads, python_ndarray size_eq used⟩
  | str value => exact readable.elim
  | sharedBuffer value => exact limits.elim
  | mappedArray shared dtype shape => exact limits.elim

/-- When C++ expects fewer dimensions than those which are sent, it takes a zero of the
padding for the type of the elements. -/
theorem unpack_value_of_padding (front : List.Vector (Word 4) cfg.tensorNbDims)
    (back : List (Word 4)) (nb_dims : Word 1) (t : ElemType) (count : ℕ)
    (data : List (Word t.size)) (following : List UInt8) (env : UnpackEnv) :
    ∃ stream, unpack_value cfg
        ⟨Wire.tensor nb_dims (front.toList ++ 0 :: back) t count data ++ following, env⟩ =
      .ok (.monostate, stream) := by
  have zero : (0 : Word 4).bytes = 0 :: [0, 0, 0] := by decide
  simp only [Wire.tensor, Wire.counted, Wire.words, List.flatMap_append, List.flatMap_cons,
    List.append_assoc, List.cons_append, List.nil_append, zero]
  rw [unpack_value_tensor, unpack_any_tensor, bind_of_ok (reads_value nb_dims _ env)]
  have array := fun rest =>
    reads_dims (Word.ofNat 4 (front.toList ++ 0 :: back).length) front rest env
  simp only [Wire.words, List.append_assoc] at array
  rw [bind_of_ok (array _), unpack_elements, firstTag_of_not_mem (by decide)]
  exact ⟨_, rfl⟩

theorem python_of_get_shared {global_id : Word 4} {stream stream' : Stream UnpackEnv}
    {w : Value cfg} (run : get_shared cfg global_id stream = .ok (w, stream')) :
    w.python = some .none ∨ w.python = none := by
  rcases get_shared_spec cfg global_id stream.bytes stream.env with
    ⟨w', env', read, -, ⟨-, rfl, -⟩ | ⟨fd, -, rfl, -⟩⟩
  all_goals
    rw [read] at run
    cases run
  · exact .inl rfl
  · exact .inr rfl

/-- The bytes read for the elements of a tensor. -/
theorem length_of_unpack_tensor {t : ElemType} {nb_dims : Word 1}
    {dims : List.Vector (Word 4) cfg.tensorNbDims} {bytes : List UInt8} {env : UnpackEnv}
    {w : Value cfg} {stream : Stream UnpackEnv} {value : Python.NdArray}
    (run : unpack_tensor cfg t nb_dims dims ⟨bytes, env⟩ = .ok (w, stream))
    (same : w.python = some (.ndarray value)) :
    5 + value.data.length * value.dtype.size ≤ bytes.length := by
  rcases bind_eq_ok.mp run with ⟨buffer_type, _, readType, run⟩
  rcases consumes_byte _ _ _ _ readType with ⟨rest, rfl, rfl⟩
  split at run
  · rcases bind_eq_ok.mp run with ⟨nb, _, readCount, run⟩
    rcases consumes_value 4 _ _ _ _ readCount with ⟨rest, rfl, rfl⟩
    rcases bind_eq_ok.mp run with ⟨data, _, readData, last⟩
    rcases consumes_repeatN (consumes_value t.size) _ _ _ _ _ readData with ⟨rest, rfl, rfl⟩
    cases last
    have same : Value.ndarray (some ⟨nb_dims, dims, .unique data⟩) = some (.ndarray value) := same
    rcases ndarray_eq_some same with ⟨_, _, _, size_eq, eq, array⟩
    cases eq
    cases array
    simp only [List.length_append, List.length_singleton, Word.length_bytes,
      Word.length_flatMap_bytes]
    omega
  split at run
  · rcases bind_eq_ok.mp run with ⟨nb_elems, _, -, run⟩
    rcases bind_eq_ok.mp run with ⟨global_id, _, -, run⟩
    rcases bind_eq_ok.mp run with ⟨_, _, -, run⟩
    split at run
    · cases run
      cases same
    · rcases python_of_get_shared run with none | none
      all_goals
        rw [none] at same
        cases same
  · cases run
    cases same

/-- The bytes read for a tensor. -/
theorem length_of_unpack_any_tensor {bytes : List UInt8} {env : UnpackEnv} {w : Value cfg}
    {stream : Stream UnpackEnv} {value : Python.NdArray}
    (run : unpack_any_tensor cfg ⟨bytes, env⟩ = .ok (w, stream))
    (same : w.python = some (.ndarray value)) :
    11 + 4 * cfg.tensorNbDims + value.data.length * value.dtype.size ≤ bytes.length := by
  rcases bind_eq_ok.mp run with ⟨nb_dims, _, readDims, run⟩
  rcases consumes_value 1 _ _ _ _ readDims with ⟨rest, rfl, rfl⟩
  rcases bind_eq_ok.mp run with ⟨dims, _, readArray, run⟩
  rcases bind_eq_ok.mp readArray with ⟨n_unused, _, readCount, readArray⟩
  rcases consumes_value 4 _ _ _ _ readCount with ⟨rest, rfl, rfl⟩
  rcases consumes_array (consumes_value 4) _ _ _ _ _ readArray with ⟨rest, rfl, rfl⟩
  rcases firstTag_eq_ok run with ⟨byte, rest, rfl, ⟨t, mem, rfl, run⟩ | ⟨-, last⟩⟩
  · have elements := length_of_unpack_tensor run same
    simp only [List.length_append, List.length_cons, Word.length_bytes,
      Word.length_flatMap_bytes, List.Vector.toList_length]
    omega
  · cases last
    cases same

/-- With nothing after it, an array is not read with more dimensions than were sent. -/
theorem dims_of_unpack_last {value : Python.NdArray} {env : UnpackEnv} {w : Value cfg}
    {stream : Stream UnpackEnv}
    (run : unpack_value cfg ⟨(PyValue.ndarray value).wire, env⟩ = .ok (w, stream))
    (same : w.python = some (.ndarray value)) :
    cfg.tensorNbDims ≤ max 4 value.shape.length := by
  rw [PyValue.wire, Wire.tensor] at run
  simp only [List.append_assoc, List.cons_append, List.nil_append] at run
  rw [unpack_value_tensor] at run
  have read := length_of_unpack_any_tensor run same
  rw [← length_paddedShape]
  simp only [Wire.counted, Wire.words, List.length_append, List.length_cons, Word.length_bytes,
    Word.length_flatMap_bytes] at read
  omega

/-- Python sends a wide integer with a tag that C++ does not know. -/
theorem int_of_unpack_value {value : ℤ} {following : List UInt8} {env : UnpackEnv} {w : Value cfg}
    {stream : Stream UnpackEnv}
    (run : unpack_value cfg ⟨(PyValue.int value).wire ++ following, env⟩ = .ok (w, stream))
    (same : w.python = some (.int value)) : -2 ^ 31 ≤ value ∧ value < 2 ^ 31 := by
  by_contra outside
  have wide : Python.Pack.intType value = .int64 := by
    simp only [Python.Pack.intType]
    rw [if_neg (by omega), if_neg (by omega), if_neg (by omega)]
  have unknown : Unknown ElemType.int64.tag.toByte :=
    ⟨by decide, by decide, by decide, by decide, by decide⟩
  rw [PyValue.wire, wide, Wire.scalar, List.cons_append, unpack_value_unknown unknown] at run
  cases run
  cases same

/-- The last byte of a string is lost, and an empty string is not read at all. -/
theorem str_of_unpack_value {value : String} {following : List UInt8} {env : UnpackEnv}
    {w : Value cfg} {stream : Stream UnpackEnv} (packable : (PyValue.str value).Packable)
    (run : unpack_value cfg ⟨(PyValue.str value).wire ++ following, env⟩ = .ok (w, stream)) :
    w.python ≠ some (.str value) := by
  intro same
  rw [PyValue.wire] at run
  by_cases empty : Python.encode value = []
  · rw [empty, Wire.string, List.cons_append, unpack_value_str, Wire.counted, List.append_nil,
      unpack_str, bind_of_ok (reads_value _ following env)] at run
    rcases bind_eq_ok.mp run with ⟨buf, _, -, run⟩
    cases run
  · rw [reads_string empty packable following env] at run
    cases run
    rcases Option.map_eq_some_iff.mp same with ⟨text, decoded, eq⟩
    cases eq
    cases decoding : Python.decode (Python.encode value).dropLast with
    | error e =>
        rw [decoding] at decoded
        cases decoded
    | ok s =>
        rw [decoding] at decoded
        cases decoded
        have length := congrArg List.length (Python.encode_of_decode decoding)
        have positive := List.length_pos_iff.mpr empty
        rw [List.length_dropLast] at length
        omega

/-- The dimensions which are sent must be those which are expected. -/
theorem ndarray_of_unpack_value {value : Python.NdArray} {following : List UInt8}
    {env : UnpackEnv} {w : Value cfg} {stream : Stream UnpackEnv}
    (rank : value.shape.length ≤ cfg.tensorNbDims)
    (decided : cfg.tensorNbDims ≤ 4 ∨ following = [])
    (run : unpack_value cfg ⟨(PyValue.ndarray value).wire ++ following, env⟩ = .ok (w, stream))
    (same : w.python = some (.ndarray value)) :
    max 4 value.shape.length = cfg.tensorNbDims := by
  by_contra different
  rcases lt_or_gt_of_ne different with fewer | more
  · rcases decided with le | rfl
    · omega
    · rw [List.append_nil] at run
      have le := dims_of_unpack_last run same
      omega
  · have padded : (Python.Pack.paddedShape value.shape).map (Word.ofNat 4) =
        (value.shape ++ List.replicate (cfg.tensorNbDims - value.shape.length) 0).map
            (Word.ofNat 4) ++
          0 :: List.replicate (3 - cfg.tensorNbDims) 0 := by
      have zeros : 4 - value.shape.length =
          (cfg.tensorNbDims - value.shape.length) + (1 + (3 - cfg.tensorNbDims)) := by omega
      rw [Python.Pack.paddedShape, zeros, List.replicate_add, List.replicate_add]
      simp [Word.ofNat]
    obtain ⟨front, eq⟩ : ∃ front : List.Vector (Word 4) cfg.tensorNbDims, front.toList =
        (value.shape ++ List.replicate (cfg.tensorNbDims - value.shape.length) 0).map
          (Word.ofNat 4) :=
      ⟨⟨_, by simp only [List.length_map, List.length_append, List.length_replicate]; omega⟩, rfl⟩
    rw [PyValue.wire, padded, ← eq] at run
    rcases unpack_value_of_padding front _ (Word.ofNat 1 value.shape.length) value.dtype
      value.data.length value.data following env with ⟨left, read⟩
    rw [read] at run
    cases run
    cases same

/-- A value which is read back is readable; with more dimensions than Python sends, bytes of
the next values can be read instead. -/
theorem readable_of_unpack_value {v : PyValue} {following : List UInt8} {env : UnpackEnv}
    {w : Value cfg} {stream : Stream UnpackEnv} (limits : Limits cfg v) (packable : v.Packable)
    (decided : cfg.tensorNbDims ≤ 4 ∨ following = [])
    (run : unpack_value cfg ⟨v.wire ++ following, env⟩ = .ok (w, stream))
    (same : w.python = some v) : CppReadable cfg v := by
  cases v with
  | none => trivial
  | bytes value => trivial
  | int value => exact int_of_unpack_value run same
  | float value =>
      rcases Option.isSome_iff_exists.mp packable with ⟨single, narrowed⟩
      have reads : Reads (unpack_value cfg) (Wire.scalar .float single) (.scalar .float single) :=
        @reads_scalar cfg .float (by decide) single
      rw [PyValue.wire, narrowed, Option.getD_some, reads following env] at run
      cases run
      exact ⟨single, narrowed, PyValue.float.inj (Option.some.inj same)⟩
  | str value => exact str_of_unpack_value packable run same
  | ndarray value => exact ndarray_of_unpack_value limits.1 decided run same
  | sharedBuffer value => exact limits.elim
  | mappedArray shared dtype shape => exact limits.elim

end Unpack

/-! ### Events -/

theorem sameValues_limits {data : PyData} {data' : EventData cfg} (owned : data'.Owned)
    (short : ∀ w ∈ data'.values, w.Short) (same : SameValues data data') :
    ∀ v ∈ data.values, Limits cfg v := by
  rcases data with v | vs <;> rcases data' with w | ws
  · rintro _ mem
    rcases List.mem_singleton.mp mem
    exact limits_of_same owned (short w List.mem_cons_self) same
  · exact same.elim
  · exact same.elim
  · intro v mem
    rcases List.mem_iff_getElem.mp mem with ⟨i, lt, rfl⟩
    rcases List.forall₂_iff_get.mp same with ⟨length, each⟩
    have lt' : i < ws.length := length ▸ lt
    exact limits_of_same (owned.2 _ (List.getElem_mem lt')) (short _ (List.getElem_mem lt'))
      (each i lt lt')

/-- Unwrapping a list gives the same values, or `None` if there are none. -/
theorem forall_values_unwrap {p : PyValue → Prop} (none : p .none) (data : PyData) :
    (∀ v ∈ (Python.Pack.unwrap data).values, p v) ↔ ∀ v ∈ data.values, p v := by
  rcases data with v | _ | ⟨first, _ | ⟨second, values⟩⟩
  · rfl
  · simp [Python.Pack.unwrap, PyData.values, none]
  · rfl
  · rfl

theorem limits_of_sameData {data : PyData} {data' : EventData cfg} (owned : data'.Owned)
    (short : ∀ w ∈ data'.values, w.Short) (same : SameData data data') :
    ∀ v ∈ (Python.Pack.unwrap data).values, Limits cfg v := by
  rcases same with same | same
  · rw [forall_values_unwrap trivial]
    exact sameValues_limits owned short same
  · exact sameValues_limits owned short same

/-- A list which is sent as a list has several values. -/
theorem list_of_unwrap {data : PyData} {vs : List PyValue}
    (unwrapped : Python.Pack.unwrap data = .list vs) : data = .list vs ∧ 2 ≤ vs.length := by
  rcases data with v | _ | ⟨first, _ | ⟨second, values⟩⟩
  · cases unwrapped
  · cases unwrapped
  · cases unwrapped
  · cases unwrapped
    exact ⟨rfl, by simp⟩

theorem length_of_sameData {data : PyData} {data' : EventData cfg} {vs : List PyValue}
    (owned : data'.Owned) (same : SameData data data')
    (unwrapped : Python.Pack.unwrap data = .list vs) : vs.length ≤ cfg.maxValues := by
  have both : SameValues (.list vs) data' := by
    rcases same with same | same
    · rwa [(list_of_unwrap unwrapped).1] at same
    · rwa [unwrapped] at same
  rcases data' with w | ws
  · exact both.elim
  · exact (List.Forall₂.length_eq both).trans_le owned.1

theorem same_value {data : PyData} {v : PyValue} {w : Value cfg}
    (unwrapped : Python.Pack.unwrap data = .value v) (same : SameData data (.value w)) :
    w.python = some v := by
  rcases same with same | same
  · rcases data with v' | vs
    · cases unwrapped
      exact same
    · exact same.elim
  · rwa [unwrapped] at same

theorem same_list {data : PyData} {vs : List PyValue} {ws : List (Value cfg)}
    (unwrapped : Python.Pack.unwrap data = .list vs) (same : SameData data (.list ws)) :
    List.Forall₂ (fun v w => w.python = some v) vs ws := by
  rcases same with same | same
  · rwa [(list_of_unwrap unwrapped).1] at same
  · rwa [unwrapped] at same

theorem SameEvent.wire {event : PyEvent} {evt : Event cfg} (same : SameEvent event evt)
    (nodeid : Word 4) :
    event.wire nodeid.toNat = Wire.header nodeid evt.event_id evt.priority.number ++
      (Python.Pack.unwrap event.data).wire := by
  have ofNat : ∀ {n : ℕ} (w : Word n), Word.ofNat n w.toNat = w := fun w =>
    BitVec.ofNat_toNat _ w |>.trans (BitVec.setWidth_eq w)
  rw [PyEvent.wire, same.event_id, same.priority]
  simp only [Int.toNat_natCast, ofNat]

/-- What Python sends for an event which exists in the two languages. -/
theorem pack_sameEvent {event : PyEvent} {evt : Event cfg} (nodeid : Word 4)
    (owned : evt.data.Owned) (short : ∀ w ∈ evt.data.values, w.Short)
    (same : SameEvent event evt) (network : Bool) (memserver : Option MemServer)
    (stream : Stream (Option MemServer)) :
    Python.Pack.pack nodeid.toNat event network ⟨[], memserver⟩ = .ok ((), stream) ↔
      (∀ v ∈ (Python.Pack.unwrap event.data).values, v.Packable) ∧
        stream = ⟨event.wire nodeid.toNat, memserver⟩ := by
  have plain := fun v mem => (limits_of_sameData owned short same.data v mem).plain
  rw [Python.Pack.writesIf_event plain network _ _]
  have data : (Python.Pack.unwrap event.data).values.length < 2 ^ 32 := by
    cases unwrapped : Python.Pack.unwrap event.data with
    | value v => exact Nat.one_lt_two_pow (by decide)
    | list vs => exact (length_of_sameData owned same.data unwrapped).trans_lt cfg.maxValues_lt
  constructor
  · rintro ⟨packable, written⟩
    cases written
    exact ⟨packable.data.2, rfl⟩
  · rintro ⟨packable, rfl⟩
    refine ⟨⟨⟨by omega, by exact_mod_cast nodeid.isLt⟩, ?_, ?_, data, packable⟩, rfl⟩
    · rw [same.event_id]
      exact ⟨by omega, by exact_mod_cast evt.event_id.isLt⟩
    · rw [same.priority]
      exact ⟨by omega, by exact_mod_cast evt.priority.number.isLt⟩

namespace Unpack

theorem read_readable {vs : List PyValue} (limits : ∀ v ∈ vs, Limits cfg v) (env : UnpackEnv) :
    ∀ v ∈ vs, ∀ following, CppReadable cfg v →
      ∃ w, unpack_value cfg ⟨v.wire ++ following, env⟩ = .ok (w, ⟨following, env⟩) ∧
        w.python = some v := by
  intro v mem following readable
  rcases reads_readable (limits v mem) readable with ⟨w, reads, same⟩
  exact ⟨w, reads following env, same⟩

theorem unpack_data_readable (nodeid event_id : Word 4) (priority : Priority) {data : PyData}
    (limits : ∀ v ∈ data.values, Limits cfg v)
    (fits : ∀ vs, data = .list vs → vs.length ≤ cfg.maxValues)
    (readable : ∀ v ∈ data.values, CppReadable cfg v) (env : UnpackEnv) :
    ∃ data' left, unpack_data cfg nodeid event_id priority ⟨data.wire, env⟩ =
      .ok ((nodeid, ⟨event_id, priority, data', 0⟩), left) ∧ SameValues data data' := by
  cases data with
  | value v =>
      rcases reads_readable (limits v List.mem_cons_self) (readable v List.mem_cons_self) with
        ⟨w, reads, same⟩
      have readsData : Reads (unpack_data cfg nodeid event_id priority) (PyData.value v).wire
          (nodeid, ⟨event_id, priority, .value w, 0⟩) := by
        apply (reads_byte 0).bind
        rw [if_pos rfl]
        exact reads.bind_pure
      have run := readsData [] env
      rw [List.append_nil] at run
      exact ⟨.value w, _, run, same⟩
  | list vs =>
      have le : vs.length ≤ cfg.maxValues := fits vs rfl
      have limits : ∀ v ∈ vs, Limits cfg v := limits
      have each : EachFollowed PyValue.wire (fun v _ => CppReadable cfg v) vs [] :=
        eachFollowed_const.mpr readable
      rcases repeatN_of_each (read_readable limits env) each with ⟨ws, run, agree⟩
      refine ⟨.list ws, ⟨[], env⟩, ?_, agree⟩
      rw [PyData.wire, unpack_data, bind_of_ok (read_byte_cons 1 _ env), if_neg (by decide),
        if_pos rfl, Wire.counted, bind_of_ok (reads_value _ _ env),
        toNat_count (le.trans_lt cfg.maxValues_lt), unpack_values_eq (by omega)]
      rw [List.append_nil] at run
      rw [bind_of_ok run]
      rfl

theorem readable_of_unpack_data {nodeid event_id : Word 4} {priority : Priority}
    {data whole : PyData} {env : UnpackEnv} {nodeid' : Word 4} {evt : Event cfg}
    {left : Stream UnpackEnv} (unwrapped : Python.Pack.unwrap whole = data)
    (limits : ∀ v ∈ data.values, Limits cfg v) (packable : ∀ v ∈ data.values, v.Packable)
    (fits : ∀ vs, data = .list vs → vs.length ≤ cfg.maxValues)
    (decided : cfg.tensorNbDims ≤ 4 ∨ ∀ vs, data ≠ .list vs)
    (run : unpack_data cfg nodeid event_id priority ⟨data.wire, env⟩ = .ok ((nodeid', evt), left))
    (same : SameData whole evt.data) : ∀ v ∈ data.values, CppReadable cfg v := by
  cases data with
  | value v =>
      rw [PyData.wire, unpack_data, bind_of_ok (read_byte_cons 0 _ env), if_pos rfl] at run
      rcases bind_eq_ok.mp run with ⟨w, _, read, last⟩
      cases last
      rw [← List.append_nil v.wire] at read
      intro _ mem
      rcases List.mem_singleton.mp mem
      exact readable_of_unpack_value (limits v mem) (packable v mem) (.inr rfl) read
        (same_value unwrapped same)
  | list vs =>
      have le : vs.length ≤ cfg.maxValues := fits vs rfl
      have four : cfg.tensorNbDims ≤ 4 := decided.resolve_right fun no => no vs rfl
      rw [PyData.wire, unpack_data, bind_of_ok (read_byte_cons 1 _ env), if_neg (by decide),
        if_pos rfl, Wire.counted, bind_of_ok (reads_value _ _ env),
        toNat_count (le.trans_lt cfg.maxValues_lt), unpack_values_eq (by omega)] at run
      rcases bind_eq_ok.mp run with ⟨ws, _, read, last⟩
      cases last
      rw [← List.append_nil (vs.flatMap PyValue.wire)] at read
      exact eachFollowed_const.mp (each_of_repeatN (read_readable limits env)
        (fun v mem following w stream run same =>
          readable_of_unpack_value (limits v mem) (packable v mem) (.inl four) run same)
        read (same_list unwrapped same))

end Unpack

theorem cppReads_of_readable {event : PyEvent} {evt : Event cfg} (nodeid : Word 4)
    (owned : evt.data.Owned) (short : ∀ w ∈ evt.data.values, w.Short)
    (same : SameEvent event evt) (readable : ∀ v ∈ event.data.values, CppReadable cfg v) :
    CppReads cfg nodeid event := by
  intro network memserver env
  have limits := limits_of_sameData owned short same.data
  have sent : ∀ v ∈ (Python.Pack.unwrap event.data).values, CppReadable cfg v :=
    (forall_values_unwrap trivial event.data).mpr readable
  have packed := (pack_sameEvent nodeid owned short same network memserver _).mpr
    ⟨fun v mem => (sent v mem).packable (limits v mem), rfl⟩
  rcases Unpack.unpack_data_readable nodeid evt.event_id evt.priority limits
    (fun vs => length_of_sameData owned same.data) sent env with ⟨data', left, run, same'⟩
  refine ⟨_, ⟨evt.event_id, evt.priority, data', 0⟩, left, packed, ?_,
    same.event_id, same.priority, .inr same'⟩
  rw [same.wire, Unpack.unpack_header, Unpack.priority_number, run]

theorem readable_of_cppReads {event : PyEvent} {evt : Event cfg} (nodeid : Word 4)
    (owned : evt.data.Owned) (short : ∀ w ∈ evt.data.values, w.Short)
    (same : SameEvent event evt)
    (decided : cfg.tensorNbDims ≤ 4 ∨ event.data.values.length ≤ 1)
    (reads : CppReads cfg nodeid event) : ∀ v ∈ event.data.values, CppReadable cfg v := by
  have limits := limits_of_sameData owned short same.data
  rcases reads false none ⟨none, false⟩ with ⟨stream, evt', left, packed, run, same'⟩
  rcases (pack_sameEvent nodeid owned short same _ _ _).mp packed with ⟨packable, rfl⟩
  rw [same.wire, Unpack.unpack_header] at run
  apply (forall_values_unwrap (p := CppReadable cfg) trivial event.data).mp
  refine Unpack.readable_of_unpack_data rfl limits packable
    (fun vs => length_of_sameData owned same.data) ?_ run same'.data
  rcases decided with four | single
  · exact .inl four
  · right
    intro vs unwrapped
    rcases list_of_unwrap unwrapped with ⟨list, several⟩
    rw [list] at single
    exact absurd (several.trans single) (by decide)

/-! ## From C++ to Python -/

namespace Value

theorem wire_tensor {t : ElemType} {nb_dims : Word 1}
    {dims : List.Vector (Word 4) cfg.tensorNbDims} {data : List (Word t.size)}
    (length : data.length = Tensor.nbElems ⟨nb_dims, dims, .unique data⟩)
    (short : data.length < 2 ^ 32) :
    tensorWire (some ⟨nb_dims, dims, .unique data⟩) =
      Wire.tensor nb_dims dims.toList t data.length data := by
  have size : Tensor.size ⟨nb_dims, dims, .unique data⟩ = data.length := by
    rw [Tensor.size_eq, ← length, Nat.mod_eq_of_lt short]
  rw [tensorWire, size, List.take_length]

theorem wire_ne_nil {w : Value cfg} (owned : w.Owned) : w.wire ≠ [] := by
  have tensor : ∀ t (handle : Option (Tensor cfg t)), (Value.tensor t handle).Owned →
      tensorWire handle ≠ [] := by
    rintro t handle ⟨⟨nb_dims, dims, storage⟩, data, rfl, stored, -⟩
    cases stored
    exact List.cons_ne_nil _ _
  cases w with
  | buffer handle =>
      rcases owned with ⟨size, data, rfl, -⟩
      exact List.cons_ne_nil _ _
  | tensor t handle => exact tensor t handle owned
  | constTensor t handle => exact tensor t handle owned
  | _ => exact List.cons_ne_nil _ _

theorem length_wire_le_one {w : Value cfg} (owned : w.Owned) :
    w.wire.length ≤ 1 ↔ w = .monostate := by
  have tensor : ∀ t (handle : Option (Tensor cfg t)), (Value.tensor t handle).Owned →
      1 < (tensorWire handle).length := by
    rintro t handle ⟨⟨nb_dims, dims, storage⟩, data, rfl, stored, -⟩
    cases stored
    simp [tensorWire, Wire.tensor]
  cases w with
  | monostate => simp [wire, Wire.none]
  | scalar t v =>
      have positive : 0 < t.size := by cases t <;> decide
      simp only [wire, Wire.scalar, List.length_cons, Word.length_bytes, reduceCtorEq, iff_false]
      omega
  | buffer handle =>
      rcases owned with ⟨size, data, rfl, -⟩
      simp [wire, Wire.buffer, Wire.counted]
  | string s => simp [wire, Wire.string, Wire.counted]
  | tensor t handle => simpa [wire] using tensor t handle owned
  | constTensor t handle => simpa [wire] using tensor t handle owned

end Value

theorem python_string {s : List UInt8} {v : PyValue}
    (same : (Value.string s : Value cfg).python = some v) :
    ∃ text, Python.decode s = .ok text ∧ v = .str text := by
  rcases Option.map_eq_some_iff.mp same with ⟨text, decoded, rfl⟩
  cases decoding : Python.decode s with
  | error e =>
      rw [decoding] at decoded
      cases decoded
  | ok s' =>
      rw [decoding] at decoded
      cases decoded
      exact ⟨_, rfl, rfl⟩

/-- Python reads what C++ sends for a value, from its first byte to the bytes which follow,
but for the last byte of a buffer. -/
theorem python_unpack_value {w : Value cfg} {v : PyValue} (owned : w.Owned) (short : w.Short)
    (same : w.python = some v) {following : List UInt8}
    (kept : Python.KeptBefore Value.bytes? w following) (env : Option MemServer) :
    Python.Unpack.unpack_value ⟨w.wire ++ following, env⟩ = .ok (v, ⟨following, env⟩) := by
  have tensor : ∀ t (handle : Option (Tensor cfg t)), (Value.tensor t handle).Owned →
      Value.ShortTensor handle → Value.ndarray handle = some v →
      Python.Unpack.unpack_value ⟨Value.tensorWire handle ++ following, env⟩ =
        .ok (v, ⟨following, env⟩) := by
    rintro t handle ⟨_, _, rfl, stored, length, -⟩ short same
    rcases ndarray_eq_some same with ⟨nb_dims, dims, data, size_eq, eq, rfl⟩
    cases eq
    cases stored
    rw [Value.wire_tensor length short]
    refine Python.Unpack.reads_ndarray ?_ short ?_ size_eq following env
    · rw [List.Vector.toList_length]
      exact cfg.tensorNbDims_lt.trans (by decide)
    · exact List.map_take.symm
  cases w with
  | monostate =>
      cases same
      exact Python.Unpack.reads_none following env
  | scalar t x =>
      cases same
      exact Python.Unpack.reads_scalar t x following env
  | buffer handle =>
      rcases owned with ⟨size, data, rfl, length⟩
      cases same
      rw [Value.wire, ← length, Python.Unpack.unpack_value_buffer (length.trans_lt size.isLt),
        (Python.sliceTo_eq_iff _ _).mpr (kept data rfl)]
  | string s =>
      rcases python_string same with ⟨text, decoded, rfl⟩
      have count : (s ++ [0]).length = s.length + 1 := List.length_append
      have fits : (s ++ [0]).length < 2 ^ 32 := count ▸ short
      rw [Value.wire, ← count, Python.Unpack.unpack_value_string fits,
        Python.sliceTo_last _ _ (by simp), List.dropLast_concat, decoded]
      rfl
  | tensor t handle => exact tensor t handle owned short same
  | constTensor t handle => exact tensor t handle owned short same

theorem kept_of_python_unpack_value {w : Value cfg} {v : PyValue} (owned : w.Owned)
    {following : List UInt8} {env : Option MemServer} {stream : Stream (Option MemServer)}
    (run : Python.Unpack.unpack_value ⟨w.wire ++ following, env⟩ = .ok (v, stream))
    (same : w.python = some v) : Python.KeptBefore Value.bytes? w following := by
  cases w with
  | buffer handle =>
      rcases owned with ⟨size, data, rfl, length⟩
      rintro text ⟨⟩
      rw [Value.wire, ← length, Python.Unpack.unpack_value_buffer (length.trans_lt size.isLt)]
        at run
      cases run
      exact (Python.sliceTo_eq_iff _ _).mp (PyValue.bytes.inj (Option.some.inj same)).symm
  | _ =>
      intro text isBuffer
      cases isBuffer

theorem python_values {data : PyData} {data' : EventData cfg} (same : SameData data data') :
    ∀ w ∈ data'.values, ∃ v, w.python = some v := by
  have each : ∀ {data : PyData}, SameValues data data' → ∀ w ∈ data'.values,
      ∃ v, w.python = some v := by
    intro data same
    rcases data with v | vs <;> rcases data' with w | ws
    · rintro _ mem
      rcases List.mem_singleton.mp mem
      exact ⟨v, same⟩
    · exact same.elim
    · exact same.elim
    · intro w mem
      rcases List.mem_iff_getElem.mp mem with ⟨i, lt, rfl⟩
      rcases List.forall₂_iff_get.mp same with ⟨length, get⟩
      exact ⟨_, get i (length ▸ lt) lt⟩
  exact same.elim each each

theorem same_lists {vs : List PyValue} {ws : List (Value cfg)}
    (same : SameData (.list vs) (.list ws)) :
    List.Forall₂ (fun w v => w.python = some v) ws vs := by
  have agree : List.Forall₂ (fun v w => w.python = some v) vs ws := by
    rcases same with same | same
    · exact same
    · rcases vs with _ | ⟨first, _ | ⟨second, vs⟩⟩
      · exact same.elim
      · exact same.elim
      · exact same
  exact agree.flip

theorem python_repeatN_iff {ws : List (Value cfg)} (owned : ∀ w ∈ ws, w.Owned)
    (short : ∀ w ∈ ws, w.Short) (values : ∀ w ∈ ws, ∃ v, w.python = some v)
    (env : Option MemServer) :
    (∃ vs left, repeatN Python.Unpack.unpack_value ws.length ⟨ws.flatMap Value.wire, env⟩ =
        .ok (vs, left) ∧ List.Forall₂ (fun w v => w.python = some v) ws vs) ↔
      Python.Kept Value.bytes? .monostate ws := by
  have reads : ∀ w ∈ ws, ∀ following, Python.KeptBefore Value.bytes? w following →
      ∃ v, Python.Unpack.unpack_value ⟨w.wire ++ following, env⟩ =
        .ok (v, ⟨following, env⟩) ∧ w.python = some v := by
    intro w mem following kept
    rcases values w mem with ⟨v, same⟩
    exact ⟨v, python_unpack_value (owned w mem) (short w mem) same kept env, same⟩
  have only : ∀ w ∈ ws, ∀ following v stream,
      Python.Unpack.unpack_value ⟨w.wire ++ following, env⟩ = .ok (v, stream) →
        w.python = some v → Python.KeptBefore Value.bytes? w following :=
    fun w mem following v stream => kept_of_python_unpack_value (owned w mem)
  rw [← Python.eachFollowed_kept (fun w mem => Value.wire_ne_nil (owned w mem))
    fun w mem => Value.length_wire_le_one (owned w mem)]
  constructor
  · rintro ⟨vs, left, run, agree⟩
    rw [← List.append_nil (ws.flatMap Value.wire)] at run
    exact each_of_repeatN reads only run agree
  · intro each
    rcases repeatN_of_each reads each with ⟨vs, run, agree⟩
    rw [List.append_nil] at run
    exact ⟨vs, _, run, agree⟩

/-- Python reads the data that C++ sends exactly when no buffer loses bytes. -/
theorem python_unpack_data_iff (nodeid event_id : Word 4) (priority : Word 1)
    {data : EventData cfg} (owned : data.Owned) (short : ∀ w ∈ data.values, w.Short)
    (values : ∀ w ∈ data.values, ∃ v, w.python = some v) (env : Option MemServer) :
    (∃ event left, Python.Unpack.unpack_data nodeid event_id priority ⟨data.wire, env⟩ =
        .ok ((nodeid.toNat, event), left) ∧ event.event_id = event_id.toNat ∧
        event.priority = priority.toNat ∧ SameData event.data data) ↔
      Python.Kept Value.bytes? .monostate data.values := by
  cases data with
  | value w =>
      rcases values w List.mem_cons_self with ⟨v, same⟩
      have short := short w List.mem_cons_self
      rw [EventData.wire, Python.Unpack.unpack_data, Python.Unpack.read_byte,
        bind_of_ok (byte_cons _ _ _ env), if_pos rfl, EventData.values, Python.kept_singleton,
        ← List.append_nil w.wire]
      constructor
      · rintro ⟨event, left, run, -, -, data⟩
        rcases bind_eq_ok.mp run with ⟨v', _, read, last⟩
        cases last
        exact kept_of_python_unpack_value owned read (same_value rfl data)
      · intro kept
        rw [bind_of_ok (python_unpack_value owned short same kept env)]
        exact ⟨_, _, rfl, rfl, rfl, .inl same⟩
  | list ws =>
      have count : (Word.ofNat 4 ws.length).toNat = ws.length :=
        Unpack.toNat_count (owned.1.trans_lt cfg.maxValues_lt)
      rw [EventData.wire, Python.Unpack.unpack_data, Python.Unpack.read_byte,
        bind_of_ok (byte_cons _ _ _ env), if_neg (by decide), Wire.counted, Python.Unpack.read,
        bind_of_ok (reads_word _ _ _ env), count, EventData.values,
        ← python_repeatN_iff owned.2 short values env]
      constructor
      · rintro ⟨event, left, run, -, -, data⟩
        rcases bind_eq_ok.mp run with ⟨vs, _, read, last⟩
        cases last
        exact ⟨vs, _, read, same_lists data⟩
      · rintro ⟨vs, left, run, agree⟩
        rw [bind_of_ok run]
        exact ⟨_, _, rfl, rfl, rfl, .inl agree.flip⟩

theorem pythonReads_iff {event : PyEvent} {evt : Event cfg} (nodeid : Word 4)
    (owned : evt.data.Owned) (short : ∀ w ∈ evt.data.values, w.Short)
    (same : SameEvent event evt) :
    PythonReads nodeid evt ↔ Python.Kept Value.bytes? .monostate evt.data.values := by
  have values := python_values same.data
  have decoded : ∀ mem_server memserver,
      (∃ event left, Python.Unpack.unpack_event
          ⟨Pack.serialized nodeid evt true mem_server, memserver⟩ =
        .ok ((nodeid.toNat, event), left) ∧ SameEvent event evt) ↔
        Python.Kept Value.bytes? .monostate evt.data.values := by
    intro mem_server memserver
    rw [Pack.serialized_eq owned, Event.wire, Python.Unpack.unpack_header,
      ← python_unpack_data_iff nodeid evt.event_id evt.priority.number owned short values memserver]
    constructor
    · rintro ⟨event, left, run, ⟨event_id, priority, data⟩⟩
      exact ⟨event, left, run, event_id, priority, data⟩
    · rintro ⟨event, left, run, event_id, priority, data⟩
      exact ⟨event, left, run, ⟨event_id, priority, data⟩⟩
  constructor
  · intro reads
    exact (decoded none none).mp (reads none none)
  · intro kept mem_server memserver
    exact (decoded mem_server memserver).mpr kept

/-- An event of the common domain is read by C++ when each of its values is, and only then
unless C++ expects more dimensions than Python sends and takes them from other values; it is
read by Python exactly when no buffer loses bytes. -/
theorem crossLanguage_iff {event : PyEvent} {evt : Event cfg} (nodeid : Word 4)
    (owned : evt.data.Owned) (short : ∀ w ∈ evt.data.values, w.Short)
    (same : SameEvent event evt) :
    ((∀ v ∈ event.data.values, CppReadable cfg v) → CppReads cfg nodeid event) ∧
      (cfg.tensorNbDims ≤ 4 ∨ event.data.values.length ≤ 1 →
        CppReads cfg nodeid event → ∀ v ∈ event.data.values, CppReadable cfg v) ∧
      (PythonReads nodeid evt ↔ Python.Kept Value.bytes? .monostate evt.data.values) :=
  ⟨cppReads_of_readable nodeid owned short same, readable_of_cppReads nodeid owned short same,
    pythonReads_iff nodeid owned short same⟩

/-- A configuration with as many dimensions as Python sends. -/
def fourDims : Config where
  tensorNbDims := 4
  tensorNbDims_lt := by decide
  maxValues := 8
  maxValues_lt := Config.default.maxValues_lt

/-- An integer and a tensor of two elements. -/
def cppTensorEvent : Event fourDims where
  event_id := 100
  priority := .kHighPriority
  data := .list [.scalar .int16 300,
    .tensor .float (some ⟨2, ⟨[2, 1, 0, 0], rfl⟩, .unique [0x3f800000, 0x40000000]⟩)]
  ttl := 0

def pythonTensorEvent : PyEvent where
  event_id := 100
  priority := 2
  data := .list [.int 300, .ndarray ⟨.float, [2, 1], [0x3f800000, 0x40000000], by decide⟩]

theorem tensorEvent_crossLanguage :
    CppReads fourDims 5 pythonTensorEvent ∧ PythonReads 5 cppTensorEvent := by
  have owned : cppTensorEvent.data.Owned := by
    refine ⟨by decide, ?_⟩
    simp only [List.forall_mem_cons]
    exact ⟨trivial, ⟨_, _, rfl, rfl, by decide, by decide⟩, by simp⟩
  have short : ∀ w ∈ cppTensorEvent.data.values, w.Short := by
    simp only [cppTensorEvent, EventData.values, List.forall_mem_cons]
    refine ⟨trivial, ?_, by simp⟩
    change 2 < 2 ^ 32
    decide
  have same : SameEvent pythonTensorEvent cppTensorEvent :=
    ⟨by decide, by decide, .inl (.cons (by decide) (.cons (by decide) .nil))⟩
  have readable : ∀ v ∈ pythonTensorEvent.data.values, CppReadable fourDims v := by
    simp only [pythonTensorEvent, PyData.values, List.forall_mem_cons]
    refine ⟨?_, ?_, by simp⟩
    all_goals
      simp only [CppReadable]
      decide
  have kept : Python.Kept Value.bytes? .monostate cppTensorEvent.data.values := by
    refine ⟨?_, ?_, trivial⟩
    all_goals rintro text ⟨⟩
  rcases crossLanguage_iff 5 owned short same with ⟨fromPython, -, fromCpp⟩
  exact ⟨fromPython readable, fromCpp.mpr kept⟩

/-- The string `a` in C++. -/
def cppStringEvent : Event .default where
  event_id := 100
  priority := .kNormalPriority
  data := .value (.string [97])
  ttl := 0

/-- A buffer of one byte in C++. -/
def cppBufferEvent : Event .default where
  event_id := 100
  priority := .kNormalPriority
  data := .value (.buffer (some ⟨1, .unique [97]⟩))
  ttl := 0

/-- The same buffer in Python. -/
def pythonBufferEvent : PyEvent where
  event_id := 100
  priority := 1
  data := .value (.bytes [97])

theorem stringEvent_bufferEvent_not_crossLanguage :
    SameEvent Python.shortStringEvent cppStringEvent ∧
      ¬CppReads .default 5 Python.shortStringEvent ∧
      SameEvent pythonBufferEvent cppBufferEvent ∧ ¬PythonReads 5 cppBufferEvent := by
  have text : Python.encode "a" = [97] := by decide
  have sameText : (Value.string [97] : Value .default).python = some (.str "a") := by
    rw [Value.python, ← text, Python.decode_encode]
    rfl
  have sameString : SameEvent Python.shortStringEvent cppStringEvent :=
    ⟨by decide, by decide, .inl sameText⟩
  have sameBuffer : SameEvent pythonBufferEvent cppBufferEvent :=
    ⟨by decide, by decide, .inl rfl⟩
  refine ⟨sameString, ?_, sameBuffer, ?_⟩
  · intro reads
    have owned : cppStringEvent.data.Owned := trivial
    have short : ∀ w ∈ cppStringEvent.data.values, w.Short := by
      intro w mem
      rcases List.mem_singleton.mp mem
      change 2 < 2 ^ 32
      decide
    exact readable_of_cppReads 5 owned short sameString (.inl (by decide)) reads _
      List.mem_cons_self
  · intro reads
    have owned : cppBufferEvent.data.Owned := ⟨_, _, rfl, rfl⟩
    have short : ∀ w ∈ cppBufferEvent.data.values, w.Short := by
      intro w mem
      rcases List.mem_singleton.mp mem
      trivial
    have kept := (pythonReads_iff 5 owned short sameBuffer).mp reads
    cases (kept.1 _ rfl).1

end CmsisStream.Events
