import CmsisStream.Events.Wire

/-!
# `Unpack`

The class keeps a pointer to the next byte to read, and ignores the size which is given to
its constructor.  Here the bytes are those between this pointer and the end of the message:
a read beyond them is undefined, which ends the run with a `Fault`.
-/

namespace CmsisStream.Events

open Codec (Word Action Stream)
open Codec.Action

/-- The points where a run of `Unpack` is undefined. -/
inductive Fault where
  /-- A byte is read outside of the message. -/
  | outOfBounds
  /-- A value is stored at an index `CG_MAX_VALUES` or more of a `ListValue`. -/
  | listIndex
  /-- A string is built from a wrapped length. -/
  | stringLength
deriving DecidableEq, Repr

structure UnpackEnv where
  mem_server : Option MemServer
  /-- Set when the number of bytes of a buffer has wrapped in a `uint32_t`. -/
  lengthWrapped : Bool

/-- The sizes of the buffers which the server has. -/
def UnpackEnv.live (env : UnpackEnv) (global_id : Word 4) : Option ℕ :=
  env.mem_server.bind (·.size global_id)

abbrev Unpacker := Action UnpackEnv Fault

namespace Unpack

variable (cfg : Config)

/-- `read_value` of a `uint8_t` which is a tag -/
def read_byte : Unpacker UInt8 := byte .outOfBounds

/-- `read_value` -/
def read_value (n : ℕ) : Unpacker (Word n) := word .outOfBounds n

/-- `read_array`, which ignores the number of elements in the message. -/
def read_array (n N : ℕ) : Unpacker (List.Vector (Word n) N) := do
  let _n_unused ← read_value 4
  array (read_value n) N

/-- `make_typed_buffer` -/
def make_typed_buffer (n nb : ℕ) : Unpacker (List (Word n)) := repeatN (read_value n) nb

/-- `make_raw_buffer` and `make_string_buffer` -/
def make_raw_buffer (nb : ℕ) : Unpacker (List UInt8) := take .outOfBounds nb

/-- The reference of the message is released once the one of `get_buffer` is there.  The size of
the buffer becomes a `uint32_t` in `RawBuffer`. -/
def get_shared (global_id : Word 4) : Unpacker (Value cfg) := fun stream =>
  match stream.env.mem_server with
  | none => .ok (.monostate, stream)
  | some mem_server =>
      match mem_server.get_buffer global_id with
      | none => .ok (.monostate, stream)
      | some (fd, mem_server) =>
          .ok (.buffer (some (.ofShared fd)),
            { stream with
              env :=
                { mem_server := some (mem_server.release global_id)
                  lengthWrapped := stream.env.lengthWrapped || 2 ^ 32 ≤ fd.bytes } })

/-- A number of bytes computed in a `uint32_t`. -/
def computeLength (nbBytes : ℕ) : Unpacker Unit :=
  modify fun stream =>
    { stream with
      env := { stream.env with lengthWrapped := stream.env.lengthWrapped || 2 ^ 32 ≤ nbBytes } }

def unpack_tensor (t : ElemType) (nb_dims : Word 1)
    (dims : List.Vector (Word 4) cfg.tensorNbDims) : Unpacker (Value cfg) := do
  let buffer_type ← read_byte
  if buffer_type = BufferType.kCopyBuffer.toByte then
    let nb ← read_value 4
    let data ← make_typed_buffer t.size nb.toNat
    pure (.tensor t (some ⟨nb_dims, dims, .unique data⟩))
  else if buffer_type = BufferType.kSharedBuffer.toByte then
    let nb_elems ← read_value 4
    let global_id ← read_value 4
    computeLength (nb_elems.toNat * t.size)
    if nb_elems = 0 then pure .monostate else get_shared cfg global_id
  else pure .monostate

/-- The case `kAny` of `unpack_value`. -/
def unpack_any : Unpacker (Value cfg) := do
  let buf_type ← read_byte
  if buf_type = BufferType.kCopyBuffer.toByte then
    let buf_size ← read_value 4
    let buf ← make_raw_buffer buf_size.toNat
    pure (.buffer (some ⟨buf_size, .unique buf⟩))
  else if buf_type = BufferType.kSharedBuffer.toByte then
    let buf_size ← read_value 4
    let global_id ← read_value 4
    if buf_size = 0 then pure .monostate else get_shared cfg global_id
  else pure .monostate

/-- The case `kStr` of `unpack_value`: `str_size - 1` wraps for an empty string. -/
def unpack_str : Unpacker (Value cfg) := do
  let str_size ← read_value 4
  let buf ← make_raw_buffer str_size.toNat
  if str_size = 0 then throw .stringLength
  else pure (.string (buf.take (str_size.toNat - 1)))

/-- The element types of tensors, in the order of the tests. -/
def tensorTypes : List ElemType :=
  [.int8, .int16, .int32, .int64, .uint8, .uint16, .uint32, .uint64, .float, .double]

/-- The tests of the element type in the case `kTensor` of `unpack_value`. -/
def unpack_elements (nb_dims : Word 1) (dims : List.Vector (Word 4) cfg.tensorNbDims) :
    Unpacker (Value cfg) :=
  firstTag (.error .outOfBounds) (fun t => unpack_tensor cfg t nb_dims dims) tensorTypes
    (pure .monostate)

/-- The case `kTensor` of `unpack_value`. -/
def unpack_any_tensor : Unpacker (Value cfg) := do
  let nb_dims ← read_value 1
  let dims ← read_array 4 cfg.tensorNbDims
  unpack_elements cfg nb_dims dims

/-- The types of the scalars, in the order of the tests. -/
def scalarTypes : List ElemType :=
  [.uint8, .int8, .uint16, .int16, .uint32, .int32, .float, .double]

def unpack_scalar (t : ElemType) : Unpacker (Value cfg) := do
  let v ← read_value t.size
  pure (.scalar t v)

def unpack_value : Unpacker (Value cfg) :=
  ifTag (.error .outOfBounds) .kNone (pure .monostate) <|
  firstTag (.error .outOfBounds) (unpack_scalar cfg) scalarTypes <|
  ifTag (.error .outOfBounds) .kAny (unpack_any cfg) <|
  ifTag (.error .outOfBounds) .kStr (unpack_str cfg) <|
  ifTag (.error .outOfBounds) .kTensor (unpack_any_tensor cfg) <|
  pure .monostate

/-- The loop filling `cv->values` from index `i`. -/
def unpack_values (i : ℕ) : ℕ → Unpacker (List (Value cfg))
  | 0 => pure []
  | n + 1 => do
      let v ← unpack_value cfg
      if i < cfg.maxValues then
        let values ← unpack_values (i + 1) n
        pure (v :: values)
      else throw .listIndex

/-- The priority for a number of the message. -/
def priority (priority_nb : Word 1) : Priority :=
  if priority_nb = 0 then .kLowPriority
  else if priority_nb = 1 then .kNormalPriority
  else if priority_nb = 2 then .kHighPriority
  else .kNormalPriority

/-- What follows the priority in a message. -/
def unpack_data (nodeid event_id : Word 4) (priority : Priority) :
    Unpacker (Word 4 × Event cfg) := do
  let dataCase ← read_byte
  if dataCase = 0 then
    let val ← unpack_value cfg
    pure (nodeid, ⟨event_id, priority, .value val, 0⟩)
  else if dataCase = 1 then
    let nb_values ← read_value 4
    let values ← unpack_values cfg 0 nb_values.toNat
    pure (nodeid, ⟨event_id, priority, .list values, 0⟩)
  else pure (nodeid, ⟨kDo, priority, .value .monostate, 0⟩)

/-- `Unpack::unpack` -/
def unpack : Unpacker (Word 4 × Event cfg) := do
  let nodeid ← read_value 4
  let event_id ← read_value 4
  let priority_nb ← read_value 1
  unpack_data cfg nodeid event_id (priority priority_nb)

/-! ## Reading each kind of value -/

variable {cfg}

theorem reads_byte (byte : UInt8) : Reads read_byte [byte] byte := Action.reads_byte _ byte

theorem read_byte_cons (byte : UInt8) (rest : List UInt8) (env : UnpackEnv) :
    read_byte ⟨byte :: rest, env⟩ = .ok (byte, ⟨rest, env⟩) := byte_cons _ byte rest env

theorem consumes_byte : Consumes read_byte fun byte => [byte] := Action.consumes_byte _

theorem reads_value {n : ℕ} (v : Word n) : Reads (read_value n) v.bytes v := reads_word _ v

theorem consumes_value (n : ℕ) : Consumes (read_value n) Word.bytes := consumes_word _ n

theorem computeLength_apply (nbBytes : ℕ) (bytes : List UInt8) (env : UnpackEnv) :
    computeLength nbBytes ⟨bytes, env⟩ =
      .ok ((), ⟨bytes, { env with lengthWrapped := env.lengthWrapped || 2 ^ 32 ≤ nbBytes }⟩) :=
  rfl

theorem computeLength_of_lt {nbBytes : ℕ} (lt : nbBytes < 2 ^ 32) (bytes : List UInt8)
    (env : UnpackEnv) : computeLength nbBytes ⟨bytes, env⟩ = .ok ((), ⟨bytes, env⟩) := by
  rw [computeLength_apply, decide_eq_false lt.not_ge, Bool.or_false]

theorem reads_elements {n nb : ℕ} {data : List (Word n)} (length : data.length = nb) :
    Reads (make_typed_buffer n nb) (Wire.words data) data := by
  rw [← length]
  exact reads_repeatN (fun v => reads_value v) data

theorem reads_dims {n N : ℕ} (n_unused : Word 4) (dims : List.Vector (Word n) N) :
    Reads (read_array n N) (n_unused.bytes ++ Wire.words dims.toList) dims :=
  (reads_value n_unused).bind (reads_array (fun v => reads_value v) dims)

/-! ## Tags -/

theorem unpack_value_none (rest : List UInt8) (env : UnpackEnv) :
    unpack_value cfg ⟨ValueType.kNone.toByte :: rest, env⟩ = .ok (.monostate, ⟨rest, env⟩) :=
  ifTag_self _ _ _ rest env

theorem unpack_value_scalar {t : ElemType} (mem : t ∈ scalarTypes) (rest : List UInt8)
    (env : UnpackEnv) :
    unpack_value cfg ⟨t.tag.toByte :: rest, env⟩ = unpack_scalar cfg t ⟨rest, env⟩ := by
  have ne : t.tag.toByte ≠ ValueType.kNone.toByte := by cases t <;> decide
  rw [unpack_value, ifTag_of_ne ne, firstTag_of_mem mem]

/-- What is left to try for a tag which is not the one of a scalar. -/
theorem unpack_value_of_not_scalar {byte : UInt8} (ne : byte ≠ ValueType.kNone.toByte)
    (notMem : ∀ t ∈ scalarTypes, byte ≠ t.tag.toByte) (rest : List UInt8) (env : UnpackEnv) :
    unpack_value cfg ⟨byte :: rest, env⟩ =
      (ifTag (.error .outOfBounds) .kAny (unpack_any cfg) <|
        ifTag (.error .outOfBounds) .kStr (unpack_str cfg) <|
        ifTag (.error .outOfBounds) .kTensor (unpack_any_tensor cfg) <|
        pure .monostate) ⟨byte :: rest, env⟩ := by
  rw [unpack_value, ifTag_of_ne ne, firstTag_of_not_mem notMem]

theorem unpack_value_any (rest : List UInt8) (env : UnpackEnv) :
    unpack_value cfg ⟨ValueType.kAny.toByte :: rest, env⟩ = unpack_any cfg ⟨rest, env⟩ := by
  rw [unpack_value_of_not_scalar (by decide) (by decide), ifTag_self]

theorem unpack_value_str (rest : List UInt8) (env : UnpackEnv) :
    unpack_value cfg ⟨ValueType.kStr.toByte :: rest, env⟩ = unpack_str cfg ⟨rest, env⟩ := by
  rw [unpack_value_of_not_scalar (by decide) (by decide), ifTag_of_ne (by decide), ifTag_self]

theorem unpack_value_tensor (rest : List UInt8) (env : UnpackEnv) :
    unpack_value cfg ⟨ValueType.kTensor.toByte :: rest, env⟩ =
      unpack_any_tensor cfg ⟨rest, env⟩ := by
  rw [unpack_value_of_not_scalar (by decide) (by decide), ifTag_of_ne (by decide),
    ifTag_of_ne (by decide), ifTag_self]

theorem unpack_value_nil (env : UnpackEnv) :
    unpack_value cfg ⟨[], env⟩ = .error .outOfBounds := rfl

theorem mem_tensorTypes (t : ElemType) : t ∈ tensorTypes := by
  cases t <;> decide

/-- The byte is not a tag of `unpack_value`. -/
structure Unknown (byte : UInt8) : Prop where
  notNone : byte ≠ ValueType.kNone.toByte
  notScalar : ∀ t ∈ scalarTypes, byte ≠ t.tag.toByte
  notAny : byte ≠ ValueType.kAny.toByte
  notStr : byte ≠ ValueType.kStr.toByte
  notTensor : byte ≠ ValueType.kTensor.toByte

/-- The other tags are not skipped, and give an empty value. -/
theorem unpack_value_unknown {byte : UInt8} (unknown : Unknown byte) (rest : List UInt8)
    (env : UnpackEnv) :
    unpack_value cfg ⟨byte :: rest, env⟩ = .ok (.monostate, ⟨byte :: rest, env⟩) := by
  rw [unpack_value_of_not_scalar unknown.notNone unknown.notScalar, ifTag_of_ne unknown.notAny,
    ifTag_of_ne unknown.notStr, ifTag_of_ne unknown.notTensor]
  rfl

theorem tag_cases (byte : UInt8) :
    byte = ValueType.kNone.toByte ∨ (∃ t ∈ scalarTypes, byte = t.tag.toByte) ∨
      byte = ValueType.kAny.toByte ∨ byte = ValueType.kStr.toByte ∨
      byte = ValueType.kTensor.toByte ∨ Unknown byte := by
  by_contra neither
  push Not at neither
  rcases neither with ⟨notNone, notScalar, notAny, notStr, notTensor, known⟩
  exact known ⟨notNone, notScalar, notAny, notStr, notTensor⟩

/-- A buffer is given when the server has it; the server keeps its buffers. -/
theorem get_shared_spec (cfg : Config) (global_id : Word 4) (bytes : List UInt8)
    (env : UnpackEnv) :
    ∃ v env', get_shared cfg global_id ⟨bytes, env⟩ = .ok (v, ⟨bytes, env'⟩) ∧
      env'.live = env.live ∧
      (env.live global_id = none ∧ v = .monostate ∧ env'.lengthWrapped = env.lengthWrapped ∨
        ∃ fd, env.live global_id = some fd.bytes ∧ v = .buffer (some (.ofShared fd)) ∧
          env'.lengthWrapped = (env.lengthWrapped || 2 ^ 32 ≤ fd.bytes)) := by
  rcases env with ⟨_ | server, lengthWrapped⟩
  · exact ⟨_, _, rfl, rfl, .inl ⟨rfl, rfl, rfl⟩⟩
  · cases size : server.size global_id with
    | none =>
        have run : get_shared cfg global_id ⟨bytes, ⟨some server, lengthWrapped⟩⟩ =
            .ok (.monostate, ⟨bytes, ⟨some server, lengthWrapped⟩⟩) := by
          simp [get_shared, MemServer.get_buffer, size]
        exact ⟨_, _, run, rfl, .inl ⟨size, rfl, rfl⟩⟩
    | some n =>
        have run : get_shared cfg global_id ⟨bytes, ⟨some server, lengthWrapped⟩⟩ =
            .ok (.buffer (some (.ofShared ⟨n, global_id, true⟩)),
              ⟨bytes, ⟨some ((server.acquire global_id).release global_id),
                lengthWrapped || 2 ^ 32 ≤ n⟩⟩) := by
          simp [get_shared, MemServer.get_buffer, size]
        exact ⟨_, _, run, rfl, .inr ⟨⟨n, global_id, true⟩, size, rfl, rfl⟩⟩

/-! ## Values which own their data -/

theorem reads_none : Reads (unpack_value cfg) Wire.none .monostate :=
  (reads_pure _).prepend unpack_value_none

theorem reads_scalar {t : ElemType} (mem : t ∈ scalarTypes) (v : Word t.size) :
    Reads (unpack_value cfg) (Wire.scalar t v) (.scalar t v) := by
  have scalar : Reads (unpack_scalar cfg t) v.bytes (.scalar t v) := (reads_value v).bind_pure
  exact scalar.prepend (unpack_value_scalar mem)

theorem reads_counted {α : Type} {count : ℕ} {payload : List UInt8} {a : α}
    {read : Word 4 → Unpacker α} (reads : Reads (read (Word.ofNat 4 count)) payload a) :
    Reads (do let count ← read_value 4; read count) (Wire.counted count payload) a :=
  (reads_value _).bind reads

theorem toNat_count {count : ℕ} (lt : count < 2 ^ 32) : (Word.ofNat 4 count).toNat = count :=
  (BitVec.toNat_ofNat _ _).trans (Nat.mod_eq_of_lt lt)

theorem reads_buffer {data : List UInt8} (lt : data.length < 2 ^ 32) :
    Reads (unpack_value cfg) (Wire.buffer data.length data)
      (.buffer (some ⟨Word.ofNat 4 data.length, .unique data⟩)) := by
  have any : Reads (unpack_any cfg)
      ([BufferType.kCopyBuffer.toByte] ++ Wire.counted data.length data)
      (.buffer (some ⟨Word.ofNat 4 data.length, .unique data⟩)) := by
    apply (reads_byte _).bind
    rw [if_pos rfl]
    apply reads_counted
    rw [toNat_count lt]
    exact (reads_take _ data).bind_pure
  exact any.prepend unpack_value_any

/-- The last byte of a string is taken for its terminator. -/
theorem reads_string {data : List UInt8} (nonempty : data ≠ []) (lt : data.length < 2 ^ 32) :
    Reads (unpack_value cfg) (Wire.string data.length data) (.string data.dropLast) := by
  have str : Reads (unpack_str cfg) (Wire.counted data.length data) (.string data.dropLast) := by
    have notZero : Word.ofNat 4 data.length ≠ 0 := by
      intro zero
      have length := congrArg BitVec.toNat zero
      rw [toNat_count lt] at length
      exact nonempty (List.length_eq_zero_iff.mp length)
    apply reads_counted
    simp only [if_neg notZero, toNat_count lt]
    rw [List.dropLast_eq_take]
    apply Reads.bind_pure
    exact reads_take _ data
  exact str.prepend unpack_value_str

theorem reads_tensor {t : ElemType} (nb_dims : Word 1)
    (dims : List.Vector (Word 4) cfg.tensorNbDims) {data : List (Word t.size)}
    (lt : data.length < 2 ^ 32) :
    Reads (unpack_value cfg) (Wire.tensor nb_dims dims.toList t data.length data)
      (.tensor t (some ⟨nb_dims, dims, .unique data⟩)) := by
  have elements : Reads (unpack_tensor cfg t nb_dims dims)
      ([BufferType.kCopyBuffer.toByte] ++ Wire.counted data.length (Wire.words data))
      (.tensor t (some ⟨nb_dims, dims, .unique data⟩)) := by
    apply (reads_byte _).bind
    rw [if_pos rfl]
    apply reads_counted
    apply Reads.bind_pure
    exact reads_elements (toNat_count lt).symm
  have typed : Reads (unpack_elements cfg nb_dims dims)
      (t.tag.toByte :: ([BufferType.kCopyBuffer.toByte] ++
        Wire.counted data.length (Wire.words data)))
      (.tensor t (some ⟨nb_dims, dims, .unique data⟩)) := by
    apply elements.prepend
    intro rest env
    exact firstTag_of_mem (mem_tensorTypes t) _ _ rest env
  have array : Reads (read_array 4 cfg.tensorNbDims)
      (Wire.counted dims.toList.length (Wire.words dims.toList)) dims :=
    reads_dims _ dims
  have tensor : Reads (unpack_any_tensor cfg)
      (nb_dims.bytes ++ (Wire.counted dims.toList.length (Wire.words dims.toList) ++
        t.tag.toByte :: ([BufferType.kCopyBuffer.toByte] ++
          Wire.counted data.length (Wire.words data))))
      (.tensor t (some ⟨nb_dims, dims, .unique data⟩)) := by
    apply (reads_value nb_dims).bind
    exact array.bind typed
  have whole := tensor.prepend unpack_value_tensor
  simpa [Wire.tensor] using whole

/-! ## Messages -/

theorem unpack_header (nodeid event_id : Word 4) (priority_nb : Word 1) (data : List UInt8)
    (env : UnpackEnv) :
    unpack cfg ⟨Wire.header nodeid event_id priority_nb ++ data, env⟩ =
      unpack_data cfg nodeid event_id (priority priority_nb) ⟨data, env⟩ := by
  simp only [Wire.header, List.append_assoc, unpack]
  rw [bind_of_ok (reads_value nodeid _ env), bind_of_ok (reads_value event_id _ env),
    bind_of_ok (reads_value priority_nb _ env)]

theorem priority_number (p : Priority) : priority p.number = p := by
  cases p <;> rfl

/-- The index stays below `CG_MAX_VALUES` when the list is short enough. -/
theorem unpack_values_eq {i n : ℕ} (le : i + n ≤ cfg.maxValues) :
    unpack_values cfg i n = repeatN (unpack_value cfg) n := by
  induction n generalizing i with
  | zero => rfl
  | succ n ih =>
      have lt : i < cfg.maxValues := by omega
      rw [unpack_values, repeatN]
      simp only [if_pos lt]
      rw [ih (by omega)]

end Unpack

end CmsisStream.Events
