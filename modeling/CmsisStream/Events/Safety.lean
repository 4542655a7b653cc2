import CmsisStream.Events.SharedBuffers

/-!
# Reading arbitrary bytes

`Unpack` never compares its position with the size of the message, nor the numbers of the
message with the capacities of the arrays that it fills.  `ReadableMessage` describes the
messages which stay within all the bounds.  A message is well formed when it begins with what
`Pack` writes for an event, whatever is read then.  Most of the messages which are not well
formed are accepted all the same.
-/

namespace CmsisStream.Events

open Codec (Word Stream)
open Codec.Action
open Unpack (scalarTypes Unknown)

variable {cfg : Config}

/-! ## Well formed messages -/

/-- The lengths of the value fit in its message, and a tensor has no more dimensions than the
array of its dimensions. -/
def Value.Sendable : Value cfg → Prop
  | .string s => s.length + 1 < 2 ^ 32
  | .tensor _ (some v) | .constTensor _ (some v) =>
      v.nb_dims.toNat ≤ cfg.tensorNbDims ∧ v.nbElems < 2 ^ 32
  | _ => True

/-- The bytes are what `Pack` writes for an event, and then any bytes. -/
def WellFormedMessage (cfg : Config) (bytes : List UInt8) : Prop :=
  ∃ (nodeid : Word 4) (evt : Event cfg) (network : Bool) (server : MemServer)
    (rest : List UInt8), evt.data.WellFormed server ∧ (∀ v ∈ evt.data.values, v.Sendable) ∧
      bytes = Pack.serialized nodeid evt network (some server) ++ rest

/-! ## Messages within the bounds -/

/-- The size of the buffer which a message announces: none when it announces no bytes, or when
the server does not have the buffer. -/
def announcedBytes (live : Word 4 → Option ℕ) (count global_id : Word 4) : Option ℕ :=
  if count = 0 then none else live global_id

/-- The size of the buffer which a message announces fits in 32 bits. -/
def SmallBuffer (live : Word 4 → Option ℕ) (count global_id : Word 4) : Prop :=
  ∀ bytes ∈ announcedBytes live count global_id, bytes < 2 ^ 32

/-- A tensor after its dimensions, from the first byte to the bytes left.  The boolean says
that the value is empty. -/
inductive ReadableElements (cfg : Config) (live : Word 4 → Option ℕ) (nb_dims : Word 1) :
    Bool → List UInt8 → List UInt8 → Prop
  | copied (t : ElemType) (count : Word 4) (data : List (Word t.size)) (rest : List UInt8)
      (length : data.length = count.toNat) (dims : nb_dims.toNat ≤ cfg.tensorNbDims) :
      ReadableElements cfg live nb_dims false
        (t.tag.toByte :: BufferType.kCopyBuffer.toByte ::
          (count.bytes ++ (Wire.words data ++ rest))) rest
  | shared (t : ElemType) (count global_id : Word 4) (rest : List UInt8)
      (fits : count.toNat * t.size < 2 ^ 32) (small : SmallBuffer live count global_id) :
      ReadableElements cfg live nb_dims (announcedBytes live count global_id).isNone
        (t.tag.toByte :: BufferType.kSharedBuffer.toByte ::
          (count.bytes ++ (global_id.bytes ++ rest))) rest
  | bufferType (t : ElemType) (byte : UInt8) (rest : List UInt8)
      (notCopy : byte ≠ BufferType.kCopyBuffer.toByte)
      (notShared : byte ≠ BufferType.kSharedBuffer.toByte) :
      ReadableElements cfg live nb_dims true (t.tag.toByte :: byte :: rest) rest
  | unknown (byte : UInt8) (rest : List UInt8)
      (notType : ∀ t ∈ Unpack.tensorTypes, byte ≠ t.tag.toByte) :
      ReadableElements cfg live nb_dims true (byte :: rest) (byte :: rest)

/-- A value, from its first byte to the bytes left. -/
inductive ReadableValue (cfg : Config) (live : Word 4 → Option ℕ) :
    Bool → List UInt8 → List UInt8 → Prop
  | none (rest : List UInt8) :
      ReadableValue cfg live true (ValueType.kNone.toByte :: rest) rest
  | scalar (t : ElemType) (v : Word t.size) (rest : List UInt8) (mem : t ∈ scalarTypes) :
      ReadableValue cfg live false (t.tag.toByte :: (v.bytes ++ rest)) rest
  | buffer (count : Word 4) (data rest : List UInt8) (length : data.length = count.toNat) :
      ReadableValue cfg live false
        (ValueType.kAny.toByte :: BufferType.kCopyBuffer.toByte ::
          (count.bytes ++ (data ++ rest))) rest
  | sharedBuffer (count global_id : Word 4) (rest : List UInt8)
      (small : SmallBuffer live count global_id) :
      ReadableValue cfg live (announcedBytes live count global_id).isNone
        (ValueType.kAny.toByte :: BufferType.kSharedBuffer.toByte ::
          (count.bytes ++ (global_id.bytes ++ rest))) rest
  | bufferType (byte : UInt8) (rest : List UInt8)
      (notCopy : byte ≠ BufferType.kCopyBuffer.toByte)
      (notShared : byte ≠ BufferType.kSharedBuffer.toByte) :
      ReadableValue cfg live true (ValueType.kAny.toByte :: byte :: rest) rest
  | string (count : Word 4) (data rest : List UInt8) (length : data.length = count.toNat)
      (nonempty : count ≠ 0) :
      ReadableValue cfg live false (ValueType.kStr.toByte :: (count.bytes ++ (data ++ rest))) rest
  | tensor (nb_dims : Word 1) (n_unused : Word 4)
      (dims : List.Vector (Word 4) cfg.tensorNbDims) (empty : Bool) (elements rest : List UInt8)
      (readable : ReadableElements cfg live nb_dims empty elements rest) :
      ReadableValue cfg live empty
        (ValueType.kTensor.toByte ::
          (nb_dims.bytes ++ (n_unused.bytes ++ (Wire.words dims.toList ++ elements)))) rest
  | unknown (byte : UInt8) (rest : List UInt8) (unknown : Unknown byte) :
      ReadableValue cfg live true (byte :: rest) (byte :: rest)

/-- Some values one after the other. -/
inductive ReadableValues (cfg : Config) (live : Word 4 → Option ℕ) :
    ℕ → List UInt8 → List UInt8 → Prop
  | nil (rest : List UInt8) : ReadableValues cfg live 0 rest rest
  | cons {n : ℕ} {empty : Bool} {bytes middle rest : List UInt8}
      (value : ReadableValue cfg live empty bytes middle)
      (values : ReadableValues cfg live n middle rest) :
      ReadableValues cfg live (n + 1) bytes rest

/-- A message, possibly followed by other bytes.  The boolean says that its event has no value,
which is the error result. -/
inductive ReadableMessage (cfg : Config) (live : Word 4 → Option ℕ) : Bool → List UInt8 → Prop
  | value (nodeid event_id : Word 4) (priority_nb : Word 1) {empty : Bool}
      {bytes rest : List UInt8} (readable : ReadableValue cfg live empty bytes rest) :
      ReadableMessage cfg live empty (Wire.header nodeid event_id priority_nb ++ 0 :: bytes)
  | list (nodeid event_id : Word 4) (priority_nb : Word 1) (nb_values : Word 4)
      {bytes rest : List UInt8} (fits : nb_values.toNat ≤ cfg.maxValues)
      (readable : ReadableValues cfg live nb_values.toNat bytes rest) :
      ReadableMessage cfg live false
        (Wire.header nodeid event_id priority_nb ++ 1 :: (nb_values.bytes ++ bytes))
  | dataCase (nodeid event_id : Word 4) (priority_nb : Word 1) (byte : UInt8)
      (rest : List UInt8) (notValue : byte ≠ 0) (notList : byte ≠ 1) :
      ReadableMessage cfg live true (Wire.header nodeid event_id priority_nb ++ byte :: rest)

/-! ## What a safe run is -/

/-- The value is not a tensor of more than `CG_TENSOR_NB_DIMS` dimensions. -/
def Value.FitsDims : Value cfg → Prop
  | .tensor _ (some v) | .constTensor _ (some v) => v.nb_dims.toNat ≤ cfg.tensorNbDims
  | _ => True

/-- The error result: an event without a value, as `unpack` returns it for an unknown data case. -/
def EventData.NoValue (data : EventData cfg) : Prop := data = .value .monostate

/-- `unpack` reads and writes within its bounds, computes no wrapped length, accepts no
tensor with too many dimensions, and gives its error result if the message is malformed. -/
def SafelyUnpacked (cfg : Config) (mem_server : Option MemServer) (bytes : List UInt8) : Prop :=
  ∃ nodeid evt stream,
    Unpack.unpack cfg ⟨bytes, ⟨mem_server, false⟩⟩ = .ok ((nodeid, evt), stream) ∧
      stream.env.lengthWrapped = false ∧ (∀ v ∈ evt.data.values, v.FitsDims) ∧
      (¬WellFormedMessage cfg bytes → evt.data.NoValue)

/-- What reading a value within the bounds does: the server keeps its buffers, no length is
wrapped, and the value fits. -/
structure ReadsValue (env : UnpackEnv) (empty : Bool) (v : Value cfg) (env' : UnpackEnv) :
    Prop where
  live : env'.live = env.live
  lengthWrapped : env'.lengthWrapped = env.lengthWrapped
  fitsDims : v.FitsDims
  isEmpty : empty = true → v = .monostate

/-- A run has given a value within the bounds. -/
def GivesValue (result : Except Fault (Value cfg × Stream UnpackEnv)) (env : UnpackEnv)
    (empty : Bool) (rest : List UInt8) : Prop :=
  ∃ v env', result = .ok (v, ⟨rest, env'⟩) ∧ ReadsValue env empty v env'

/-- A run which has wrapped no length started like this, and has kept the buffers of the server. -/
structure KeptBounds (env : UnpackEnv) (env' : UnpackEnv) : Prop where
  live : env'.live = env.live
  notWrapped : env.lengthWrapped = false

theorem KeptBounds.refl {env : UnpackEnv} (notWrapped : env.lengthWrapped = false) :
    KeptBounds env env := ⟨rfl, notWrapped⟩

namespace Unpack

/-- A small buffer which the message announces is given. -/
theorem announced_gives {count global_id : Word 4} {env : UnpackEnv}
    (small : SmallBuffer env.live count global_id) (rest : List UInt8) :
    GivesValue ((if count = 0 then pure .monostate else get_shared cfg global_id) ⟨rest, env⟩)
      env (announcedBytes env.live count global_id).isNone rest := by
  unfold SmallBuffer announcedBytes at *
  split
  · exact ⟨_, _, rfl, rfl, rfl, trivial, fun _ => rfl⟩
  · rename_i nonempty
    simp only [if_neg nonempty] at small
    rcases get_shared_spec cfg global_id rest env with
      ⟨v, env', run, live, ⟨-, rfl, same⟩ | ⟨fd, found, rfl, wrapped⟩⟩
    · exact ⟨_, _, run, live, same, trivial, fun _ => rfl⟩
    · refine ⟨_, _, run, live, ?_, trivial, by simp [found]⟩
      rw [wrapped, decide_eq_false (small fd.bytes found).not_ge, Bool.or_false]

theorem elements_of_readable {nb_dims : Word 1} {empty : Bool} {bytes rest : List UInt8}
    {env : UnpackEnv} (readable : ReadableElements cfg env.live nb_dims empty bytes rest)
    (dims : List.Vector (Word 4) cfg.tensorNbDims) :
    GivesValue (unpack_elements cfg nb_dims dims ⟨bytes, env⟩) env empty rest := by
  cases readable with
  | copied t count data _ length nbDims =>
      rw [unpack_elements, firstTag_of_mem (mem_tensorTypes t), unpack_tensor,
        bind_of_ok (read_byte_cons _ _ env), if_pos rfl, bind_of_ok (reads_value count _ env),
        bind_of_ok (reads_elements length rest env)]
      exact ⟨_, _, rfl, rfl, rfl, nbDims, by simp⟩
  | shared t count global_id _ fits small =>
      rw [unpack_elements, firstTag_of_mem (mem_tensorTypes t), unpack_tensor,
        bind_of_ok (read_byte_cons _ _ env), if_neg (by decide), if_pos rfl,
        bind_of_ok (reads_value count _ env), bind_of_ok (reads_value global_id _ env),
        bind_of_ok (computeLength_of_lt fits rest env)]
      exact announced_gives small rest
  | bufferType t byte _ notCopy notShared =>
      rw [unpack_elements, firstTag_of_mem (mem_tensorTypes t), unpack_tensor,
        bind_of_ok (read_byte_cons _ _ env), if_neg notCopy, if_neg notShared]
      exact ⟨_, _, rfl, rfl, rfl, trivial, fun _ => rfl⟩
  | unknown byte rest notType =>
      rw [unpack_elements, firstTag_of_not_mem notType]
      exact ⟨_, _, rfl, rfl, rfl, trivial, fun _ => rfl⟩

theorem value_of_readable {empty : Bool} {bytes rest : List UInt8} {env : UnpackEnv}
    (readable : ReadableValue cfg env.live empty bytes rest) :
    GivesValue (unpack_value cfg ⟨bytes, env⟩) env empty rest := by
  cases readable with
  | none =>
      rw [unpack_value_none]
      exact ⟨_, _, rfl, rfl, rfl, trivial, fun _ => rfl⟩
  | scalar t v _ mem =>
      rw [unpack_value_scalar mem, unpack_scalar, bind_of_ok (reads_value v _ env)]
      exact ⟨_, _, rfl, rfl, rfl, trivial, by simp⟩
  | buffer count data _ length =>
      rw [unpack_value_any, unpack_any, bind_of_ok (read_byte_cons _ _ env), if_pos rfl,
        bind_of_ok (reads_value count _ env), ← length, make_raw_buffer,
        bind_of_ok (reads_take _ data _ env)]
      exact ⟨_, _, rfl, rfl, rfl, trivial, by simp⟩
  | sharedBuffer count global_id _ small =>
      rw [unpack_value_any, unpack_any, bind_of_ok (read_byte_cons _ _ env),
        if_neg (by decide), if_pos rfl, bind_of_ok (reads_value count _ env),
        bind_of_ok (reads_value global_id _ env)]
      exact announced_gives small rest
  | bufferType byte _ notCopy notShared =>
      rw [unpack_value_any, unpack_any, bind_of_ok (read_byte_cons _ _ env), if_neg notCopy,
        if_neg notShared]
      exact ⟨_, _, rfl, rfl, rfl, trivial, fun _ => rfl⟩
  | string count data _ length nonempty =>
      rw [unpack_value_str, unpack_str, bind_of_ok (reads_value count _ env), ← length,
        make_raw_buffer, bind_of_ok (reads_take _ data _ env), if_neg nonempty]
      exact ⟨_, _, rfl, rfl, rfl, trivial, by simp⟩
  | tensor nb_dims n_unused dims empty elements _ readable =>
      rw [unpack_value_tensor, unpack_any_tensor, bind_of_ok (reads_value nb_dims _ env),
        ← List.append_assoc, bind_of_ok (reads_dims n_unused dims _ env)]
      exact elements_of_readable readable dims
  | unknown byte _ unknown =>
      rw [unpack_value_unknown unknown]
      exact ⟨_, _, rfl, rfl, rfl, trivial, fun _ => rfl⟩

theorem values_of_readable {live : Word 4 → Option ℕ} {n : ℕ} {bytes rest : List UInt8}
    (readable : ReadableValues cfg live n bytes rest) {i : ℕ} (fits : i + n ≤ cfg.maxValues)
    {env : UnpackEnv} (isLive : env.live = live) :
    ∃ values env', unpack_values cfg i n ⟨bytes, env⟩ = .ok (values, ⟨rest, env'⟩) ∧
      env'.lengthWrapped = env.lengthWrapped ∧ ∀ v ∈ values, v.FitsDims := by
  induction readable generalizing i env with
  | nil rest => exact ⟨[], env, rfl, rfl, by simp⟩
  | @cons n empty bytes middle rest value values ih =>
      subst isLive
      have lt : i < cfg.maxValues := by omega
      rcases value_of_readable value with ⟨v, env', readValue, reads⟩
      rcases @ih (i + 1) (by omega) env' reads.live with
        ⟨vs, env'', readValues, same, fitsDims⟩
      refine ⟨v :: vs, env'', ?_, same.trans reads.lengthWrapped, ?_⟩
      · rw [unpack_values, bind_of_ok readValue, if_pos lt, bind_of_ok readValues]
        rfl
      · exact List.forall_mem_cons.mpr ⟨reads.fitsDims, fitsDims⟩

/-! ## Only messages within the bounds are read -/

/-- No length has wrapped when the buffer of a message was found, and it was not if there is no
value. -/
theorem small_of_announced {global_id count : Word 4} {bytes : List UInt8} {env : UnpackEnv}
    {v : Value cfg} {stream : Stream UnpackEnv}
    (run : (if count = 0 then pure .monostate else get_shared cfg global_id) ⟨bytes, env⟩ =
      .ok (v, stream)) (notWrapped : stream.env.lengthWrapped = false) :
    KeptBounds env stream.env ∧ stream.bytes = bytes ∧ SmallBuffer env.live count global_id ∧
      (v = .monostate → (announcedBytes env.live count global_id).isNone = true) := by
  unfold SmallBuffer announcedBytes
  split at run
  · rename_i none
    cases run
    exact ⟨.refl notWrapped, rfl, by simp [none], by simp [none]⟩
  · rename_i nonempty
    simp only [if_neg nonempty]
    rcases get_shared_spec cfg global_id bytes env with
      ⟨w, env', gives, live, ⟨missing, rfl, same⟩ | ⟨fd, found, rfl, wrapped⟩⟩
    all_goals
      rw [gives] at run
      cases run
    · exact ⟨⟨live, same ▸ notWrapped⟩, rfl, by simp [missing], by simp [missing]⟩
    · have both := wrapped.symm.trans notWrapped
      rw [Bool.or_eq_false_iff, decide_eq_false_iff_not, not_le] at both
      refine ⟨⟨live, both.1⟩, rfl, ?_, by simp⟩
      rw [found]
      rintro bytes ⟨⟩
      exact both.2

theorem readable_of_elements {nb_dims : Word 1} {dims : List.Vector (Word 4) cfg.tensorNbDims}
    {bytes : List UInt8} {env : UnpackEnv} {v : Value cfg} {stream : Stream UnpackEnv}
    (run : unpack_elements cfg nb_dims dims ⟨bytes, env⟩ = .ok (v, stream))
    (notWrapped : stream.env.lengthWrapped = false) (fitsDims : v.FitsDims) :
    KeptBounds env stream.env ∧ ∃ empty,
      ReadableElements cfg env.live nb_dims empty bytes stream.bytes ∧
        (v = .monostate → empty = true) := by
  rcases firstTag_eq_ok run with ⟨byte, rest, rfl, ⟨t, mem, rfl, run⟩ | ⟨notType, last⟩⟩
  · rcases bind_eq_ok.mp run with ⟨buffer_type, _, readType, run⟩
    rcases consumes_byte _ _ _ _ readType with ⟨rest, rfl, rfl⟩
    split at run
    · rename_i copy
      rcases bind_eq_ok.mp run with ⟨nb, _, readCount, run⟩
      rcases consumes_value 4 _ _ _ _ readCount with ⟨rest, rfl, rfl⟩
      rcases bind_eq_ok.mp run with ⟨data, _, readData, last⟩
      have length := length_repeatN readData
      rcases consumes_repeatN (consumes_value t.size) _ _ _ _ _ readData with ⟨rest, rfl, rfl⟩
      cases last
      rw [copy]
      exact ⟨.refl notWrapped, false, .copied t nb data rest length fitsDims, by simp⟩
    split at run
    · rename_i shared
      rcases bind_eq_ok.mp run with ⟨nb_elems, _, readCount, run⟩
      rcases consumes_value 4 _ _ _ _ readCount with ⟨rest, rfl, rfl⟩
      rcases bind_eq_ok.mp run with ⟨global_id, _, readId, run⟩
      rcases consumes_value 4 _ _ _ _ readId with ⟨rest, rfl, rfl⟩
      rw [bind_of_ok (computeLength_apply _ _ env)] at run
      rcases small_of_announced run notWrapped with ⟨⟨live, before⟩, left, small, none⟩
      rw [Bool.or_eq_false_iff, decide_eq_false_iff_not, not_le] at before
      rw [shared, left]
      exact ⟨⟨live, before.1⟩, _, .shared t nb_elems global_id rest before.2 small, none⟩
    · rename_i notCopy notShared
      cases run
      exact ⟨.refl notWrapped, true, .bufferType t buffer_type rest notCopy notShared, by simp⟩
  · cases last
    exact ⟨.refl notWrapped, true, .unknown byte rest notType, by simp⟩

theorem readable_of_value {bytes : List UInt8} {env : UnpackEnv} {v : Value cfg}
    {stream : Stream UnpackEnv} (run : unpack_value cfg ⟨bytes, env⟩ = .ok (v, stream))
    (notWrapped : stream.env.lengthWrapped = false) (fitsDims : v.FitsDims) :
    KeptBounds env stream.env ∧ ∃ empty,
      ReadableValue cfg env.live empty bytes stream.bytes ∧ (v = .monostate → empty = true) := by
  rcases bytes with _ | ⟨byte, bytes⟩
  · rw [unpack_value_nil] at run
    cases run
  rcases tag_cases byte with rfl | ⟨t, mem, rfl⟩ | rfl | rfl | rfl | unknown
  · rw [unpack_value_none] at run
    cases run
    exact ⟨.refl notWrapped, true, .none bytes, by simp⟩
  · rw [unpack_value_scalar mem] at run
    rcases bind_eq_ok.mp run with ⟨w, _, readWord, last⟩
    rcases consumes_value _ _ _ _ _ readWord with ⟨rest, rfl, rfl⟩
    cases last
    exact ⟨.refl notWrapped, false, .scalar t w rest mem, by simp⟩
  · rw [unpack_value_any] at run
    rcases bind_eq_ok.mp run with ⟨buf_type, _, readType, run⟩
    rcases consumes_byte _ _ _ _ readType with ⟨rest, rfl, rfl⟩
    split at run
    · rename_i copy
      rcases bind_eq_ok.mp run with ⟨buf_size, _, readCount, run⟩
      rcases consumes_value 4 _ _ _ _ readCount with ⟨rest, rfl, rfl⟩
      rcases bind_eq_ok.mp run with ⟨data, _, readData, last⟩
      have length := (consumes_take _ _).2 _ _ _ _ readData
      rcases (consumes_take _ _).1 _ _ _ _ readData with ⟨rest, rfl, rfl⟩
      cases last
      rw [copy]
      exact ⟨.refl notWrapped, false, .buffer buf_size data rest length, by simp⟩
    split at run
    · rename_i shared
      rcases bind_eq_ok.mp run with ⟨buf_size, _, readCount, run⟩
      rcases consumes_value 4 _ _ _ _ readCount with ⟨rest, rfl, rfl⟩
      rcases bind_eq_ok.mp run with ⟨global_id, _, readId, run⟩
      rcases consumes_value 4 _ _ _ _ readId with ⟨rest, rfl, rfl⟩
      rcases small_of_announced run notWrapped with ⟨kept, left, small, none⟩
      rw [shared, left]
      exact ⟨kept, _, .sharedBuffer buf_size global_id rest small, none⟩
    · rename_i notCopy notShared
      cases run
      exact ⟨.refl notWrapped, true, .bufferType buf_type rest notCopy notShared, by simp⟩
  · rw [unpack_value_str] at run
    rcases bind_eq_ok.mp run with ⟨str_size, _, readCount, run⟩
    rcases consumes_value 4 _ _ _ _ readCount with ⟨rest, rfl, rfl⟩
    rcases bind_eq_ok.mp run with ⟨data, _, readData, run⟩
    have length := (consumes_take _ _).2 _ _ _ _ readData
    rcases (consumes_take _ _).1 _ _ _ _ readData with ⟨rest, rfl, rfl⟩
    split at run
    · cases run
    · rename_i nonempty
      cases run
      exact ⟨.refl notWrapped, false, .string str_size data rest length nonempty, by simp⟩
  · rw [unpack_value_tensor] at run
    rcases bind_eq_ok.mp run with ⟨nb_dims, _, readDims, run⟩
    rcases consumes_value 1 _ _ _ _ readDims with ⟨rest, rfl, rfl⟩
    rcases bind_eq_ok.mp run with ⟨dims, _, readArray, run⟩
    rcases bind_eq_ok.mp readArray with ⟨n_unused, _, readCount, readArray⟩
    rcases consumes_value 4 _ _ _ _ readCount with ⟨rest, rfl, rfl⟩
    rcases consumes_array (consumes_value 4) _ _ _ _ _ readArray with ⟨rest, rfl, rfl⟩
    rcases readable_of_elements run notWrapped fitsDims with ⟨kept, empty, readable, none⟩
    exact ⟨kept, empty, .tensor nb_dims n_unused dims empty rest _ readable, none⟩
  · rw [unpack_value_unknown unknown] at run
    cases run
    exact ⟨.refl notWrapped, true, .unknown byte bytes unknown, by simp⟩

theorem readable_of_values {i n : ℕ} {bytes : List UInt8} {env : UnpackEnv}
    {values : List (Value cfg)} {stream : Stream UnpackEnv}
    (run : unpack_values cfg i n ⟨bytes, env⟩ = .ok (values, stream))
    (notWrapped : stream.env.lengthWrapped = false) (fitsDims : ∀ v ∈ values, v.FitsDims) :
    (n = 0 ∨ i + n ≤ cfg.maxValues) ∧ KeptBounds env stream.env ∧
      ReadableValues cfg env.live n bytes stream.bytes := by
  induction n generalizing i bytes env values with
  | zero =>
      cases run
      exact ⟨.inl rfl, .refl notWrapped, .nil bytes⟩
  | succ n ih =>
      rcases bind_eq_ok.mp run with ⟨v, ⟨middle, env'⟩, readValue, run⟩
      split at run
      · rename_i lt
        rcases bind_eq_ok.mp run with ⟨others, _, readOthers, last⟩
        cases last
        rcases List.forall_mem_cons.mp fitsDims with ⟨fitsFirst, fitsOthers⟩
        rcases ih readOthers fitsOthers with ⟨le, kept, readable⟩
        rcases readable_of_value readValue kept.notWrapped fitsFirst with
          ⟨keptFirst, empty, readableFirst, -⟩
        have live : env'.live = env.live := keptFirst.live
        rw [live] at readable
        exact ⟨by omega, ⟨kept.live.trans live, keptFirst.notWrapped⟩,
          .cons readableFirst readable⟩
      · cases run

end Unpack

/-! ## Safe runs -/

section Safe

variable {mem_server : Option MemServer} {bytes : List UInt8}

/-- A message within the bounds is read, and has no value where it is said. -/
theorem unpack_of_readable {empty : Bool}
    (readable : ReadableMessage cfg (UnpackEnv.live ⟨mem_server, false⟩) empty bytes) :
    ∃ nodeid evt stream,
      Unpack.unpack cfg ⟨bytes, ⟨mem_server, false⟩⟩ = .ok ((nodeid, evt), stream) ∧
        stream.env.lengthWrapped = false ∧ (∀ v ∈ evt.data.values, v.FitsDims) ∧
        (empty = true → evt.data.NoValue) := by
  cases readable with
  | @value nodeid event_id priority_nb _ data rest readable =>
      rcases Unpack.value_of_readable readable with ⟨v, env, run, reads⟩
      refine ⟨nodeid, ⟨event_id, Unpack.priority priority_nb, .value v, 0⟩, ⟨rest, env⟩, ?_,
        reads.lengthWrapped, ?_, ?_⟩
      · rw [Unpack.unpack_header, Unpack.unpack_data,
          bind_of_ok (Unpack.read_byte_cons 0 _ _), if_pos rfl, bind_of_ok run]
        rfl
      · exact List.forall_mem_singleton.mpr reads.fitsDims
      · exact fun isEmpty => congrArg EventData.value (reads.isEmpty isEmpty)
  | @list nodeid event_id priority_nb nb_values data rest fits readable =>
      rcases Unpack.values_of_readable readable (i := 0) (by omega) rfl with
        ⟨values, env, run, same, fitsDims⟩
      refine ⟨nodeid, ⟨event_id, Unpack.priority priority_nb, .list values, 0⟩, ⟨rest, env⟩, ?_,
        same, fitsDims, by simp⟩
      rw [Unpack.unpack_header, Unpack.unpack_data,
        bind_of_ok (Unpack.read_byte_cons 1 _ _), if_neg (by decide), if_pos rfl,
        bind_of_ok (Unpack.reads_value nb_values _ _), bind_of_ok run]
      rfl
  | dataCase nodeid event_id priority_nb byte rest notValue notList =>
      refine ⟨nodeid, ⟨kDo, Unpack.priority priority_nb, .value .monostate, 0⟩,
        ⟨rest, ⟨mem_server, false⟩⟩, ?_, rfl, ?_, fun _ => rfl⟩
      · rw [Unpack.unpack_header, Unpack.unpack_data,
          bind_of_ok (Unpack.read_byte_cons byte _ _), if_neg notValue, if_neg notList]
        rfl
      · exact List.forall_mem_singleton.mpr trivial

/-- Only messages within the bounds are read within the bounds. -/
theorem readable_of_unpack {nodeid : Word 4} {evt : Event cfg} {stream : Stream UnpackEnv}
    (run : Unpack.unpack cfg ⟨bytes, ⟨mem_server, false⟩⟩ = .ok ((nodeid, evt), stream))
    (notWrapped : stream.env.lengthWrapped = false)
    (fitsDims : ∀ v ∈ evt.data.values, v.FitsDims) :
    ∃ empty, ReadableMessage cfg (UnpackEnv.live ⟨mem_server, false⟩) empty bytes ∧
      (evt.data.NoValue → empty = true) := by
  rcases bind_eq_ok.mp run with ⟨nodeid, _, readNode, run⟩
  rcases Unpack.consumes_value 4 _ _ _ _ readNode with ⟨rest, rfl, rfl⟩
  rcases bind_eq_ok.mp run with ⟨event_id, _, readId, run⟩
  rcases Unpack.consumes_value 4 _ _ _ _ readId with ⟨rest, rfl, rfl⟩
  rcases bind_eq_ok.mp run with ⟨priority_nb, _, readPriority, run⟩
  rcases Unpack.consumes_value 1 _ _ _ _ readPriority with ⟨rest, rfl, rfl⟩
  rcases bind_eq_ok.mp run with ⟨dataCase, _, readCase, run⟩
  rcases Unpack.consumes_byte _ _ _ _ readCase with ⟨rest, rfl, rfl⟩
  have header : ∀ data, nodeid.bytes ++ (event_id.bytes ++ (priority_nb.bytes ++ data)) =
      Wire.header nodeid event_id priority_nb ++ data := by
    intro data
    simp [Wire.header]
  rw [header]
  split at run
  · rename_i isValue
    rcases bind_eq_ok.mp run with ⟨v, _, readValue, last⟩
    cases last
    rcases Unpack.readable_of_value readValue notWrapped (fitsDims v List.mem_cons_self) with
      ⟨-, empty, readable, none⟩
    rw [isValue]
    exact ⟨empty, .value nodeid event_id priority_nb readable,
      fun noValue => none (EventData.value.inj noValue)⟩
  split at run
  · rename_i isList
    rcases bind_eq_ok.mp run with ⟨nb_values, _, readCount, run⟩
    rcases Unpack.consumes_value 4 _ _ _ _ readCount with ⟨rest, rfl, rfl⟩
    rcases bind_eq_ok.mp run with ⟨values, _, readValues, last⟩
    cases last
    rcases Unpack.readable_of_values readValues notWrapped fitsDims with ⟨fits, -, readable⟩
    rw [isList]
    exact ⟨false, .list nodeid event_id priority_nb nb_values (by omega) readable, by
      rintro ⟨⟩⟩
  · rename_i notValue notList
    exact ⟨true, .dataCase nodeid event_id priority_nb dataCase rest notValue notList, by simp⟩

/-- A run of `unpack` is safe exactly on the messages which stay within the bounds and are what
`Pack` writes, or have no value. -/
theorem safelyUnpacked_iff (mem_server : Option MemServer) (bytes : List UInt8) :
    SafelyUnpacked cfg mem_server bytes ↔
      ∃ empty, ReadableMessage cfg (UnpackEnv.live ⟨mem_server, false⟩) empty bytes ∧
        (WellFormedMessage cfg bytes ∨ empty = true) := by
  constructor
  · rintro ⟨nodeid, evt, stream, run, notWrapped, fitsDims, error⟩
    rcases readable_of_unpack run notWrapped fitsDims with ⟨empty, readable, none⟩
    refine ⟨empty, readable, ?_⟩
    by_cases wellFormed : WellFormedMessage cfg bytes
    · exact .inl wellFormed
    · exact .inr (none (error wellFormed))
  · rintro ⟨empty, readable, wellFormed | isEmpty⟩
    · rcases unpack_of_readable readable with
        ⟨nodeid, evt, stream, run, notWrapped, fitsDims, -⟩
      exact ⟨nodeid, evt, stream, run, notWrapped, fitsDims, fun malformed =>
        absurd wellFormed malformed⟩
    · rcases unpack_of_readable readable with
        ⟨nodeid, evt, stream, run, notWrapped, fitsDims, none⟩
      exact ⟨nodeid, evt, stream, run, notWrapped, fitsDims, fun _ => none isEmpty⟩

end Safe

/-- What `Pack` writes for an event which owns its data is read safely, when all its values can be
decoded. -/
theorem safelyUnpacked_of_owned {evt : Event cfg} (owned : evt.data.Owned)
    (decodable : ∀ v ∈ evt.data.values, v.Decodable) (sendable : ∀ v ∈ evt.data.values, v.Sendable)
    (nodeid : Word 4) (mem_server : Option MemServer) (rest : List UInt8) :
    SafelyUnpacked cfg mem_server (evt.wire nodeid ++ rest) := by
  have wellFormed : WellFormedMessage cfg (evt.wire nodeid ++ rest) := by
    refine ⟨nodeid, evt, false, ⟨fun _ => none, fun _ => 0⟩, rest, ?_, sendable, ?_⟩
    · cases isData : evt.data with
      | value v => exact .inl (isData ▸ owned : (EventData.value v).Owned)
      | list values =>
          have ownsAll : (EventData.list values).Owned := isData ▸ owned
          exact ⟨ownsAll.1, fun v mem => .inl (ownsAll.2 v mem)⟩
    · rw [Pack.serialized_eq owned]
  refine ⟨nodeid, ⟨evt.event_id, evt.priority, evt.data.unconst, 0⟩, ⟨rest, ⟨mem_server, false⟩⟩,
    ?_, rfl, ?_, fun malformed => absurd wellFormed malformed⟩
  · rw [Event.wire, List.append_assoc, Unpack.unpack_header, Unpack.priority_number]
    exact Unpack.reads_data owned decodable rest _
  · have fitsDims : ∀ v ∈ evt.data.values, v.unconst.FitsDims := by
      intro v mem
      have fits := sendable v mem
      cases v with
      | tensor t handle | constTensor t handle =>
          cases handle with
          | none => trivial
          | some tensor => exact fits.1
      | _ => trivial
    cases isData : evt.data with
    | value v =>
        rw [isData] at fitsDims
        exact List.forall_mem_singleton.mpr (fitsDims v List.mem_cons_self)
    | list values =>
        rw [isData] at fitsDims
        exact List.forall_mem_map.mpr fitsDims

/-- The first nine bytes of a message. -/
def truncatedMessage : List UInt8 := [5, 0, 0, 0, 100, 0, 0, 0, 1]

theorem truncatedMessage_not_safe :
    ¬SafelyUnpacked .default none truncatedMessage := by
  rintro ⟨nodeid, evt, stream, run, -⟩
  have outOfBounds : Unpack.unpack .default ⟨truncatedMessage, ⟨none, false⟩⟩ =
      .error .outOfBounds := rfl
  rw [outOfBounds] at run
  cases run

end CmsisStream.Events
