import CmsisStream.Events.Wire

/-!
# `Pack`

The model of the class `Pack` follows its functions one by one, and is then shown to write
the bytes of the format.  The state of its surroundings is the memory server, of which it
acquires the buffers that it sends.
-/

namespace CmsisStream.Events

open Codec (Word Action)
open Codec.Action

/-- `Pack` has no error of its own. -/
abbrev Packer := Action (Option MemServer) Empty

namespace Pack

variable {cfg : Config}

def write_byte (res : UInt8) : Packer Unit := emit [res]

/-- `write_value` -/
def write_value {n : ℕ} (res : Word n) : Packer Unit := emit res.bytes

/-- `pack_array`, from a pointer to at least `nbelems` elements. -/
def pack_array {n : ℕ} (d : List (Word n)) (nbelems : ℕ) : Packer Unit := do
  write_value (Word.ofNat 4 nbelems)
  emit (Wire.words (d.take nbelems))

/-- `pack_array` of `uint8_t` -/
def pack_bytes (d : List UInt8) (nbelems : ℕ) : Packer Unit := do
  write_value (Word.ofNat 4 nbelems)
  emit (d.take nbelems)

/-- `MemServer::acquire`, if there is a server. -/
def acquire (global_id : Word 4) : Packer Unit :=
  modify fun stream => { stream with env := stream.env.map (·.acquire global_id) }

def pack_shared (buf : Option Descriptor) (nbelems : ℕ) (network : Bool) : Packer Unit := do
  match buf with
  | some fd =>
      if fd.isValid then
        write_value (Word.ofNat 4 nbelems)
        write_value fd.global_id
        if !network then acquire fd.global_id
      else
        write_value (0 : Word 4)
        write_value (-1 : Word 4)
  | none =>
      write_value (0 : Word 4)
      write_value (-1 : Word 4)

/-- `pack_tensor` and `pack_const_tensor` -/
def pack_tensor (t : ElemType) (handle : Option (Tensor cfg t)) (network : Bool) :
    Packer Unit := do
  write_byte ValueType.kTensor.toByte
  match handle with
  | none => pure ()
  | some v =>
      write_value v.nb_dims
      pack_array v.dims.toList cfg.tensorNbDims
      write_byte t.tag.toByte
      match v.data with
      | .shared buf =>
          write_byte BufferType.kSharedBuffer.toByte
          pack_shared buf v.size network
      | .unique buf =>
          write_byte BufferType.kCopyBuffer.toByte
          pack_array buf v.size

/-- `pack(const cg_value &, bool)` -/
def pack_value (network : Bool) (val : Value cfg) : Packer Unit := do
  match val with
  | .monostate => write_byte ValueType.kNone.toByte
  | .scalar t res =>
      write_byte t.tag.toByte
      write_value res
  | .buffer handle =>
      write_byte ValueType.kAny.toByte
      match handle with
      | none => pure ()
      | some v =>
          match v.data with
          | .unique buf =>
              write_byte BufferType.kCopyBuffer.toByte
              pack_bytes buf v.buf_size.toNat
          | .shared buf =>
              write_byte BufferType.kSharedBuffer.toByte
              pack_shared buf v.buf_size.toNat network
  | .string s =>
      write_byte ValueType.kStr.toByte
      pack_bytes (s ++ [0]) (s.length + 1)
  | .tensor t handle => pack_tensor t handle network
  | .constTensor t handle => pack_tensor t handle network

/-- `Pack::pack` -/
def pack (nodeid : Word 4) (evt : Event cfg) (network : Bool) : Packer Unit := do
  write_value nodeid
  write_value evt.event_id
  write_value evt.priority.number
  match evt.data with
  | .value val =>
      write_byte 0
      pack_value network val
  | .list values =>
      write_byte 1
      write_value (Word.ofNat 4 values.length)
      values.forM (pack_value network)

end Pack

/-- The serialized object of a new `Pack` after `pack`. -/
def Pack.serialized {cfg : Config} (nodeid : Word 4) (evt : Event cfg) (network : Bool)
    (mem_server : Option MemServer) : List UInt8 :=
  match Pack.pack nodeid evt network ⟨[], mem_server⟩ with
  | .ok (_, stream) => stream.bytes
  | .error e => nomatch e

/-! ## Events which own their data -/

namespace Value

variable {cfg : Config}

/-- The value is well formed, and the buffer that it may hold is its own. -/
def Owned : Value cfg → Prop
  | .monostate | .scalar _ _ | .string _ => True
  | .buffer handle => ∃ size data, handle = some ⟨size, .unique data⟩ ∧ data.length = size.toNat
  | .tensor _ handle | .constTensor _ handle =>
      ∃ v data, handle = some v ∧ v.data = .unique data ∧ data.length = v.nbElems ∧
        v.nb_dims.toNat ≤ cfg.tensorNbDims

/-- The bytes of a tensor which owns its data. -/
def tensorWire {t : ElemType} : Option (Tensor cfg t) → List UInt8
  | some ⟨nb_dims, dims, .unique data⟩ =>
      Wire.tensor nb_dims dims.toList t (Tensor.size ⟨nb_dims, dims, .unique data⟩)
        (data.take (Tensor.size ⟨nb_dims, dims, .unique data⟩))
  | _ => []

/-- The bytes of a value which owns its data. -/
def wire : Value cfg → List UInt8
  | .monostate => Wire.none
  | .scalar t v => Wire.scalar t v
  | .buffer (some ⟨size, .unique data⟩) => Wire.buffer size.toNat data
  | .buffer _ => []
  | .string s => Wire.string (s.length + 1) (s ++ [0])
  | .tensor _ handle | .constTensor _ handle => tensorWire handle

end Value

namespace EventData

variable {cfg : Config}

/-- The data of an event which owns its data, in a list short enough for `ListValue`. -/
def Owned : EventData cfg → Prop
  | .value v => v.Owned
  | .list values => values.length ≤ cfg.maxValues ∧ ∀ v ∈ values, v.Owned

/-- The bytes after the priority. -/
def wire : EventData cfg → List UInt8
  | .value v => 0 :: v.wire
  | .list values => 1 :: Wire.counted values.length (values.flatMap Value.wire)

end EventData

/-- The bytes of an event which owns its data. -/
def Event.wire {cfg : Config} (nodeid : Word 4) (evt : Event cfg) : List UInt8 :=
  Wire.header nodeid evt.event_id evt.priority.number ++ evt.data.wire

namespace Pack

variable {cfg : Config}

theorem writes_array {n : ℕ} (d : List (Word n)) (nbelems : ℕ) :
    Writes (pack_array d nbelems) (Wire.counted nbelems (Wire.words (d.take nbelems))) := by
  apply Writes.andThen
  · apply writes_emit
  · apply writes_emit

theorem writes_bytes (d : List UInt8) :
    Writes (pack_bytes d d.length) (Wire.counted d.length d) := by
  have written : Writes (pack_bytes d d.length) (Wire.counted d.length (d.take d.length)) := by
    apply Writes.andThen
    · apply writes_emit
    · apply writes_emit
  rwa [List.take_length] at written

theorem writes_tensor {t : ElemType} {v : Tensor cfg t} {data : List (Word t.size)}
    (owned : v.data = .unique data) (network : Bool) :
    Writes (pack_tensor t (some v) network) (Value.tensorWire (some v)) := by
  rcases v with ⟨nb_dims, dims, storage⟩
  cases owned
  have writesDims := writes_array dims.toList cfg.tensorNbDims
  rw [List.take_of_length_le (by simp)] at writesDims
  have written : Writes (pack_tensor t (some ⟨nb_dims, dims, .unique data⟩) network)
      ([ValueType.kTensor.toByte] ++ (nb_dims.bytes ++
        (Wire.counted cfg.tensorNbDims (Wire.words dims.toList) ++ ([t.tag.toByte] ++
          ([BufferType.kCopyBuffer.toByte] ++
            Wire.counted (Tensor.size ⟨nb_dims, dims, .unique data⟩)
              (Wire.words (data.take (Tensor.size ⟨nb_dims, dims, .unique data⟩)))))))) := by
    apply (writes_emit _).andThen
    apply (writes_emit _).andThen
    apply writesDims.andThen
    apply (writes_emit _).andThen
    apply (writes_emit _).andThen
    apply writes_array
  simpa [Value.tensorWire, Wire.tensor] using written

theorem writes_value {val : Value cfg} (owned : val.Owned) (network : Bool) :
    Writes (pack_value network val) val.wire := by
  cases val with
  | monostate => apply writes_emit
  | scalar t res =>
      apply (writes_emit [t.tag.toByte]).andThen
      apply writes_emit
  | buffer handle =>
      rcases owned with ⟨size, data, rfl, length⟩
      simp only [Value.wire, ← length]
      have bytes := writes_bytes data
      rw [length] at bytes
      apply (writes_emit [ValueType.kAny.toByte]).andThen
      apply (writes_emit [BufferType.kCopyBuffer.toByte]).andThen
      rwa [length]
  | string s =>
      have bytes := writes_bytes (s ++ [0])
      rw [List.length_append] at bytes
      apply (writes_emit [ValueType.kStr.toByte]).andThen
      exact bytes
  | tensor t handle =>
      rcases owned with ⟨v, data, rfl, owned, -⟩
      exact writes_tensor owned network
  | constTensor t handle =>
      rcases owned with ⟨v, data, rfl, owned, -⟩
      exact writes_tensor owned network

theorem writes_event {evt : Event cfg} (owned : evt.data.Owned) (nodeid : Word 4)
    (network : Bool) : Writes (pack nodeid evt network) (evt.wire nodeid) := by
  rcases evt with ⟨event_id, priority, data, ttl⟩
  simp only [Event.wire, Wire.header, List.append_assoc]
  apply (writes_emit _).andThen
  apply (writes_emit _).andThen
  apply (writes_emit _).andThen
  cases data with
  | value v =>
      apply (writes_emit [0]).andThen
      exact writes_value owned network
  | list values =>
      apply (writes_emit [1]).andThen
      apply (writes_emit _).andThen
      exact writes_forM fun v mem => writes_value (owned.2 v mem) network

theorem serialized_eq {evt : Event cfg} (owned : evt.data.Owned) (nodeid : Word 4)
    (network : Bool) (mem_server : Option MemServer) :
    serialized nodeid evt network mem_server = evt.wire nodeid := by
  rw [serialized, writes_event owned]
  simp

end Pack

end CmsisStream.Events
