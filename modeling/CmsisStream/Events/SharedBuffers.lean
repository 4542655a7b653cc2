import CmsisStream.Events.RoundTrip

/-!
# Shared buffers in a message

Only the identifier of a shared buffer is sent.  `Pack` acquires a buffer for the message, and
`Unpack` releases it once `get_buffer` has acquired it for the handle in the decoded event.
`Unpack` gives a raw buffer even for a shared tensor, and what it releases is not always what
`Pack` has acquired.
-/

namespace CmsisStream.Events

open Codec (Word Stream)
open Codec.Action

variable {cfg : Config}

namespace MemServer

variable (server : MemServer) (global_id : Word 4)

theorem release_acquire : (server.acquire global_id).release global_id = server := by
  simp [acquire, release]

/-- Acquire some buffers one after the other. -/
def acquireAll (ids : List (Word 4)) : MemServer := ids.foldl acquire server

variable {server global_id}

@[simp]
theorem acquireAll_nil : server.acquireAll [] = server := rfl

theorem acquireAll_append (ids others : List (Word 4)) :
    server.acquireAll (ids ++ others) = (server.acquireAll ids).acquireAll others :=
  List.foldl_append

@[simp]
theorem size_acquireAll (ids : List (Word 4)) : (server.acquireAll ids).size = server.size := by
  induction ids generalizing server with
  | nil => rfl
  | cons id ids ih => exact ih

theorem refcount_acquireAll (ids : List (Word 4)) :
    (server.acquireAll ids).refcount global_id =
      server.refcount global_id + ids.count global_id := by
  induction ids generalizing server with
  | nil => simp
  | cons id ids ih =>
      change ((server.acquire id).acquireAll ids).refcount global_id = _
      rw [ih, List.count_cons]
      by_cases same : global_id = id
      · subst same
        simp [acquire]
        ring
      · simp [acquire, same, Ne.symm same]

end MemServer

/-! ## Handles -/

/-- The buffer of a valid descriptor. -/
def Descriptor.target (fd : Option Descriptor) : Option (Word 4) :=
  (fd.filter Descriptor.isValid).map Descriptor.global_id

theorem Descriptor.target_of_valid {d : Descriptor} (valid : d.isValid = true) :
    target (some d) = some d.global_id := by
  simp [target, valid]

theorem Descriptor.target_of_not_valid {d : Descriptor} (valid : d.isValid = false) :
    target (some d) = none := by
  simp [target, valid]

def Storage.handle {α : Type} : Storage α → Option (Word 4)
  | .unique _ => none
  | .shared fd => Descriptor.target fd

/-- The number of elements of a buffer which is owned. -/
def Storage.nbElems {α : Type} : Storage α → Option ℕ
  | .unique data => some data.length
  | .shared _ => none

/-- The kind of a value, with the type of its elements and its shape.  A tensor does not say
whether it is constant. -/
inductive Shape where
  | empty
  | scalar (t : ElemType)
  | buffer (size : Word 4) (nbElems : Option ℕ)
  | string (length : ℕ)
  | tensor (t : ElemType) (nb_dims : Word 1) (dims : List (Word 4)) (nbElems : Option ℕ)
  /-- A null pointer. -/
  | null
deriving DecidableEq

namespace Value

/-- The shared buffer of which the value has a live handle. -/
def handle : Value cfg → Option (Word 4)
  | .buffer (some v) => v.data.handle
  | .tensor _ (some v) | .constTensor _ (some v) => v.data.handle
  | _ => none

def shape : Value cfg → Shape
  | .monostate => .empty
  | .scalar t _ => .scalar t
  | .buffer (some v) => .buffer v.buf_size v.data.nbElems
  | .string s => .string s.length
  | .tensor t (some v) | .constTensor t (some v) =>
      .tensor t v.nb_dims v.dims.toList v.data.nbElems
  | .buffer none | .tensor _ none | .constTensor _ none => .null

/-- The value refers to a shared buffer. -/
def isShared : Value cfg → Bool
  | .buffer (some ⟨_, .shared _⟩) => true
  | .tensor _ (some ⟨_, _, .shared _⟩) | .constTensor _ (some ⟨_, _, .shared _⟩) => true
  | _ => false

/-- The shared buffer, which is the one of the server as long as the server has it. -/
def Sharing (server : MemServer) : Value cfg → Prop
  | .buffer handle => ∃ size fd, handle = some ⟨size, .shared fd⟩ ∧
      ∀ d ∈ fd, size = BitVec.ofNat _ d.bytes ∧
        ∀ bytes ∈ server.size d.global_id, d.bytes = bytes
  | .tensor _ handle | .constTensor _ handle => ∃ nb_dims dims fd,
      handle = some ⟨nb_dims, dims, .shared fd⟩
  | _ => False

end Value

/-- The number of live handles to a shared buffer. -/
def Event.handles (evt : Event cfg) (global_id : Word 4) : ℕ :=
  (evt.data.values.filterMap Value.handle).count global_id

/-- The values are well formed, in a list short enough for `ListValue`. -/
def EventData.WellFormed (server : MemServer) : EventData cfg → Prop
  | .value v => v.Owned ∨ v.Sharing server
  | .list values => values.length ≤ cfg.maxValues ∧ ∀ v ∈ values, v.Owned ∨ v.Sharing server

/-! ## The bytes of a shared buffer -/

/-- The number of elements and the identifier which are sent. -/
def Descriptor.announced (fd : Option Descriptor) (nbelems : ℕ) : Word 4 × Word 4 :=
  match target fd with
  | some global_id => (Word.ofNat 4 nbelems, global_id)
  | none => (0, -1)

theorem Descriptor.announced_of_valid {d : Descriptor} (valid : d.isValid = true)
    (nbelems : ℕ) : announced (some d) nbelems = (Word.ofNat 4 nbelems, d.global_id) := by
  rw [announced, target_of_valid valid]

theorem Descriptor.announced_of_not_valid {d : Descriptor} (valid : d.isValid = false)
    (nbelems : ℕ) : announced (some d) nbelems = (0, -1) := by
  rw [announced, target_of_not_valid valid]

def Wire.shared (announced : Word 4 × Word 4) : List UInt8 :=
  BufferType.kSharedBuffer.toByte :: (announced.1.bytes ++ announced.2.bytes)

def Wire.sharedTensor (nb_dims : Word 1) (dims : List (Word 4)) (t : ElemType)
    (announced : Word 4 × Word 4) : List UInt8 :=
  ValueType.kTensor.toByte :: (nb_dims.bytes ++ (counted dims.length (words dims) ++
    (t.tag.toByte :: shared announced)))

/-- The bytes of a tensor. -/
def Value.tensorMessage {t : ElemType} : Option (Tensor cfg t) → List UInt8
  | some ⟨nb_dims, dims, .shared fd⟩ =>
      Wire.sharedTensor nb_dims dims.toList t
        (Descriptor.announced fd (Tensor.size (⟨nb_dims, dims, .shared fd⟩ : Tensor cfg t)))
  | handle => tensorWire handle

/-- The bytes of a value. -/
def Value.message : Value cfg → List UInt8
  | .buffer (some ⟨size, .shared fd⟩) =>
      ValueType.kAny.toByte :: Wire.shared (Descriptor.announced fd size.toNat)
  | .tensor _ handle | .constTensor _ handle => tensorMessage handle
  | v => v.wire

namespace Value

theorem message_of_owned {v : Value cfg} (owned : v.Owned) : v.message = v.wire := by
  cases v with
  | buffer handle =>
      rcases owned with ⟨size, data, rfl, -⟩
      rfl
  | tensor t handle | constTensor t handle =>
      rcases owned with ⟨⟨nb_dims, dims, storage⟩, data, rfl, rfl, -⟩
      rfl
  | _ => rfl

theorem handle_of_owned {v : Value cfg} (owned : v.Owned) : v.handle = none := by
  cases v with
  | buffer handle =>
      rcases owned with ⟨size, data, rfl, -⟩
      rfl
  | tensor t handle | constTensor t handle =>
      rcases owned with ⟨⟨nb_dims, dims, storage⟩, data, rfl, rfl, -⟩
      rfl
  | _ => rfl

theorem isShared_of_owned {v : Value cfg} (owned : v.Owned) : v.isShared = false := by
  cases v with
  | buffer handle =>
      rcases owned with ⟨size, data, rfl, -⟩
      rfl
  | tensor t handle | constTensor t handle =>
      rcases owned with ⟨⟨nb_dims, dims, storage⟩, data, rfl, rfl, -⟩
      rfl
  | _ => rfl

end Value

/-- The bytes after the priority. -/
def EventData.message : EventData cfg → List UInt8
  | .value v => 0 :: v.message
  | .list values => 1 :: Wire.counted values.length (values.flatMap Value.message)

def Event.message (nodeid : Word 4) (evt : Event cfg) : List UInt8 :=
  Wire.header nodeid evt.event_id evt.priority.number ++ evt.data.message

namespace Pack

/-- What packing shared buffers does to the server. -/
def acquires (network : Bool) (ids : List (Word 4)) (server : Option MemServer) :
    Option MemServer :=
  if network then server else server.map (·.acquireAll ids)

theorem acquires_nil (network : Bool) : acquires network [] = id := by
  funext server
  cases server <;> cases network <;> rfl

theorem acquires_append (network : Bool) (ids others : List (Word 4)) :
    acquires network (ids ++ others) = acquires network others ∘ acquires network ids := by
  funext server
  cases server <;> cases network <;> simp [acquires, MemServer.acquireAll_append]

theorem sends_shared (fd : Option Descriptor) (nbelems : ℕ) (network : Bool) :
    Sends (pack_shared fd nbelems network)
      ((Descriptor.announced fd nbelems).1.bytes ++ (Descriptor.announced fd nbelems).2.bytes)
      (acquires network (Descriptor.target fd).toList) := by
  have invalid : Descriptor.target fd = none →
      Sends (write_value (0 : Word 4) >>= fun _ => write_value (-1 : Word 4))
        ((Descriptor.announced fd nbelems).1.bytes ++ (Descriptor.announced fd nbelems).2.bytes)
        (acquires network (Descriptor.target fd).toList) := by
    intro none_
    rw [Descriptor.announced, none_, Option.toList_none, acquires_nil]
    exact ((writes_emit _).andThen (writes_emit _)).sends
  cases fd with
  | none => exact invalid rfl
  | some fd =>
      cases valid : fd.isValid with
      | false =>
          simp only [pack_shared, valid, Bool.false_eq_true, if_false]
          exact invalid (Descriptor.target_of_not_valid valid)
      | true =>
          rw [Descriptor.announced_of_valid valid, Descriptor.target_of_valid valid]
          simp only [pack_shared, valid, if_true]
          apply (writes_emit _).andSends
          cases network <;> intro stream <;> rfl

theorem sends_tensor {t : ElemType} {nb_dims : Word 1}
    {dims : List.Vector (Word 4) cfg.tensorNbDims} (fd : Option Descriptor) (network : Bool) :
    Sends (pack_tensor t (some ⟨nb_dims, dims, .shared fd⟩) network)
      (Value.tensorMessage (some (⟨nb_dims, dims, .shared fd⟩ : Tensor cfg t)))
      (acquires network (Descriptor.target fd).toList) := by
  have writesDims := writes_array dims.toList cfg.tensorNbDims
  rw [List.take_of_length_le (by simp)] at writesDims
  set nbelems := Tensor.size (⟨nb_dims, dims, .shared fd⟩ : Tensor cfg t) with size
  have sent : Sends (pack_tensor t (some (⟨nb_dims, dims, .shared fd⟩ : Tensor cfg t)) network)
      ([ValueType.kTensor.toByte] ++ (nb_dims.bytes ++
        (Wire.counted cfg.tensorNbDims (Wire.words dims.toList) ++ ([t.tag.toByte] ++
          ([BufferType.kSharedBuffer.toByte] ++ ((Descriptor.announced fd nbelems).1.bytes ++
            (Descriptor.announced fd nbelems).2.bytes))))))
      (acquires network (Descriptor.target fd).toList) := by
    apply (writes_emit _).andSends
    apply (writes_emit _).andSends
    apply writesDims.andSends
    apply (writes_emit _).andSends
    apply (writes_emit _).andSends
    apply sends_shared
  simpa [Value.tensorMessage, Wire.sharedTensor, Wire.shared] using sent

theorem sends_value {v : Value cfg} {server : MemServer} (wellFormed : v.Owned ∨ v.Sharing server)
    (network : Bool) :
    Sends (pack_value network v) v.message (acquires network v.handle.toList) := by
  rcases wellFormed with owned | sharing
  · rw [Value.message_of_owned owned, Value.handle_of_owned owned, Option.toList_none, acquires_nil]
    exact (writes_value owned network).sends
  · cases v with
    | buffer handle =>
        rcases sharing with ⟨size, fd, rfl, -⟩
        apply (writes_emit [ValueType.kAny.toByte]).andSends
        apply (writes_emit [BufferType.kSharedBuffer.toByte]).andSends
        exact sends_shared fd size.toNat network
    | tensor t handle | constTensor t handle =>
        rcases sharing with ⟨nb_dims, dims, fd, rfl⟩
        exact sends_tensor fd network
    | _ => exact sharing.elim

theorem foldl_acquires (network : Bool) (values : List (Value cfg)) (server : Option MemServer) :
    values.foldl (fun env v => acquires network v.handle.toList env) server =
      acquires network (values.filterMap Value.handle) server := by
  induction values generalizing server with
  | nil => rw [List.filterMap_nil, acquires_nil, List.foldl_nil, id]
  | cons v values ih =>
      have ids : (v :: values).filterMap Value.handle =
          v.handle.toList ++ values.filterMap Value.handle := by
        cases handle : v.handle <;> simp [handle]
      rw [List.foldl_cons, ih, ids, acquires_append, Function.comp_apply]

theorem sends_event {evt : Event cfg} {server : MemServer}
    (wellFormed : evt.data.WellFormed server) (nodeid : Word 4) (network : Bool) :
    Sends (pack nodeid evt network) (evt.message nodeid)
      (acquires network (evt.data.values.filterMap Value.handle)) := by
  rcases evt with ⟨event_id, priority, data, ttl⟩
  simp only [Event.message, Wire.header, List.append_assoc]
  apply (writes_emit _).andSends
  apply (writes_emit _).andSends
  apply (writes_emit _).andSends
  cases data with
  | value v =>
      have ids : [v].filterMap Value.handle = v.handle.toList := by
        cases handle : v.handle <;> simp [handle]
      simp only [EventData.values, ids]
      apply (writes_emit [0]).andSends
      exact sends_value wellFormed network
  | list values =>
      apply (writes_emit [1]).andSends
      apply (writes_emit _).andSends
      have sent := sends_forM fun v mem => sends_value (wellFormed.2 v mem) network
      simp only [foldl_acquires] at sent
      exact sent

end Pack

/-! ## Receiving shared buffers -/

/-- What `get_buffer` gives for a buffer which is announced. -/
def Unpack.found (cfg : Config) (size : Word 4 → Option ℕ) (announced : Word 4 × Word 4) :
    Value cfg :=
  if announced.1 = 0 then .monostate
  else match size announced.2 with
    | none => .monostate
    | some bytes => .buffer (some (.ofShared ⟨bytes, announced.2, true⟩))

/-- The value which is read back, where the sizes are those of the buffers of the server. -/
def Value.received (size : Word 4 → Option ℕ) : Value cfg → Value cfg
  | .buffer (some ⟨n, .shared fd⟩) => Unpack.found cfg size (Descriptor.announced fd n.toNat)
  | .tensor t (some ⟨nb_dims, dims, .shared fd⟩)
  | .constTensor t (some ⟨nb_dims, dims, .shared fd⟩) =>
      Unpack.found cfg size
        (Descriptor.announced fd (Tensor.size (⟨nb_dims, dims, .shared fd⟩ : Tensor cfg t)))
  | v => v.unconst

theorem Value.received_of_owned {v : Value cfg} (owned : v.Owned) (size : Word 4 → Option ℕ) :
    v.received size = v.unconst := by
  cases v with
  | buffer handle =>
      rcases owned with ⟨n, data, rfl, -⟩
      rfl
  | tensor t handle | constTensor t handle =>
      rcases owned with ⟨⟨nb_dims, dims, storage⟩, data, rfl, rfl, -⟩
      rfl
  | _ => rfl

def EventData.received (size : Word 4 → Option ℕ) : EventData cfg → EventData cfg
  | .value v => .value (v.received size)
  | .list values => .list (values.map (Value.received size))

namespace Unpack

/-- The count which `get_buffer` has increased is decreased at once. -/
theorem get_shared_found (server : MemServer) (announced : Word 4 × Word 4) (bytes : List UInt8)
    (lengthWrapped : Bool) :
    ∃ lengthWrapped', (if announced.1 = 0 then pure .monostate else get_shared cfg announced.2)
      ⟨bytes, ⟨some server, lengthWrapped⟩⟩ =
      .ok (found cfg server.size announced, ⟨bytes, ⟨some server, lengthWrapped'⟩⟩) := by
  rw [found]
  split
  · exact ⟨_, rfl⟩
  · cases size : server.size announced.2 with
    | none => exact ⟨lengthWrapped, by simp [get_shared, MemServer.get_buffer, size]⟩
    | some n =>
        refine ⟨lengthWrapped || 2 ^ 32 ≤ n, ?_⟩
        simp [get_shared, MemServer.get_buffer, size, MemServer.release_acquire]

theorem receives_tensor {t : ElemType} (nb_dims : Word 1)
    (dims : List.Vector (Word 4) cfg.tensorNbDims) (announced : Word 4 × Word 4)
    (following : List UInt8) (server : MemServer) (lengthWrapped : Bool) :
    ∃ lengthWrapped',
      unpack_value cfg ⟨Wire.sharedTensor nb_dims dims.toList t announced ++ following,
        ⟨some server, lengthWrapped⟩⟩ =
      .ok (found cfg server.size announced, ⟨following, ⟨some server, lengthWrapped'⟩⟩) := by
  simp only [Wire.sharedTensor, Wire.counted, Wire.shared, List.cons_append, List.append_assoc]
  rw [unpack_value_tensor, unpack_any_tensor, bind_of_ok (reads_value nb_dims _ _),
    ← List.append_assoc, bind_of_ok (reads_dims _ dims _ _), unpack_elements,
    firstTag_of_mem (mem_tensorTypes t), unpack_tensor, bind_of_ok (read_byte_cons _ _ _),
    if_neg (by decide), if_pos rfl, bind_of_ok (reads_value announced.1 _ _),
    bind_of_ok (reads_value announced.2 _ _), bind_of_ok (computeLength_apply _ _ _)]
  exact get_shared_found server announced following _

theorem receives_value {v : Value cfg} {server : MemServer}
    (wellFormed : v.Owned ∨ v.Sharing server) (decodable : v.Decodable) (following : List UInt8)
    (server' : MemServer) (lengthWrapped : Bool) :
    ∃ lengthWrapped', unpack_value cfg ⟨v.message ++ following, ⟨some server', lengthWrapped⟩⟩ =
      .ok (v.received server'.size, ⟨following, ⟨some server', lengthWrapped'⟩⟩) := by
  rcases wellFormed with owned | sharing
  · rw [Value.message_of_owned owned, Value.received_of_owned owned]
    exact ⟨_, reads_value_of_decodable owned decodable _ _⟩
  · cases v with
    | buffer handle =>
        rcases sharing with ⟨size, fd, rfl, -⟩
        simp only [Value.message, Wire.shared, List.cons_append, List.append_assoc]
        rw [unpack_value_any, unpack_any, bind_of_ok (read_byte_cons _ _ _), if_neg (by decide),
          if_pos rfl, bind_of_ok (reads_value _ _ _), bind_of_ok (reads_value _ _ _)]
        exact get_shared_found server' _ following _
    | tensor t handle | constTensor t handle =>
        rcases sharing with ⟨nb_dims, dims, fd, rfl⟩
        exact receives_tensor nb_dims dims _ following server' lengthWrapped
    | _ => exact sharing.elim

theorem receives_values {values : List (Value cfg)} {server : MemServer}
    (wellFormed : ∀ v ∈ values, v.Owned ∨ v.Sharing server) (decodable : ∀ v ∈ values, v.Decodable)
    (following : List UInt8) (server' : MemServer) (lengthWrapped : Bool) :
    ∃ lengthWrapped', repeatN (unpack_value cfg) values.length
      ⟨values.flatMap Value.message ++ following, ⟨some server', lengthWrapped⟩⟩ =
      .ok (values.map (Value.received server'.size),
        ⟨following, ⟨some server', lengthWrapped'⟩⟩) := by
  induction values generalizing lengthWrapped with
  | nil => exact ⟨lengthWrapped, rfl⟩
  | cons v values ih =>
      rcases receives_value (wellFormed v List.mem_cons_self) (decodable v List.mem_cons_self)
        (values.flatMap Value.message ++ following) server' lengthWrapped with ⟨wrapped, read⟩
      rcases ih (fun w mem => wellFormed w (List.mem_cons_of_mem v mem))
        (fun w mem => decodable w (List.mem_cons_of_mem v mem)) wrapped with ⟨wrapped', reads⟩
      refine ⟨wrapped', ?_⟩
      rw [List.flatMap_cons, List.append_assoc, List.length_cons, repeatN, bind_of_ok read,
        bind_of_ok reads]
      rfl

theorem receives_data {data : EventData cfg} {server : MemServer}
    (wellFormed : data.WellFormed server) (decodable : ∀ v ∈ data.values, v.Decodable)
    (nodeid event_id : Word 4) (priority : Priority) (server' : MemServer) :
    ∃ lengthWrapped, unpack_data cfg nodeid event_id priority
      ⟨data.message, ⟨some server', false⟩⟩ =
      .ok ((nodeid, ⟨event_id, priority, data.received server'.size, 0⟩),
        ⟨[], ⟨some server', lengthWrapped⟩⟩) := by
  cases data with
  | value v =>
      rcases receives_value wellFormed (decodable v List.mem_cons_self) [] server' false with
        ⟨wrapped, read⟩
      rw [List.append_nil] at read
      refine ⟨wrapped, ?_⟩
      rw [EventData.message, unpack_data, bind_of_ok (read_byte_cons 0 _ _), if_pos rfl,
        bind_of_ok read]
      rfl
  | list values =>
      have lt : values.length < 2 ^ 32 := wellFormed.1.trans_lt cfg.maxValues_lt
      rcases receives_values wellFormed.2 decodable [] server' false with ⟨wrapped, read⟩
      rw [List.append_nil] at read
      refine ⟨wrapped, ?_⟩
      rw [EventData.message, unpack_data, bind_of_ok (read_byte_cons 1 _ _), if_neg (by decide),
        if_pos rfl, Wire.counted, bind_of_ok (reads_value _ _ _), toNat_count lt,
        unpack_values_eq (by simpa using wellFormed.1), bind_of_ok read]
      rfl

end Unpack

/-! ## When shared buffers come back -/

/-- The descriptor is valid, the buffer is not empty, and the server still has it. -/
def Descriptor.Live (size : Word 4 → Option ℕ) (fd : Option Descriptor) (nbelems : ℕ) : Prop :=
  ∃ d ∈ fd, d.isValid = true ∧ nbelems ≠ 0 ∧ (size d.global_id).isSome = true

/-- The value has the same kind, the same type of elements and the same shape, unless it refers
to a shared buffer which is ignored over the network. -/
def Value.Agrees (network : Bool) (v w : Value cfg) : Prop :=
  (network = true ∧ v.isShared = true) ∨ v.shape = w.shape

def EventData.Agrees (network : Bool) : EventData cfg → EventData cfg → Prop
  | .value v, .value w => v.Agrees network w
  | .list values, .list others => List.Forall₂ (Value.Agrees network) values others
  | _, _ => False

/-- A decoded event keeps the values, each buffer has one reference more for each handle in it,
and it has no handle if it comes from the network: a count is only changed by a `get_buffer`
which gives a handle. -/
structure SharesBack (network : Bool) (before after : MemServer) (evt evt' : Event cfg) : Prop where
  agrees : evt.data.Agrees network evt'.data
  counts : ∀ global_id,
    after.refcount global_id = before.refcount global_id + evt'.handles global_id
  ignored : network = true → ∀ global_id, evt'.handles global_id = 0

/-- An event which is packed, and then unpacked with the same server. -/
def SharedRoundTrip (network : Bool) (nodeid : Word 4) (evt : Event cfg) (server : MemServer) :
    Prop :=
  ∃ bytes packed result stream after,
    Pack.pack nodeid evt network ⟨[], some server⟩ = .ok ((), ⟨bytes, some packed⟩) ∧
    Unpack.unpack cfg ⟨bytes, ⟨some packed, false⟩⟩ = .ok (result, stream) ∧
    stream.env.mem_server = some after ∧ SharesBack network server after evt result.2

/-- The condition on each value. -/
def Value.Transmitted (network : Bool) (size : Word 4 → Option ℕ) : Value cfg → Prop
  | .buffer (some ⟨n, .shared fd⟩) => network = false ↔ Descriptor.Live size fd n.toNat
  | .tensor t (some ⟨nb_dims, dims, .shared fd⟩)
  | .constTensor t (some ⟨nb_dims, dims, .shared fd⟩) => network = true ∧
      ¬Descriptor.Live size fd (Tensor.size (⟨nb_dims, dims, .shared fd⟩ : Tensor cfg t))
  | v => v.Decodable

namespace Unpack

variable {size : Word 4 → Option ℕ} {fd : Option Descriptor} {nbelems : ℕ}

theorem found_of_live (cfg : Config) (live : Descriptor.Live size fd nbelems)
    (lt : nbelems < 2 ^ 32) :
    ∃ d bytes, fd = some d ∧ Descriptor.target fd = some d.global_id ∧
      size d.global_id = some bytes ∧ found cfg size (Descriptor.announced fd nbelems) =
        .buffer (some (.ofShared ⟨bytes, d.global_id, true⟩)) := by
  rcases live with ⟨d, rfl, valid, nonempty, isSome⟩
  rcases Option.isSome_iff_exists.mp isSome with ⟨bytes, eq⟩
  have target := Descriptor.target_of_valid valid
  have notZero : Word.ofNat 4 nbelems ≠ 0 := by
    intro zero
    have length := congrArg BitVec.toNat zero
    rw [toNat_count lt] at length
    exact nonempty length
  refine ⟨d, bytes, rfl, target, eq, ?_⟩
  rw [Descriptor.announced_of_valid valid, found]
  simp only [if_neg notZero, eq]

theorem found_of_not_live (cfg : Config) (notLive : ¬Descriptor.Live size fd nbelems) :
    found cfg size (Descriptor.announced fd nbelems) = .monostate := by
  cases fd with
  | none => rfl
  | some d =>
      cases valid : d.isValid with
      | false =>
          rw [Descriptor.announced_of_not_valid valid]
          rfl
      | true =>
          rw [Descriptor.announced_of_valid valid, found]
          split
          · rfl
          · rename_i notZero
            have nonempty : nbelems ≠ 0 := by
              rintro rfl
              exact notZero rfl
            split
            · rfl
            · rename_i bytes eq
              exact absurd ⟨d, rfl, valid, nonempty, Option.isSome_of_eq_some eq⟩ notLive

end Unpack

theorem Tensor.size_lt {t : ElemType} (tensor : Tensor cfg t) : tensor.size < 2 ^ 32 := by
  rw [Tensor.size_eq]
  exact Nat.mod_lt _ (by decide)

namespace Value

variable {server : MemServer} {v w : Value cfg} {network : Bool}

theorem shape_unconst (v : Value cfg) : v.unconst.shape = v.shape := by
  cases v with
  | constTensor t handle => cases handle <;> rfl
  | _ => rfl

theorem handle_unconst (v : Value cfg) : v.unconst.handle = v.handle := by
  cases v with
  | constTensor t handle => cases handle <;> rfl
  | _ => rfl

theorem transmitted_of_owned (owned : v.Owned) (size : Word 4 → Option ℕ) :
    v.Transmitted network size ↔ v.Decodable := by
  cases v with
  | buffer handle =>
      rcases owned with ⟨n, data, rfl, -⟩
      rfl
  | tensor t handle | constTensor t handle =>
      rcases owned with ⟨⟨nb_dims, dims, storage⟩, data, rfl, rfl, -⟩
      rfl
  | _ => rfl

theorem decodable_of_sharing (sharing : v.Sharing server) : v.Decodable := by
  cases v with
  | buffer handle => trivial
  | tensor t handle | constTensor t handle =>
      rcases sharing with ⟨nb_dims, dims, fd, rfl⟩
      trivial
  | _ => exact sharing.elim

theorem isShared_of_sharing (sharing : v.Sharing server) : v.isShared = true := by
  cases v with
  | buffer handle =>
      rcases sharing with ⟨size, fd, rfl, -⟩
      rfl
  | tensor t handle | constTensor t handle =>
      rcases sharing with ⟨nb_dims, dims, fd, rfl⟩
      rfl
  | _ => exact sharing.elim

/-- A value of the same shape as a decoded one could be decoded. -/
theorem decodable_of_shape (owned : v.Owned) (same : v.shape = w.shape) (decodable : w.Decodable) :
    v.Decodable := by
  have tensor : ∀ t (handle : Option (Tensor cfg t)), (Value.tensor t handle).Owned →
      (Value.tensor t handle).shape = w.shape → (Value.tensor t handle).Decodable := by
    rintro t handle ⟨⟨nb_dims, dims, storage⟩, data, rfl, stored, -⟩ same
    cases stored
    cases w with
    | tensor t' handle | constTensor t' handle =>
        rcases handle with _ | ⟨nb_dims', dims', data' | fd⟩
        · cases same
        · have length : data.length = data'.length := Option.some.inj (Shape.tensor.inj same).2.2.2
          change data.length < 2 ^ 32
          rw [length]
          exact decodable
        · simp [shape, Storage.nbElems] at same
    | buffer handle => cases handle <;> simp [shape] at same
    | _ => simp [shape] at same
  cases v with
  | monostate => trivial
  | buffer handle => trivial
  | tensor t handle => exact tensor t handle owned same
  | constTensor t handle => exact tensor t handle owned ((shape_unconst _).trans same)
  | scalar t x =>
      cases w with
      | scalar t' x' =>
          cases same
          exact decodable
      | buffer handle | tensor t' handle | constTensor t' handle =>
          cases handle <;> simp [shape] at same
      | _ => simp [shape] at same
  | string s =>
      cases w with
      | string s' =>
          have length : s.length = s'.length := Shape.string.inj same
          change s.length + 1 < 2 ^ 32
          rw [length]
          exact decodable
      | buffer handle | tensor t' handle | constTensor t' handle =>
          cases handle <;> simp [shape] at same
      | _ => simp [shape] at same

theorem decodable_of_transmitted (wellFormed : v.Owned ∨ v.Sharing server)
    (transmitted : v.Transmitted network server.size) : v.Decodable :=
  wellFormed.elim (fun owned => (transmitted_of_owned owned _).mp transmitted)
    decodable_of_sharing

theorem decodable_of_agrees (wellFormed : v.Owned ∨ v.Sharing server) (agrees : v.Agrees network w)
    (decodable : w.Decodable) : v.Decodable := by
  rcases wellFormed with owned | sharing
  · rcases agrees with ⟨-, shared⟩ | same
    · exact absurd ((isShared_of_owned owned).symm.trans shared) (by simp)
    · exact decodable_of_shape owned same decodable
  · exact decodable_of_sharing sharing

/-- Without network, a value comes back with its shape exactly when it is transmitted. -/
theorem shape_received_iff (wellFormed : v.Owned ∨ v.Sharing server) (decodable : v.Decodable) :
    v.shape = (v.received server.size).shape ↔ v.Transmitted false server.size := by
  rcases wellFormed with owned | sharing
  · rw [received_of_owned owned, shape_unconst, transmitted_of_owned owned]
    exact ⟨fun _ => decodable, fun _ => rfl⟩
  · cases v with
    | buffer handle =>
        rcases sharing with ⟨n, fd, rfl, matches_⟩
        rw [received, Transmitted]
        by_cases live : Descriptor.Live server.size fd n.toNat
        · rcases Unpack.found_of_live cfg live n.isLt with ⟨d, bytes, rfl, -, size, found⟩
          rcases matches_ d rfl with ⟨rfl, same⟩
          rw [found, ← same bytes size]
          exact ⟨fun _ => ⟨fun _ => live, fun _ => rfl⟩, fun _ => rfl⟩
        · rw [Unpack.found_of_not_live cfg live]
          simp [live, shape]
    | tensor t handle | constTensor t handle =>
        rcases sharing with ⟨nb_dims, dims, fd, rfl⟩
        simp only [received, Transmitted, Bool.false_eq_true, false_and, iff_false]
        by_cases live : Descriptor.Live server.size fd
          (Tensor.size (⟨nb_dims, dims, .shared fd⟩ : Tensor cfg t))
        · rcases Unpack.found_of_live cfg live (Tensor.size_lt _) with ⟨d, bytes, -, -, -, found⟩
          rw [found]
          simp [shape]
        · rw [Unpack.found_of_not_live cfg live]
          simp [shape]
    | _ => exact sharing.elim

theorem handle_received (wellFormed : v.Owned ∨ v.Sharing server)
    (transmitted : v.Transmitted false server.size) :
    (v.received server.size).handle = v.handle := by
  rcases wellFormed with owned | sharing
  · rw [received_of_owned owned, handle_unconst]
  · cases v with
    | buffer handle =>
        rcases sharing with ⟨n, fd, rfl, -⟩
        rw [Transmitted] at transmitted
        rcases Unpack.found_of_live cfg (transmitted.mp rfl) n.isLt with
          ⟨d, bytes, -, target, -, found⟩
        rw [received, found]
        exact target.symm
    | tensor t handle | constTensor t handle =>
        rcases sharing with ⟨nb_dims, dims, fd, rfl⟩
        exact absurd transmitted.1 (by simp)
    | _ => exact sharing.elim

/-- Over the network, a value gives no handle exactly when it is transmitted. -/
theorem handle_received_iff (wellFormed : v.Owned ∨ v.Sharing server) (decodable : v.Decodable) :
    (v.received server.size).handle = none ↔ v.Transmitted true server.size := by
  rcases wellFormed with owned | sharing
  · rw [received_of_owned owned, handle_unconst, handle_of_owned owned, transmitted_of_owned owned]
    exact ⟨fun _ => decodable, fun _ => rfl⟩
  · have foundIff : ∀ {fd nbelems}, nbelems < 2 ^ 32 →
        ((Unpack.found cfg server.size (Descriptor.announced fd nbelems)).handle = none ↔
          ¬Descriptor.Live server.size fd nbelems) := by
      intro fd nbelems lt
      by_cases live : Descriptor.Live server.size fd nbelems
      · rcases Unpack.found_of_live cfg live lt with ⟨d, bytes, -, -, -, found⟩
        rw [found]
        simp [handle, RawBuffer.ofShared, Storage.handle, Descriptor.target, live]
      · rw [Unpack.found_of_not_live cfg live]
        simp [handle, live]
    cases v with
    | buffer handle =>
        rcases sharing with ⟨n, fd, rfl, -⟩
        rw [received, Transmitted, foundIff n.isLt]
        simp
    | tensor t handle | constTensor t handle =>
        rcases sharing with ⟨nb_dims, dims, fd, rfl⟩
        rw [received, Transmitted, foundIff (Tensor.size_lt _)]
        simp
    | _ => exact sharing.elim

theorem agrees_received (wellFormed : v.Owned ∨ v.Sharing server)
    (transmitted : v.Transmitted network server.size) :
    v.Agrees network (v.received server.size) := by
  cases network with
  | false =>
      have decodable := decodable_of_transmitted wellFormed transmitted
      exact .inr ((shape_received_iff wellFormed decodable).mpr transmitted)
  | true =>
      rcases wellFormed with owned | sharing
      · refine .inr ?_
        rw [received_of_owned owned, shape_unconst]
      · exact .inl ⟨rfl, isShared_of_sharing sharing⟩

end Value

namespace EventData

variable {server : MemServer} {data : EventData cfg} {network : Bool}

theorem WellFormed.values (wellFormed : data.WellFormed server) :
    ∀ v ∈ data.values, v.Owned ∨ v.Sharing server := by
  cases data with
  | value v =>
      intro w mem
      rcases List.mem_singleton.mp mem
      exact wellFormed
  | list values => exact wellFormed.2

theorem values_received (data : EventData cfg) (size : Word 4 → Option ℕ) :
    (data.received size).values = data.values.map (Value.received size) := by
  cases data <;> rfl

theorem agrees_received_iff {size : Word 4 → Option ℕ} :
    data.Agrees network (data.received size) ↔
      ∀ v ∈ data.values, v.Agrees network (v.received size) := by
  cases data with
  | value v => simp [Agrees, received, EventData.values]
  | list values =>
      change List.Forall₂ _ values (values.map _) ↔ _
      rw [List.forall₂_map_right_iff, List.forall₂_same]
      rfl

end EventData

namespace Unpack

variable {server : MemServer} {network : Bool}

/-- The values agree only if each of them could be decoded: the decoder is at the beginning of a
value as long as it has decoded the previous ones. -/
theorem decodable_of_values {values others : List (Value cfg)}
    (wellFormed : ∀ v ∈ values, v.Owned ∨ v.Sharing server) {server' : MemServer}
    {lengthWrapped : Bool} {following : List UInt8} {stream : Stream UnpackEnv}
    (run : repeatN (unpack_value cfg) values.length
      ⟨values.flatMap Value.message ++ following, ⟨some server', lengthWrapped⟩⟩ =
      .ok (others, stream))
    (agrees : List.Forall₂ (Value.Agrees network) values others) :
    ∀ v ∈ values, v.Decodable := by
  induction values generalizing others lengthWrapped with
  | nil => simp
  | cons v values ih =>
      rw [List.flatMap_cons, List.append_assoc, List.length_cons, repeatN] at run
      rcases bind_eq_ok.mp run with ⟨w, middle, readValue, run⟩
      rcases bind_eq_ok.mp run with ⟨ws, last, readValues, done⟩
      cases done
      rcases List.forall₂_cons.mp agrees with ⟨agreesFirst, agreesOthers⟩
      have decodable := Value.decodable_of_agrees (wellFormed v List.mem_cons_self) agreesFirst
        (unpack_value_decodable readValue)
      rcases receives_value (wellFormed v List.mem_cons_self) decodable
        (values.flatMap Value.message ++ following) server' lengthWrapped with ⟨wrapped, read⟩
      rw [read] at readValue
      cases readValue
      exact List.forall_mem_cons.mpr ⟨decodable,
        ih (fun w mem => wellFormed w (List.mem_cons_of_mem v mem)) readValues agreesOthers⟩

theorem decodable_of_data {data : EventData cfg} (wellFormed : data.WellFormed server)
    {nodeid event_id : Word 4} {priority : Priority} {server' : MemServer}
    {stream : Stream UnpackEnv} {result : Word 4 × Event cfg}
    (run : unpack_data cfg nodeid event_id priority ⟨data.message, ⟨some server', false⟩⟩ =
      .ok (result, stream))
    (agrees : data.Agrees network result.2.data) : ∀ v ∈ data.values, v.Decodable := by
  cases data with
  | value v =>
      rw [EventData.message, unpack_data, bind_of_ok (read_byte_cons 0 _ _), if_pos rfl] at run
      rcases bind_eq_ok.mp run with ⟨w, middle, readValue, done⟩
      cases done
      have decodable := Value.decodable_of_agrees wellFormed agrees
        (unpack_value_decodable readValue)
      simpa [EventData.values] using decodable
  | list values =>
      have lt : values.length < 2 ^ 32 := wellFormed.1.trans_lt cfg.maxValues_lt
      rw [EventData.message, unpack_data, bind_of_ok (read_byte_cons 1 _ _), if_neg (by decide),
        if_pos rfl, Wire.counted, bind_of_ok (reads_value _ _ _), toNat_count lt,
        unpack_values_eq (by simpa using wellFormed.1)] at run
      rcases bind_eq_ok.mp run with ⟨ws, middle, readValues, done⟩
      cases done
      rw [← List.append_nil (values.flatMap Value.message)] at readValues
      exact decodable_of_values wellFormed.2 readValues agrees

end Unpack

/-- The server after packing an event. -/
def Pack.packed (network : Bool) (evt : Event cfg) (server : MemServer) : MemServer :=
  if network then server else server.acquireAll (evt.data.values.filterMap Value.handle)

section RoundTrip

variable {server : MemServer} {evt : Event cfg} {network : Bool}

theorem Pack.size_packed : (Pack.packed network evt server).size = server.size := by
  unfold Pack.packed
  split
  · rfl
  · exact MemServer.size_acquireAll _

theorem Pack.pack_eq (wellFormed : evt.data.WellFormed server) (nodeid : Word 4) :
    Pack.pack nodeid evt network ⟨[], some server⟩ =
      .ok ((), ⟨evt.message nodeid, some (Pack.packed network evt server)⟩) := by
  rw [Pack.sends_event wellFormed nodeid network]
  cases network <;> rfl

/-- What a whole round trip gives. -/
theorem unpack_received (wellFormed : evt.data.WellFormed server)
    (decodable : ∀ v ∈ evt.data.values, v.Decodable) (nodeid : Word 4) (server' : MemServer) :
    ∃ lengthWrapped, Unpack.unpack cfg ⟨evt.message nodeid, ⟨some server', false⟩⟩ =
      .ok ((nodeid, ⟨evt.event_id, evt.priority, evt.data.received server'.size, 0⟩),
        ⟨[], ⟨some server', lengthWrapped⟩⟩) := by
  rcases Unpack.receives_data wellFormed decodable nodeid evt.event_id evt.priority server' with
    ⟨wrapped, read⟩
  exact ⟨wrapped, by rw [Event.message, Unpack.unpack_header, Unpack.priority_number, read]⟩

theorem handles_received (priority : Priority) (event_id ttl global_id : Word 4) :
    Event.handles ⟨event_id, priority, evt.data.received server.size, ttl⟩ global_id =
      (evt.data.values.filterMap fun v => (v.received server.size).handle).count global_id := by
  rw [Event.handles, EventData.values_received, List.filterMap_map]
  rfl

theorem sharedRoundTrip_of_transmitted (wellFormed : evt.data.WellFormed server) (nodeid : Word 4)
    (transmitted : ∀ v ∈ evt.data.values, v.Transmitted network server.size) :
    SharedRoundTrip network nodeid evt server := by
  have values := wellFormed.values
  have decodable : ∀ v ∈ evt.data.values, v.Decodable := fun v mem =>
    Value.decodable_of_transmitted (values v mem) (transmitted v mem)
  rcases unpack_received wellFormed decodable nodeid (Pack.packed network evt server) with
    ⟨wrapped, run⟩
  refine ⟨_, _, _, _, _, Pack.pack_eq wellFormed nodeid, run, rfl, ?_⟩
  rw [Pack.size_packed]
  refine ⟨?_, ?_, ?_⟩
  · rw [EventData.agrees_received_iff]
    exact fun v mem => Value.agrees_received (values v mem) (transmitted v mem)
  · intro global_id
    rw [handles_received]
    cases network with
    | false =>
        rw [List.filterMap_congr fun v mem =>
          Value.handle_received (values v mem) (transmitted v mem)]
        exact MemServer.refcount_acquireAll _
    | true =>
        rw [List.filterMap_eq_nil_iff.mpr fun v mem =>
          (Value.handle_received_iff (values v mem) (decodable v mem)).mpr (transmitted v mem)]
        exact (add_zero _).symm
  · rintro rfl global_id
    rw [handles_received, List.filterMap_eq_nil_iff.mpr fun v mem =>
      (Value.handle_received_iff (values v mem) (decodable v mem)).mpr (transmitted v mem)]
    rfl

theorem transmitted_of_sharedRoundTrip (wellFormed : evt.data.WellFormed server) {nodeid : Word 4}
    (roundTrip : SharedRoundTrip network nodeid evt server) :
    ∀ v ∈ evt.data.values, v.Transmitted network server.size := by
  have values := wellFormed.values
  rcases roundTrip with ⟨bytes, packed, result, stream, after, pack, run, -, shares⟩
  rw [Pack.pack_eq wellFormed] at pack
  cases pack
  have data := run
  rw [Event.message, Unpack.unpack_header, Unpack.priority_number] at data
  have decodable := Unpack.decodable_of_data wellFormed data shares.agrees
  rcases unpack_received wellFormed decodable nodeid (Pack.packed network evt server) with
    ⟨wrapped, received⟩
  rw [received] at run
  cases run
  rw [Pack.size_packed] at shares
  intro v mem
  cases network with
  | false =>
      rcases EventData.agrees_received_iff.mp shares.agrees v mem with ⟨network, -⟩ | same
      · cases network
      · exact (Value.shape_received_iff (values v mem) (decodable v mem)).mp same
  | true =>
      refine (Value.handle_received_iff (values v mem) (decodable v mem)).mp ?_
      by_contra handle
      rcases Option.ne_none_iff_exists'.mp handle with ⟨global_id, eq⟩
      have none := shares.ignored rfl global_id
      rw [handles_received, List.count_eq_zero] at none
      exact none (List.mem_filterMap.mpr ⟨v, mem, eq⟩)

/-- Shared buffers come back with the right counts exactly when each of them is a raw buffer
which the server still has, or, over the network, when the server has none of them. -/
theorem sharedRoundTrip_iff (wellFormed : evt.data.WellFormed server) (nodeid : Word 4) :
    SharedRoundTrip network nodeid evt server ↔
      ∀ v ∈ evt.data.values, v.Transmitted network server.size :=
  ⟨transmitted_of_sharedRoundTrip wellFormed, sharedRoundTrip_of_transmitted wellFormed nodeid⟩

end RoundTrip

/-! ## Three buffers -/

/-- A server with a buffer of 16 bytes which has one reference. -/
def oneBuffer : MemServer where
  size global_id := if global_id = 7 then some 16 else none
  refcount global_id := if global_id = 7 then 1 else 0

/-- An event with the handle of a buffer of 16 bytes. -/
def bufferEvent (global_id : Word 4) : Event .default where
  event_id := 100
  priority := .kNormalPriority
  data := .list [.scalar .int16 3, .buffer (some ⟨16, .shared (some ⟨16, global_id, true⟩)⟩)]
  ttl := 0

/-- An event with the handle of a tensor of 8 elements. -/
def tensorEvent : Event .default where
  event_id := 100
  priority := .kNormalPriority
  data := .value (.tensor .int16
    (some ⟨1, ⟨[8, 0, 0], rfl⟩, .shared (some ⟨16, 7, true⟩)⟩))
  ttl := 0

theorem bufferEvent_wellFormed (global_id : Word 4) :
    (bufferEvent global_id).data.WellFormed oneBuffer := by
  refine ⟨show 2 ≤ 8 by decide, ?_⟩
  intro v mem
  rcases List.mem_cons.mp mem with rfl | mem
  · exact .inl trivial
  rcases List.mem_singleton.mp mem
  refine .inr ⟨_, _, rfl, ?_⟩
  rintro d ⟨⟩
  refine ⟨rfl, fun bytes => ?_⟩
  simp only [oneBuffer]
  split <;> simp

theorem tensorEvent_wellFormed : tensorEvent.data.WellFormed oneBuffer := .inr ⟨_, _, _, rfl⟩

theorem bufferEvent_sharedRoundTrip : (bufferEvent 7).data.WellFormed oneBuffer ∧
    SharedRoundTrip false 5 (bufferEvent 7) oneBuffer := by
  refine ⟨bufferEvent_wellFormed 7, (sharedRoundTrip_iff (bufferEvent_wellFormed 7) 5).mpr ?_⟩
  intro v mem
  rcases List.mem_cons.mp mem with rfl | mem
  · change ElemType.int16 ∈ Unpack.scalarTypes
    decide
  rcases List.mem_singleton.mp mem
  exact ⟨fun _ => ⟨_, rfl, rfl, by decide, by decide⟩, fun _ => rfl⟩

/-- A tensor comes back as a raw buffer, a buffer which the server does not have keeps the
reference of the message, and a message from the network gives a handle without reference. -/
theorem sharedBuffers_not_roundTrip :
    ¬SharedRoundTrip false 5 tensorEvent oneBuffer ∧
    ¬SharedRoundTrip false 5 (bufferEvent 8) oneBuffer ∧
    ¬SharedRoundTrip true 5 (bufferEvent 7) oneBuffer := by
  have live : Descriptor.Live oneBuffer.size (some ⟨16, 7, true⟩) 16 :=
    ⟨_, rfl, rfl, by decide, by decide⟩
  refine ⟨fun roundTrip => ?_, fun roundTrip => ?_, fun roundTrip => ?_⟩
  · have transmitted := transmitted_of_sharedRoundTrip tensorEvent_wellFormed roundTrip _
      List.mem_cons_self
    exact absurd transmitted.1 (by simp)
  · have transmitted := transmitted_of_sharedRoundTrip (bufferEvent_wellFormed 8) roundTrip _
      (List.mem_cons_of_mem _ List.mem_cons_self)
    rcases transmitted.mp rfl with ⟨d, ⟨⟩, -, -, found⟩
    exact absurd found (by decide)
  · have transmitted := transmitted_of_sharedRoundTrip (bufferEvent_wellFormed 7) roundTrip _
      (List.mem_cons_of_mem _ List.mem_cons_self)
    exact absurd (transmitted.mpr live) (by simp)

end CmsisStream.Events
