import CmsisStream.Events.PythonRoundTrip
import CmsisStream.Events.SharedBuffers

/-!
# Shared buffers in Python

The writer acquires the buffer of a `SharedBuffer`, and the reader releases it once it has called
`get_buffer`.  A `MappedArray` is never written, as `_write_shared_buffer` is called with one
argument too many, and never read: the reader builds the array and returns the buffer.
-/

namespace CmsisStream.Events

open Codec (Word Stream)
open Codec.Action

/-! ## Counts -/

/-- What is left after `get_buffer` and `release` for some requested buffers, with a handle to
those which are found. -/
structure MemServer.Settled (requested found : List (Word 4)) (before after : MemServer) :
    Prop where
  size_eq : after.size = before.size
  refcount_eq : ∀ global_id, after.refcount global_id + requested.count global_id =
    before.refcount global_id + found.count global_id

theorem MemServer.Settled.refl (server : MemServer) : server.Settled [] [] server :=
  ⟨rfl, fun _ => rfl⟩

theorem MemServer.Settled.trans {requested found requested' found' : List (Word 4)}
    {before middle after : MemServer} (first : before.Settled requested found middle)
    (second : middle.Settled requested' found' after) :
    before.Settled (requested ++ requested') (found ++ found') after := by
  refine ⟨second.size_eq.trans first.size_eq, ?_⟩
  intro global_id
  have firstCount := first.refcount_eq global_id
  have secondCount := second.refcount_eq global_id
  rw [List.count_append, List.count_append]
  push_cast
  omega

namespace Python

/-- The descriptor is there and the server still has the buffer. -/
def SharedBuffer.Live (server : MemServer) (shared : SharedBuffer) : Prop :=
  shared.hasFd = true ∧ (server.size shared.global_id).isSome = true

/-- The size and the identifier which are sent. -/
def SharedBuffer.announced (shared : SharedBuffer) : Word 4 × Word 4 :=
  if shared.hasFd then (Word.ofNat 4 shared.size, shared.global_id) else (0, -1)

namespace PyValue

/-- The shared buffer of which the value has a handle. -/
def handle : PyValue → Option (Word 4)
  | .sharedBuffer shared | .mappedArray shared _ _ =>
      if shared.hasFd then some shared.global_id else Option.none
  | _ => Option.none

/-- The buffers which the writer acquires. -/
def acquired (network : Bool) : PyValue → List (Word 4)
  | .sharedBuffer shared => if shared.hasFd ∧ network = false then [shared.global_id] else []
  | _ => []

/-- The buffers for which the reader calls `get_buffer`. -/
def requested : PyValue → List (Word 4)
  | .sharedBuffer shared => if shared.hasFd ∧ shared.size ≠ 0 then [shared.global_id] else []
  | _ => []

/-- The bytes of a value which can be written. -/
def message : PyValue → List UInt8
  | .sharedBuffer shared => ValueType.kAny.toByte :: Wire.shared shared.announced
  | v => v.wire

/-- The writer accepts the value. -/
def Sendable : PyValue → Prop
  | .sharedBuffer shared => shared.hasFd = true → shared.size < 2 ^ 32
  | .mappedArray _ _ _ => False
  | v => v.Packable

/-- The reader accepts the value in front of these bytes: the slice of a string is decoded. -/
def Decodes : PyValue → List UInt8 → Prop
  | .str value, following =>
      (decode (sliceTo (encode value ++ following) ((encode value).length - 1))).isOk = true
  | _, _ => True

/-- A shared value comes back with the same kind on the same buffer, or as `None` over the
network or when the buffer is gone.  Nothing is asked from the other values. -/
def ComesBack (network : Bool) (server : MemServer) : PyValue → PyValue → Prop
  | .sharedBuffer shared, w =>
      (network = false ∧ shared.Live server → ∃ shared', w = .sharedBuffer shared' ∧
        shared'.hasFd = true ∧ shared'.global_id = shared.global_id) ∧
      (¬(network = false ∧ shared.Live server) → w = .none)
  | .mappedArray shared dtype shape, w =>
      (network = false ∧ shared.Live server → ∃ shared', w = .mappedArray shared' dtype shape ∧
        shared'.hasFd = true ∧ shared'.global_id = shared.global_id) ∧
      (¬(network = false ∧ shared.Live server) → w = .none)
  | _, _ => True

theorem comesBack_congr {network : Bool} {server server' : MemServer} {v w : PyValue}
    (same : server'.size = server.size) (comesBack : v.ComesBack network server' w) :
    v.ComesBack network server w := by
  cases v with
  | sharedBuffer shared | mappedArray shared dtype shape =>
      simpa only [ComesBack, SharedBuffer.Live, same] using comesBack
  | _ => trivial

theorem handle_scalar (t : ElemType) (w : Word t.size) :
    (Unpack.scalar t w).handle = Option.none := by
  cases t <;> rfl

end PyValue

/-- Both are one value, or both are lists. -/
def PyData.SameKind : PyData → PyData → Prop
  | .value _, .value _ | .list _, .list _ => True
  | _, _ => False

/-- The bytes after the priority, for data which is not unwrapped. -/
def PyData.message : PyData → List UInt8
  | .value v => 0 :: v.message
  | .list values => 1 :: Wire.counted values.length (values.flatMap PyValue.message)

def PyEvent.message (nodeid : ℤ) (event : PyEvent) : List UInt8 :=
  Wire.header (Word.ofNat 4 nodeid.toNat) (Word.ofNat 4 event.event_id.toNat)
    (Word.ofNat 1 event.priority.toNat) ++ (Pack.unwrap event.data).message

/-- The writer accepts the event. -/
structure PyEvent.Sendable (nodeid : ℤ) (event : PyEvent) : Prop where
  nodeid : 0 ≤ nodeid ∧ nodeid < 2 ^ 32
  event_id : 0 ≤ event.event_id ∧ event.event_id < 2 ^ 32
  priority : 0 ≤ event.priority ∧ event.priority < 256
  length : (Pack.unwrap event.data).values.length < 2 ^ 32
  values : ∀ v ∈ (Pack.unwrap event.data).values, v.Sendable

/-! ## Sending -/

namespace Pack

/-- What packing does to the server. -/
def acquires (ids : List (Word 4)) (server : Option MemServer) : Option MemServer :=
  server.map (·.acquireAll ids)

theorem acquires_nil : acquires [] = id := by
  funext server
  cases server <;> rfl

theorem acquires_append (ids others : List (Word 4)) :
    acquires (ids ++ others) = acquires others ∘ acquires ids := by
  funext server
  cases server <;> simp [acquires, MemServer.acquireAll_append]

theorem foldl_acquires (network : Bool) (values : List PyValue) :
    (fun server => values.foldl (fun server v => acquires (v.acquired network) server) server) =
      acquires (values.flatMap (PyValue.acquired network)) := by
  funext server
  induction values generalizing server with
  | nil => rw [List.flatMap_nil, acquires_nil, List.foldl_nil, id]
  | cons v values ih =>
      rw [List.foldl_cons, ih, List.flatMap_cons, acquires_append, Function.comp_apply]

theorem sendsIf_shared (shared : SharedBuffer) (network : Bool) :
    SendsIf (shared.hasFd = true → shared.size < 2 ^ 32) (_pack network (.sharedBuffer shared))
      (PyValue.sharedBuffer shared).message
      (acquires ((PyValue.sharedBuffer shared).acquired network)) := by
  rcases shared with ⟨_ | _, size, global_id⟩
  · have written : Writes (_pack network (.sharedBuffer ⟨false, size, global_id⟩))
        ([ValueType.kAny.toByte] ++ ([BufferType.kSharedBuffer.toByte] ++
          ((0 : Word 4).bytes ++ (-1 : Word 4).bytes))) := by
      apply (writes_emit _).andThen
      apply (writes_emit _).andThen
      exact (writes_emit _).andThen (writes_emit _)
    exact written.sends.sendsIf.congr (by simp) rfl acquires_nil.symm
  · have counted : Sends (do
          emit global_id.bytes
          if !network then acquire global_id)
        global_id.bytes
        (acquires ((PyValue.sharedBuffer ⟨true, size, global_id⟩).acquired network)) := by
      cases network with
      | false =>
          intro stream
          rfl
      | true => exact acquires_nil ▸ (writes_emit global_id.bytes).sends
    have sent : SendsIf (True ∧ True ∧ size < 256 ^ 4 ∧ True)
        (_pack network (.sharedBuffer ⟨true, size, global_id⟩))
        ([ValueType.kAny.toByte] ++ ([BufferType.kSharedBuffer.toByte] ++
          ((Word.ofNat 4 size).bytes ++ global_id.bytes)))
        (((acquires ((PyValue.sharedBuffer ⟨true, size, global_id⟩).acquired network) ∘ id) ∘ id) ∘
          id) := by
      apply (writes_emit _).sends.sendsIf.andThen
      apply (writes_emit _).sends.sendsIf.andThen
      exact (writesIf_count 4 size).sendsIf.andThen counted.sendsIf
    exact sent.congr (by simp) rfl rfl

theorem sendsIf_value (v : PyValue) (network : Bool) :
    SendsIf v.Sendable (_pack network v) v.message (acquires (v.acquired network)) := by
  have plain : v.Plain → SendsIf v.Packable (_pack network v) v.wire (acquires []) := by
    intro plain
    rw [acquires_nil]
    exact (writesIf_pack plain network).sendsIf
  cases v with
  | sharedBuffer shared => exact sendsIf_shared shared network
  | mappedArray shared dtype shape =>
      intro stream result
      have raised : ¬_pack network (.mappedArray shared dtype shape) stream = .ok result := by
        intro run
        rcases bind_eq_ok.mp run with ⟨_, middle, -, last⟩
        cases last
      exact ⟨fun run => absurd run raised, fun both => both.1.elim⟩
  | _ => exact plain trivial

theorem sendsIf_data (data : PyData) (network : Bool) :
    SendsIf (data.values.length < 2 ^ 32 ∧ ∀ v ∈ data.values, v.Sendable) (pack_data network data)
      data.message (acquires (data.values.flatMap (PyValue.acquired network))) := by
  cases data with
  | value v =>
      have sent : SendsIf (True ∧ v.Sendable) (pack_data network (.value v)) ([0] ++ v.message)
          (acquires (v.acquired network) ∘ id) := by
        apply (writes_emit _).sends.sendsIf.andThen
        exact sendsIf_value v network
      exact sent.congr (by simp [PyData.values]) rfl (by simp [PyData.values])
  | list values =>
      have each := sendsIf_forM fun v (_ : v ∈ values) => sendsIf_value v network
      rw [foldl_acquires] at each
      have sent : SendsIf (True ∧ values.length < 256 ^ 4 ∧ ∀ v ∈ values, v.Sendable)
          (pack_data network (.list values))
          ([1] ++ ((Word.ofNat 4 values.length).bytes ++ values.flatMap PyValue.message))
          ((acquires (values.flatMap (PyValue.acquired network)) ∘ id) ∘ id) := by
        apply (writes_emit _).sends.sendsIf.andThen
        exact (writesIf_count 4 values.length).sendsIf.andThen each
      exact sent.congr (by simp [PyData.values]) rfl rfl

theorem sendsIf_event (nodeid : ℤ) (event : PyEvent) (network : Bool) :
    SendsIf (event.Sendable nodeid) (pack nodeid event network) (event.message nodeid)
      (acquires ((unwrap event.data).values.flatMap (PyValue.acquired network))) := by
  have sent : SendsIf
      ((0 ≤ nodeid ∧ nodeid < 256 ^ 4) ∧ (0 ≤ event.event_id ∧ event.event_id < 256 ^ 4) ∧
        (0 ≤ event.priority ∧ event.priority < 256 ^ 1) ∧
        (unwrap event.data).values.length < 2 ^ 32 ∧ ∀ v ∈ (unwrap event.data).values, v.Sendable)
      (pack nodeid event network)
      ((Word.ofNat 4 nodeid.toNat).bytes ++ ((Word.ofNat 4 event.event_id.toNat).bytes ++
        ((Word.ofNat 1 event.priority.toNat).bytes ++ (unwrap event.data).message)))
      (((acquires ((unwrap event.data).values.flatMap (PyValue.acquired network)) ∘ id) ∘ id) ∘
        id) := by
    apply (writesIf_unsigned 4 nodeid).sendsIf.andThen
    apply (writesIf_unsigned 4 event.event_id).sendsIf.andThen
    apply (writesIf_unsigned 1 event.priority).sendsIf.andThen
    exact sendsIf_data (unwrap event.data) network
  apply sent.congr
  · constructor
    · rintro ⟨nodeid, event_id, priority, length, values⟩
      exact ⟨nodeid, event_id, priority, length, values⟩
    · rintro ⟨nodeid, event_id, priority, length, values⟩
      exact ⟨nodeid, event_id, priority, length, values⟩
  · simp [PyEvent.message, Wire.header]
  · rfl

end Pack

/-! ## Receiving -/

namespace Unpack

/-- What is read for a value of which the handle is among the requested buffers. -/
structure Receives (v : PyValue) (following : List UInt8) (before : MemServer) (w : PyValue)
    (after : MemServer) : Prop where
  run : unpack_value ⟨v.message ++ following, some before⟩ = .ok (w, ⟨following, some after⟩)
  settled : before.Settled v.requested w.handle.toList after
  comesBack : ∀ network, v.requested = v.acquired network → v.ComesBack network before w

/-- The handle comes from `get_buffer`, and only a buffer which is gone loses a reference. -/
theorem unpack_value_shared (announced : Word 4 × Word 4) (following : List UInt8)
    (server : MemServer) :
    unpack_value ⟨ValueType.kAny.toByte :: Wire.shared announced ++ following, some server⟩ =
      .ok (if announced.1 = 0 then (.none, ⟨following, some server⟩)
        else match server.size announced.2 with
          | none => (.none, ⟨following, some (server.release announced.2)⟩)
          | some bytes =>
              (.sharedBuffer ⟨true, bytes, announced.2⟩, ⟨following, some server⟩)) := by
  simp only [Wire.shared, List.cons_append, List.append_assoc]
  rw [unpack_value_any, _read_maybe_shared_bytestream, read_byte, bind_of_ok (byte_cons _ _ _ _),
    read, bind_of_ok (reads_word _ _ _ _), if_neg (by decide), bind_of_ok (reads_word _ _ _ _)]
  split_ifs with empty
  · rfl
  · cases size : server.size announced.2 with
    | none =>
        have gone : get_shared announced.2 ⟨following, some server⟩ =
            .ok (none, ⟨following, some (server.release announced.2)⟩) := by
          simp [get_shared, MemServer.get_buffer, size]
        rw [bind_of_ok gone]
        rfl
    | some bytes =>
        have found : get_shared announced.2 ⟨following, some server⟩ =
            .ok (some ⟨true, bytes, announced.2⟩, ⟨following, some server⟩) := by
          simp [get_shared, MemServer.get_buffer, size, MemServer.release_acquire]
        rw [bind_of_ok found]
        rfl

theorem receives_shared (shared : SharedBuffer)
    (short : shared.hasFd = true → shared.size < 2 ^ 32) (following : List UInt8)
    (server : MemServer) :
    ∃ w after, Receives (.sharedBuffer shared) following server w after := by
  have run := unpack_value_shared shared.announced following server
  rcases shared with ⟨_ | _, size, global_id⟩
  · refine ⟨.none, server, run, .refl server, fun network _ => ?_⟩
    exact ⟨fun live => absurd live.2.1 Bool.false_ne_true, fun _ => rfl⟩
  · have short : size < 2 ^ 32 := short rfl
    have announced : SharedBuffer.announced ⟨true, size, global_id⟩ =
        (Word.ofNat 4 size, global_id) := rfl
    rw [announced] at run
    have zero_iff : Word.ofNat 4 size = 0 ↔ size = 0 := by
      rw [← BitVec.toNat_inj, toNat_count short]
      rfl
    by_cases empty : size = 0
    · rw [if_pos (zero_iff.mpr empty)] at run
      have requested : (PyValue.sharedBuffer ⟨true, size, global_id⟩).requested = [] := by
        simp [PyValue.requested, empty]
      refine ⟨.none, server, run, requested ▸ .refl server, fun network same => ?_⟩
      have overNetwork : network = true := by
        rw [requested] at same
        simpa [PyValue.acquired] using same
      exact ⟨fun live => by simp [overNetwork] at live, fun _ => rfl⟩
    · have requested : (PyValue.sharedBuffer ⟨true, size, global_id⟩).requested = [global_id] := by
        simp [PyValue.requested, empty]
      rw [if_neg fun zero => empty (zero_iff.mp zero)] at run
      cases found : server.size global_id with
      | none =>
          simp only [found] at run
          refine ⟨.none, server.release global_id, run, ?_, fun network _ => ?_⟩
          · rw [requested]
            refine ⟨rfl, fun other => ?_⟩
            by_cases same : other = global_id
            · simp [MemServer.release, PyValue.handle, same]
            · simp [MemServer.release, PyValue.handle, same, Ne.symm same]
          · exact ⟨fun live => by simp [SharedBuffer.Live, found] at live, fun _ => rfl⟩
      | some bytes =>
          simp only [found] at run
          refine ⟨.sharedBuffer ⟨true, bytes, global_id⟩, server, run, ?_, fun network same => ?_⟩
          · rw [requested]
            exact ⟨rfl, fun _ => rfl⟩
          · have local_ : network = false := by
              rw [requested] at same
              simpa [PyValue.acquired] using same.symm
            refine ⟨fun _ => ⟨_, rfl, rfl, rfl⟩, fun gone => absurd ⟨local_, rfl, ?_⟩ gone⟩
            simp [found]

theorem receives_value {v : PyValue} (sendable : v.Sendable) {following : List UInt8}
    (decodes : v.Decodes following) (server : MemServer) :
    ∃ w after, Receives v following server w after := by
  have plain : ∀ w, unpack_value ⟨v.message ++ following, some server⟩ =
      .ok (w, ⟨following, some server⟩) → w.handle = none → v.requested = [] →
      (∀ network, v.ComesBack network server w) →
      ∃ w after, Receives v following server w after := by
    intro w run handle requested comesBack
    refine ⟨w, server, run, ?_, fun network _ => comesBack network⟩
    rw [handle, requested]
    exact .refl server
  cases v with
  | none => exact plain _ (reads_none following _) rfl rfl fun _ => trivial
  | int value =>
      exact plain _ (reads_scalar _ _ following _) (PyValue.handle_scalar _ _) rfl fun _ => trivial
  | float value =>
      exact plain _ (reads_scalar .float _ following _) rfl rfl fun _ => trivial
  | str value =>
      have read := unpack_value_string sendable following (some server)
      cases decoded : decode (sliceTo (encode value ++ following) ((encode value).length - 1)) with
      | error e => simp [PyValue.Decodes, decoded, Except.isOk, Except.toBool] at decodes
      | ok text =>
          rw [decoded] at read
          exact plain _ read rfl rfl fun _ => trivial
  | bytes value =>
      exact plain _ (unpack_value_buffer sendable following _) rfl rfl fun _ => trivial
  | ndarray value =>
      have kept : KeptBefore PyValue.text? (.ndarray value) following := by
        rintro text ⟨⟩
      have inDomain : (PyValue.ndarray value).InDomain := trivial
      have read := unpack_value_of_kept inDomain sendable kept (some server)
      exact plain _ read rfl rfl fun _ => trivial
  | sharedBuffer shared => exact receives_shared shared sendable following server
  | mappedArray shared dtype shape => exact sendable.elim

/-- The values of a list, each read after the ones in front of it. -/
structure ReceivesAll (values : List PyValue) (following : List UInt8) (before : MemServer)
    (results : List PyValue) (after : MemServer) : Prop where
  run : repeatN unpack_value values.length
    ⟨values.flatMap PyValue.message ++ following, some before⟩ =
      .ok (results, ⟨following, some after⟩)
  settled : before.Settled (values.flatMap PyValue.requested) (results.filterMap PyValue.handle)
    after
  comesBack : ∀ network, (∀ v ∈ values, v.requested = v.acquired network) →
    List.Forall₂ (PyValue.ComesBack network before) values results

theorem receivesAll {values : List PyValue} (sendable : ∀ v ∈ values, v.Sendable)
    {following : List UInt8}
    (decodes : EachFollowed PyValue.message PyValue.Decodes values following)
    (server : MemServer) : ∃ results after, ReceivesAll values following server results after := by
  induction values generalizing server with
  | nil => exact ⟨[], server, rfl, .refl server, fun _ _ => .nil⟩
  | cons v values ih =>
      rcases receives_value (sendable v List.mem_cons_self) decodes.1 server with
        ⟨w, middle, received⟩
      rcases ih (fun other mem => sendable other (List.mem_cons_of_mem v mem)) decodes.2 middle with
        ⟨results, after, receivedAll⟩
      refine ⟨w :: results, after, ?_, ?_, ?_⟩
      · rw [List.flatMap_cons, List.append_assoc, List.length_cons, repeatN,
          bind_of_ok received.run, bind_of_ok receivedAll.run]
        rfl
      · have found : (w :: results).filterMap PyValue.handle =
            w.handle.toList ++ results.filterMap PyValue.handle := by
          cases handle : w.handle <;> simp [handle]
        rw [List.flatMap_cons, found]
        exact received.settled.trans receivedAll.settled
      · intro network same
        refine .cons (received.comesBack network (same v List.mem_cons_self)) ?_
        have others := receivedAll.comesBack network
          fun other mem => same other (List.mem_cons_of_mem v mem)
        apply others.imp
        exact fun sent back => PyValue.comesBack_congr received.settled.size_eq

/-- The reader accepts only the values which it decodes. -/
theorem decodes_of_run {v : PyValue} (sendable : v.Sendable) {following : List UInt8}
    {server : Option MemServer} {result : PyValue × Stream (Option MemServer)}
    (run : unpack_value ⟨v.message ++ following, server⟩ = .ok result) : v.Decodes following := by
  cases v with
  | str value =>
      change unpack_value ⟨Wire.string _ (encode value) ++ following, server⟩ = _ at run
      rw [unpack_value_string sendable] at run
      cases decoded : decode (sliceTo (encode value ++ following) ((encode value).length - 1)) with
      | error e =>
          rw [decoded] at run
          cases run
      | ok text => simp [PyValue.Decodes, decoded, Except.isOk, Except.toBool]
  | _ => trivial

theorem eachDecodes_of_run {values : List PyValue} (sendable : ∀ v ∈ values, v.Sendable)
    {following : List UInt8} {server : MemServer}
    {result : List PyValue × Stream (Option MemServer)}
    (run : repeatN unpack_value values.length
      ⟨values.flatMap PyValue.message ++ following, some server⟩ = .ok result) :
    EachFollowed PyValue.message PyValue.Decodes values following := by
  induction values generalizing server result with
  | nil => trivial
  | cons v values ih =>
      have first := sendable v List.mem_cons_self
      rw [List.flatMap_cons, List.append_assoc, List.length_cons, repeatN] at run
      rcases bind_eq_ok.mp run with ⟨w, middle, readValue, run⟩
      rcases bind_eq_ok.mp run with ⟨others, last, readValues, -⟩
      have decodes := decodes_of_run first readValue
      rcases receives_value first decodes server with ⟨w', after, received⟩
      rw [received.run] at readValue
      cases readValue
      exact ⟨decodes, ih (fun other mem => sendable other (List.mem_cons_of_mem v mem)) readValues⟩

theorem unpack_data_value (nodeid event_id : Word 4) (priority : Word 1) (v : PyValue)
    (server : Option MemServer) :
    unpack_data nodeid event_id priority ⟨(PyData.value v).message, server⟩ =
      (do
        let w ← unpack_value
        pure ((nodeid.toNat : ℤ), PyEvent.mk event_id.toNat priority.toNat (.value w)) : PyAction _)
        ⟨v.message, server⟩ := by
  rw [PyData.message, unpack_data, read_byte, bind_of_ok (byte_cons _ _ _ _), if_pos rfl]

theorem unpack_data_list (nodeid event_id : Word 4) (priority : Word 1) {values : List PyValue}
    (length : values.length < 2 ^ 32) (server : Option MemServer) :
    unpack_data nodeid event_id priority ⟨(PyData.list values).message, server⟩ =
      (do
        let ws ← repeatN unpack_value values.length
        pure ((nodeid.toNat : ℤ), PyEvent.mk event_id.toNat priority.toNat (.list ws)) : PyAction _)
        ⟨values.flatMap PyValue.message, server⟩ := by
  rw [PyData.message, unpack_data, read_byte, bind_of_ok (byte_cons _ _ _ _),
    if_neg (by decide), Wire.counted, read, bind_of_ok (reads_word _ _ _ _), toNat_count length]

/-- The data of an event is read like the list of its values. -/
theorem receives_data {data : PyData} (length : data.values.length < 2 ^ 32)
    (sendable : ∀ v ∈ data.values, v.Sendable)
    (decodes : EachFollowed PyValue.message PyValue.Decodes data.values [])
    (nodeid event_id : Word 4) (priority : Word 1) (server : MemServer) :
    ∃ received after, unpack_data nodeid event_id priority ⟨data.message, some server⟩ =
        .ok ((nodeid.toNat, ⟨event_id.toNat, priority.toNat, received⟩), ⟨[], some after⟩) ∧
      data.SameKind received ∧ ReceivesAll data.values [] server received.values after := by
  rcases receivesAll sendable decodes server with ⟨results, after, all⟩
  have run := all.run
  rw [List.append_nil] at run
  cases data with
  | value v =>
      have single : ∃ w, unpack_value ⟨v.message, some server⟩ = .ok (w, ⟨[], some after⟩) ∧
          results = [w] := by
        change repeatN unpack_value 1 ⟨v.message ++ [], _⟩ = _ at run
        rw [List.append_nil] at run
        rcases bind_eq_ok.mp run with ⟨w, middle, first, last⟩
        cases last
        exact ⟨w, first, rfl⟩
      rcases single with ⟨w, first, rfl⟩
      refine ⟨.value w, after, ?_, trivial, all⟩
      rw [unpack_data_value, bind_of_ok first]
      rfl
  | list values =>
      refine ⟨.list results, after, ?_, trivial, all⟩
      rw [unpack_data_list _ _ _ (show values.length < 2 ^ 32 from length)]
      exact (bind_of_ok run _).trans rfl

theorem eachDecodes_of_data {data : PyData} (length : data.values.length < 2 ^ 32)
    (sendable : ∀ v ∈ data.values, v.Sendable) {nodeid event_id : Word 4} {priority : Word 1}
    {server : MemServer} {result : (ℤ × PyEvent) × Stream (Option MemServer)}
    (run : unpack_data nodeid event_id priority ⟨data.message, some server⟩ = .ok result) :
    EachFollowed PyValue.message PyValue.Decodes data.values [] := by
  cases data with
  | value v =>
      rw [unpack_data_value] at run
      rcases bind_eq_ok.mp run with ⟨w, middle, first, -⟩
      rw [← List.append_nil v.message] at first
      exact ⟨decodes_of_run (sendable v List.mem_cons_self) first, trivial⟩
  | list values =>
      rw [unpack_data_list _ _ _ (show values.length < 2 ^ 32 from length)] at run
      rcases bind_eq_ok.mp run with ⟨ws, middle, all, -⟩
      apply eachDecodes_of_run sendable
      rwa [List.append_nil]

end Unpack

/-! ## When shared values come back -/

/-- The values which come back, and each buffer with one reference more for each handle. -/
structure SharesBack (network : Bool) (before after : MemServer) (sent received : PyData) :
    Prop where
  sameKind : sent.SameKind received
  values : List.Forall₂ (PyValue.ComesBack network before) sent.values received.values
  counts : ∀ global_id, after.refcount global_id =
    before.refcount global_id + (received.values.filterMap PyValue.handle).count global_id

/-- An event which is packed, and then unpacked to the last byte with the same server. -/
def SharedValuesReturn (network : Bool) (nodeid : ℤ) (event : PyEvent) (server : MemServer) :
    Prop :=
  ∃ bytes packed result after,
    Pack.pack nodeid event network ⟨[], some server⟩ = .ok ((), ⟨bytes, some packed⟩) ∧
    Unpack.unpack_event ⟨bytes, some packed⟩ = .ok (result, ⟨[], some after⟩) ∧
    SharesBack network server after (Pack.unwrap event.data) result.2.data

/-- No array, a buffer which is empty if and only if it is sent over the network, and nothing
that is refused on either side. -/
structure PyEvent.Returned (network : Bool) (nodeid : ℤ) (event : PyEvent) : Prop where
  sendable : event.Sendable nodeid
  decodes : EachFollowed PyValue.message PyValue.Decodes (Pack.unwrap event.data).values []
  buffers : ∀ shared, .sharedBuffer shared ∈ (Pack.unwrap event.data).values →
    shared.hasFd = true → (shared.size = 0 ↔ network = true)

theorem PyValue.requested_eq_acquired_iff (network : Bool) (v : PyValue) :
    v.requested = v.acquired network ↔ ∀ shared, v = .sharedBuffer shared →
      shared.hasFd = true → (shared.size = 0 ↔ network = true) := by
  cases v with
  | sharedBuffer shared =>
      simp only [sharedBuffer.injEq, forall_eq', requested, acquired]
      cases network <;> cases shared.hasFd <;> simp
  | _ => simp [requested, acquired]

/-- Parts of the same total length are the wholes. -/
theorem eq_of_length_flatMap {α β : Type} {part whole : α → List β} {items : List α}
    (sub : ∀ item ∈ items, (part item).Sublist (whole item))
    (length : (items.flatMap part).length = (items.flatMap whole).length) :
    ∀ item ∈ items, part item = whole item := by
  induction items with
  | nil => simp
  | cons item items ih =>
      have subOthers := fun other mem => sub other (List.mem_cons_of_mem item mem)
      have first := sub item List.mem_cons_self
      have others : (items.flatMap part).Sublist (items.flatMap whole) := by
        clear ih length sub first
        induction items with
        | nil => simp
        | cons other items ih =>
            rw [List.flatMap_cons, List.flatMap_cons]
            apply (subOthers other List.mem_cons_self).append
            exact ih fun item mem => subOthers item (List.mem_cons_of_mem other mem)
      rw [List.flatMap_cons, List.flatMap_cons, List.length_append, List.length_append] at length
      have firstLength := first.length_le
      have othersLength := others.length_le
      rw [List.forall_mem_cons]
      refine ⟨first.eq_of_length (by omega), ih subOthers (by omega)⟩

/-- Total counts which agree do so for each value: the acquisitions include the requests, or there
are none of them over the network. -/
theorem requested_eq_acquired_of_count {network : Bool} {values : List PyValue}
    (counts : ∀ global_id, (values.flatMap PyValue.requested).count global_id =
      (values.flatMap (PyValue.acquired network)).count global_id) :
    ∀ v ∈ values, v.requested = v.acquired network := by
  have length := (List.perm_iff_count.mpr counts).length_eq
  cases network with
  | false =>
      apply eq_of_length_flatMap _ length
      intro v mem
      cases v with
      | sharedBuffer shared =>
          simp only [PyValue.requested, PyValue.acquired]
          split_ifs <;> simp_all
      | _ => exact .slnil
  | true =>
      intro v mem
      symm
      apply eq_of_length_flatMap _ length.symm v mem
      intro v mem
      cases v with
      | sharedBuffer shared => simp [PyValue.acquired]
      | _ => exact .slnil

section RoundTrip

variable {network : Bool} {nodeid : ℤ} {event : PyEvent} {server : MemServer}

/-- The buffers which are acquired for an event. -/
def PyEvent.acquired (network : Bool) (event : PyEvent) : List (Word 4) :=
  (Pack.unwrap event.data).values.flatMap (PyValue.acquired network)

theorem Pack.pack_eq_ok_iff {bytes : List UInt8} {packed : MemServer} :
    pack nodeid event network ⟨[], some server⟩ = .ok ((), ⟨bytes, some packed⟩) ↔
      event.Sendable nodeid ∧ bytes = event.message nodeid ∧
        packed = server.acquireAll (event.acquired network) := by
  rw [sendsIf_event nodeid event network _ _]
  simp [acquires, PyEvent.acquired]

/-- What a whole round trip gives. -/
theorem unpack_event_receives (sendable : event.Sendable nodeid)
    (decodes : EachFollowed PyValue.message PyValue.Decodes (Pack.unwrap event.data).values [])
    (packed : MemServer) :
    ∃ result after, Unpack.unpack_event ⟨event.message nodeid, some packed⟩ =
        .ok (result, ⟨[], some after⟩) ∧
      (Pack.unwrap event.data).SameKind result.2.data ∧
      Unpack.ReceivesAll (Pack.unwrap event.data).values [] packed result.2.data.values after := by
  rcases Unpack.receives_data sendable.length sendable.values decodes
    (Word.ofNat 4 nodeid.toNat) (Word.ofNat 4 event.event_id.toNat)
    (Word.ofNat 1 event.priority.toNat) packed with ⟨received, after, run, sameKind, all⟩
  rw [← Unpack.unpack_header] at run
  exact ⟨_, after, run, sameKind, all⟩

/-- After both directions, the requests which are not balanced by an acquisition are missing in
the counts. -/
theorem refcount_unpacked {results : List PyValue} {after : MemServer}
    (all : Unpack.ReceivesAll (Pack.unwrap event.data).values []
      (server.acquireAll (event.acquired network)) results after) (global_id : Word 4) :
    after.refcount global_id +
        ((Pack.unwrap event.data).values.flatMap PyValue.requested).count global_id =
      server.refcount global_id + (event.acquired network).count global_id +
        (results.filterMap PyValue.handle).count global_id := by
  rw [all.settled.refcount_eq, MemServer.refcount_acquireAll]

theorem requested_eq_acquired_iff :
    (∀ v ∈ (Pack.unwrap event.data).values, v.requested = v.acquired network) ↔
      ∀ shared, .sharedBuffer shared ∈ (Pack.unwrap event.data).values →
        shared.hasFd = true → (shared.size = 0 ↔ network = true) := by
  simp only [PyValue.requested_eq_acquired_iff]
  constructor
  · intro all shared mem
    exact all _ mem shared rfl
  · rintro all v mem shared rfl
    exact all shared mem

theorem returned_of_sharedValuesReturn (returns : SharedValuesReturn network nodeid event server) :
    event.Returned network nodeid := by
  rcases returns with ⟨bytes, packed, result, after, pack, run, shares⟩
  rcases Pack.pack_eq_ok_iff.mp pack with ⟨sendable, rfl, rfl⟩
  have decodes :
      EachFollowed PyValue.message PyValue.Decodes (Pack.unwrap event.data).values [] := by
    apply Unpack.eachDecodes_of_data sendable.length sendable.values
    rw [PyEvent.message, Unpack.unpack_header] at run
    exact run
  refine ⟨sendable, decodes, requested_eq_acquired_iff.mp ?_⟩
  rcases unpack_event_receives sendable decodes _ with ⟨result', after', run', -, all⟩
  rw [run'] at run
  cases run
  apply requested_eq_acquired_of_count
  intro global_id
  have count := refcount_unpacked all global_id
  rw [shares.counts] at count
  change _ = (event.acquired network).count global_id
  omega

theorem sharedValuesReturn_of_returned (returned : event.Returned network nodeid)
    (server : MemServer) : SharedValuesReturn network nodeid event server := by
  have balanced := requested_eq_acquired_iff.mpr returned.buffers
  rcases unpack_event_receives returned.sendable returned.decodes
    (server.acquireAll (event.acquired network)) with ⟨result, after, run, sameKind, all⟩
  refine ⟨_, _, result, after, Pack.pack_eq_ok_iff.mpr ⟨returned.sendable, rfl, rfl⟩, run, sameKind,
    ?_, ?_⟩
  · apply (all.comesBack network balanced).imp
    exact fun sent back => PyValue.comesBack_congr (MemServer.size_acquireAll _)
  · intro global_id
    have count := refcount_unpacked all global_id
    have same : (Pack.unwrap event.data).values.flatMap PyValue.requested =
        event.acquired network := List.flatMap_congr balanced
    rw [same] at count
    omega

/-- Shared values come back exactly when there is no array, when the buffers are not empty, or
are all empty over the network, and when nothing else is refused. -/
theorem sharedValuesReturn_iff (network : Bool) (nodeid : ℤ) (event : PyEvent)
    (server : MemServer) :
    SharedValuesReturn network nodeid event server ↔ event.Returned network nodeid :=
  ⟨returned_of_sharedValuesReturn, fun returned => sharedValuesReturn_of_returned returned server⟩

end RoundTrip

/-! ## An array and a buffer -/

/-- An event with an array of 8 elements in the buffer 7. -/
def arrayEvent : PyEvent where
  event_id := 100
  priority := 1
  data := .value (.mappedArray ⟨true, 16, 7⟩ .int16 [8])

/-- An event with the buffer 7. -/
def sharedEvent : PyEvent where
  event_id := 100
  priority := 1
  data := .list [.int 3, .sharedBuffer ⟨true, 16, 7⟩]

/-- The array is refused, and a message from the network gives the buffer. -/
theorem sharedValues_not_returned :
    ¬SharedValuesReturn false 5 arrayEvent oneBuffer ∧
    ¬SharedValuesReturn true 5 sharedEvent oneBuffer := by
  refine ⟨fun returns => ?_, fun returns => ?_⟩
  · have returned := returned_of_sharedValuesReturn returns
    exact returned.sendable.values _ List.mem_cons_self
  · have returned := returned_of_sharedValuesReturn returns
    have empty := returned.buffers ⟨true, 16, 7⟩ (List.mem_cons_of_mem _ List.mem_cons_self) rfl
    exact absurd (empty.mpr rfl) (by decide)

/-! ## No array is read -/

namespace Unpack

/-- The value is no `MappedArray`. -/
def NoArray (v : PyValue) : Prop := ∀ shared dtype shape, v ≠ .mappedArray shared dtype shape

theorem gives_ifTag {p : PyValue → Prop} {atEnd : Except PyError Bool} {k : ValueType}
    {found otherwise : PyAction PyValue} (ifFound : Gives p found) (ifNot : Gives p otherwise) :
    Gives p (ifTag atEnd k found otherwise) := by
  apply Gives.bind
  intro isTag
  cases isTag
  · exact ifNot
  · exact ifFound

theorem gives_firstTag {p : PyValue → Prop} {atEnd : Except PyError Bool}
    {found : ElemType → PyAction PyValue} {otherwise : PyAction PyValue} {types : List ElemType}
    (ifFound : ∀ t, Gives p (found t)) (ifNot : Gives p otherwise) :
    Gives p (firstTag atEnd found types otherwise) := by
  induction types with
  | nil => exact ifNot
  | cons t types ih => exact gives_ifTag (ifFound t) ih

theorem gives_elements (dims : List ℕ) (t : ElemType) :
    Gives NoArray (_read_maybe_shared_tensor dims t) := by
  apply Gives.bind
  intro buf_type
  split_ifs
  · apply Gives.bind
    intro nb
    apply Gives.bind
    intro data
    rw [reshape]
    split_ifs
    · exact gives_pure (by simp [NoArray])
    · exact gives_throw _ _
  · apply Gives.bind
    intro str_size
    apply Gives.bind
    intro global_id
    apply Gives.bind
    intro stream
    split_ifs
    · exact gives_pure (by simp [NoArray])
    · apply Gives.bind
      intro shared
      cases shared with
      | none => exact gives_throw _ _
      | some s =>
          dsimp only
          split_ifs
          · exact gives_pure (by simp [NoArray])
          · exact gives_throw _ _

theorem gives_bytestream : Gives NoArray _read_maybe_shared_bytestream := by
  apply Gives.bind
  intro buf_type
  apply Gives.bind
  intro str_size
  split_ifs
  · apply Gives.bind
    intro value
    exact gives_pure (by simp [NoArray])
  · apply Gives.bind
    intro global_id
    exact gives_pure (by simp [NoArray])
  · apply Gives.bind
    intro global_id
    apply Gives.bind
    intro shared
    cases shared <;> exact gives_pure (by simp [NoArray])

/-- The reader gives no array, whatever the bytes are. -/
theorem gives_unpack_value : Gives NoArray unpack_value := by
  apply gives_ifTag
  · exact gives_pure (by simp [NoArray])
  apply gives_firstTag
  · intro t
    apply Gives.bind
    intro w
    apply gives_pure
    cases t <;> simp [NoArray, scalar]
  apply gives_ifTag
  · apply Gives.bind
    intro str_size
    apply Gives.bind
    intro value
    cases decode value with
    | ok text => exact gives_pure (by simp [NoArray])
    | error e => exact gives_throw _ _
  apply gives_ifTag gives_bytestream
  apply gives_ifTag
  · apply Gives.bind
    intro nbdims
    apply Gives.bind
    intro nb
    apply Gives.bind
    intro dims
    exact gives_firstTag (gives_elements _) (gives_pure (by simp [NoArray]))
  · exact gives_pure (by simp [NoArray])

end Unpack

end Python

end CmsisStream.Events
