import CmsisStream.Events.Pack
import CmsisStream.Events.Unpack

/-!
# Packing and unpacking an event

`unpack_value` has no case for the two 64-bit integer types, and the lengths of the format
have 32 bits.  An event which owns its data survives the round trip exactly when none of its
values is concerned.
-/

namespace CmsisStream.Events

open Codec (Word Stream)
open Codec.Action

variable {cfg : Config}

namespace Value

/-- The number of elements of a tensor which owns its data fits in 32 bits. -/
def ShortTensor {t : ElemType} : Option (Tensor cfg t) → Prop
  | some ⟨_, _, .unique data⟩ => data.length < 2 ^ 32
  | _ => True

/-- `Unpack` can give this value. -/
def Decodable : Value cfg → Prop
  | .scalar t _ => t ∈ Unpack.scalarTypes
  | .string s => s.length + 1 < 2 ^ 32
  | .tensor _ handle | .constTensor _ handle => ShortTensor handle
  | .monostate | .buffer _ => True

/-- The value which does not say that a tensor is constant. -/
def unconst : Value cfg → Value cfg
  | .constTensor t handle => .tensor t handle
  | v => v

theorem decodable_unconst (v : Value cfg) : v.unconst.Decodable ↔ v.Decodable := by
  cases v <;> rfl

end Value

namespace Unpack

theorem reads_value_of_decodable {v : Value cfg} (owned : v.Owned) (decodable : v.Decodable) :
    Reads (unpack_value cfg) v.wire v.unconst := by
  have tensor : ∀ t (handle : Option (Tensor cfg t)), (Value.tensor t handle).Owned →
      (Value.tensor t handle).Decodable →
      Reads (unpack_value cfg) (Value.tensorWire handle) (.tensor t handle) := by
    rintro t handle ⟨⟨nb_dims, dims, storage⟩, data, rfl, stored, length, -⟩ lt
    cases stored
    change data.length < 2 ^ 32 at lt
    have size : Tensor.size ⟨nb_dims, dims, .unique data⟩ = data.length := by
      rw [Tensor.size_eq, ← length, Nat.mod_eq_of_lt lt]
    simp only [Value.tensorWire, size, List.take_length]
    exact reads_tensor nb_dims dims lt
  cases v with
  | monostate => exact reads_none
  | scalar t v => exact reads_scalar decodable v
  | buffer handle =>
      rcases owned with ⟨size, data, rfl, length⟩
      have ofNat : Word.ofNat 4 data.length = size := by
        rw [length]
        exact BitVec.eq_of_toNat_eq (Unpack.toNat_count size.isLt)
      have reads : Reads (unpack_value cfg) (Wire.buffer data.length data)
          (.buffer (some ⟨Word.ofNat 4 data.length, .unique data⟩)) :=
        reads_buffer (length ▸ size.isLt)
      rw [ofNat] at reads
      rwa [length] at reads
  | string s =>
      have length : (s ++ [0]).length = s.length + 1 := List.length_append
      have short : s.length + 1 < 2 ^ 32 := decodable
      have reads : Reads (unpack_value cfg) (Wire.string (s ++ [0]).length (s ++ [0]))
          (.string (s ++ [0]).dropLast) := reads_string (by simp) (length ▸ short)
      rwa [List.dropLast_concat, length] at reads
  | tensor t handle => exact tensor t handle owned decodable
  | constTensor t handle => exact tensor t handle owned decodable

theorem get_shared_decodable {global_id : Word 4} {stream stream' : Stream UnpackEnv}
    {v : Value cfg} (run : get_shared cfg global_id stream = .ok (v, stream')) :
    v.Decodable := by
  rcases get_shared_spec cfg global_id stream.bytes stream.env with
    ⟨w, env', read, -, ⟨-, rfl, -⟩ | ⟨fd, -, rfl, -⟩⟩
  all_goals
    rw [read] at run
    cases run
    trivial

theorem unpack_any_decodable {stream stream' : Stream UnpackEnv} {v : Value cfg}
    (run : unpack_any cfg stream = .ok (v, stream')) : v.Decodable := by
  rcases bind_eq_ok.mp run with ⟨buf_type, _, -, run⟩
  split at run
  · rcases bind_eq_ok.mp run with ⟨buf_size, _, -, run⟩
    rcases bind_eq_ok.mp run with ⟨buf, _, -, last⟩
    cases last
    trivial
  split at run
  · rcases bind_eq_ok.mp run with ⟨buf_size, _, -, run⟩
    rcases bind_eq_ok.mp run with ⟨global_id, _, -, run⟩
    split at run
    · cases run
      trivial
    · exact get_shared_decodable run
  · cases run
    trivial

theorem unpack_str_decodable {stream stream' : Stream UnpackEnv} {v : Value cfg}
    (run : unpack_str cfg stream = .ok (v, stream')) : v.Decodable := by
  rcases bind_eq_ok.mp run with ⟨str_size, _, -, run⟩
  rcases bind_eq_ok.mp run with ⟨buf, _, -, run⟩
  split at run
  · cases run
  · rename_i notZero
    cases run
    have positive : str_size.toNat ≠ 0 := fun zero => notZero (BitVec.eq_of_toNat_eq zero)
    have bound := str_size.isLt
    have length := List.length_take_le (str_size.toNat - 1) buf
    change (buf.take (str_size.toNat - 1)).length + 1 < 2 ^ 32
    omega

theorem unpack_tensor_decodable {t : ElemType} {nb_dims : Word 1}
    {dims : List.Vector (Word 4) cfg.tensorNbDims} {stream stream' : Stream UnpackEnv}
    {v : Value cfg} (run : unpack_tensor cfg t nb_dims dims stream = .ok (v, stream')) :
    v.Decodable := by
  rcases bind_eq_ok.mp run with ⟨buffer_type, _, -, run⟩
  split at run
  · rcases bind_eq_ok.mp run with ⟨nb, _, -, run⟩
    rcases bind_eq_ok.mp run with ⟨data, _, read, last⟩
    cases last
    change data.length < 2 ^ 32
    rw [length_repeatN read]
    exact nb.isLt
  split at run
  · rcases bind_eq_ok.mp run with ⟨nb_elems, _, -, run⟩
    rcases bind_eq_ok.mp run with ⟨global_id, _, -, run⟩
    rcases bind_eq_ok.mp run with ⟨_, _, -, run⟩
    split at run
    · cases run
      trivial
    · exact get_shared_decodable run
  · cases run
    trivial

theorem unpack_any_tensor_decodable {stream stream' : Stream UnpackEnv} {v : Value cfg}
    (run : unpack_any_tensor cfg stream = .ok (v, stream')) : v.Decodable := by
  rcases bind_eq_ok.mp run with ⟨nb_dims, _, -, run⟩
  rcases bind_eq_ok.mp run with ⟨dims, middle, -, run⟩
  rcases firstTag_eq_ok run with ⟨_, _, -, ⟨t, _, _, run⟩ | ⟨-, last⟩⟩
  · exact unpack_tensor_decodable run
  · cases last
    trivial

/-- Nothing else is ever read. -/
theorem unpack_value_decodable {stream stream' : Stream UnpackEnv} {v : Value cfg}
    (run : unpack_value cfg stream = .ok (v, stream')) : v.Decodable := by
  rcases stream with ⟨_ | ⟨byte, rest⟩, env⟩
  · rw [unpack_value_nil] at run
    cases run
  rcases tag_cases byte with rfl | ⟨t, mem, rfl⟩ | rfl | rfl | rfl | unknown
  · rw [unpack_value_none] at run
    cases run
    trivial
  · rw [unpack_value_scalar mem] at run
    rcases bind_eq_ok.mp run with ⟨word, _, -, last⟩
    cases last
    exact mem
  · rw [unpack_value_any] at run
    exact unpack_any_decodable run
  · rw [unpack_value_str] at run
    exact unpack_str_decodable run
  · rw [unpack_value_tensor] at run
    exact unpack_any_tensor_decodable run
  · rw [unpack_value_unknown unknown] at run
    cases run
    trivial

theorem unpack_values_decodable {i n : ℕ} {stream stream' : Stream UnpackEnv}
    {values : List (Value cfg)} (run : unpack_values cfg i n stream = .ok (values, stream')) :
    ∀ v ∈ values, v.Decodable := by
  induction n generalizing i stream values with
  | zero =>
      cases run
      simp
  | succ n ih =>
      rcases bind_eq_ok.mp run with ⟨v, _, readValue, run⟩
      split at run
      · rcases bind_eq_ok.mp run with ⟨others, _, readOthers, last⟩
        cases last
        exact List.forall_mem_cons.mpr ⟨unpack_value_decodable readValue, ih readOthers⟩
      · cases run

end Unpack

def EventData.unconst : EventData cfg → EventData cfg
  | .value v => .value v.unconst
  | .list values => .list (values.map Value.unconst)

/-- In front of any bytes, `unpack` gives back the node and the event of `pack` and reads
exactly the bytes written.  Tensors lose their constness, and the time to live is not sent. -/
def RoundTrips (nodeid : Word 4) (evt : Event cfg) : Prop :=
  ∀ network mem_server rest env, ∃ ttl,
    Unpack.unpack cfg ⟨Pack.serialized nodeid evt network mem_server ++ rest, env⟩ =
      .ok ((nodeid, ⟨evt.event_id, evt.priority, evt.data.unconst, ttl⟩), ⟨rest, env⟩)

namespace Unpack

theorem reads_data {nodeid event_id : Word 4} {priority : Priority} {data : EventData cfg}
    (owned : data.Owned) (decodable : ∀ v ∈ data.values, v.Decodable) :
    Reads (unpack_data cfg nodeid event_id priority) data.wire
      (nodeid, ⟨event_id, priority, data.unconst, 0⟩) := by
  cases data with
  | value v =>
      apply (reads_byte 0).bind
      rw [if_pos rfl]
      apply Reads.bind_pure
      exact reads_value_of_decodable owned (decodable v List.mem_cons_self)
  | list values =>
      have lt : values.length < 2 ^ 32 := owned.1.trans_lt cfg.maxValues_lt
      apply (reads_byte 1).bind
      rw [if_neg (by decide), if_pos rfl]
      apply reads_counted
      rw [toNat_count lt, unpack_values_eq (by simpa using owned.1)]
      apply Reads.bind_pure
      intro rest env
      have readBack : ∀ v ∈ values, ∀ following, v.Decodable →
          ∃ w, unpack_value cfg ⟨v.wire ++ following, env⟩ = .ok (w, ⟨following, env⟩) ∧
            v.unconst = w :=
        fun v mem following decodable =>
          ⟨v.unconst, reads_value_of_decodable (owned.2 v mem) decodable following env, rfl⟩
      have each : EachFollowed Value.wire (fun v _ => v.Decodable) values rest :=
        eachFollowed_const.mpr decodable
      rcases repeatN_of_each readBack each with ⟨results, run, agree⟩
      have mapped : List.Forall₂ Eq (values.map Value.unconst) results :=
        List.forall₂_map_left_iff.mpr agree
      rw [List.forall₂_eq_eq_eq] at mapped
      rw [run, mapped]

theorem unpack_data_decodable {nodeid event_id : Word 4} {priority : Priority}
    {data : EventData cfg} {rest : List UInt8} {env : UnpackEnv} {stream : Stream UnpackEnv}
    {evt : Event cfg}
    (run : unpack_data cfg nodeid event_id priority ⟨data.wire ++ rest, env⟩ =
      .ok ((nodeid, evt), stream))
    (same : evt.data = data.unconst) : ∀ v ∈ data.values, v.Decodable := by
  cases data with
  | value v =>
      simp only [EventData.wire, unpack_data, List.cons_append] at run
      rw [bind_of_ok (read_byte_cons 0 _ env), if_pos rfl] at run
      rcases bind_eq_ok.mp run with ⟨w, _, readValue, last⟩
      cases last
      cases same
      have decodable := unpack_value_decodable readValue
      rw [Value.decodable_unconst] at decodable
      simpa [EventData.values] using decodable
  | list values =>
      simp only [EventData.wire, unpack_data, List.cons_append] at run
      rw [bind_of_ok (read_byte_cons 1 _ env), if_neg (by decide), if_pos rfl] at run
      rcases bind_eq_ok.mp run with ⟨nb_values, _, -, run⟩
      rcases bind_eq_ok.mp run with ⟨ws, _, readValues, last⟩
      cases last
      cases same
      intro v mem
      rw [← Value.decodable_unconst]
      exact unpack_values_decodable readValues _ (List.mem_map_of_mem mem)

end Unpack

/-- An event which owns its data survives exactly when all its values can be decoded. -/
theorem event_roundTrips_iff (nodeid : Word 4) {evt : Event cfg} (owned : evt.data.Owned) :
    RoundTrips nodeid evt ↔ ∀ v ∈ evt.data.values, v.Decodable := by
  constructor
  · intro roundTrips
    rcases roundTrips false none [] ⟨none, false⟩ with ⟨ttl, run⟩
    rw [Pack.serialized_eq owned, Event.wire, List.append_assoc, Unpack.unpack_header] at run
    exact Unpack.unpack_data_decodable run rfl
  · intro decodable network mem_server rest env
    refine ⟨0, ?_⟩
    rw [Pack.serialized_eq owned, Event.wire, List.append_assoc, Unpack.unpack_header,
      Unpack.priority_number, Unpack.reads_data owned decodable]

/-- An integer, a string and a tensor of two elements. -/
def mixedEvent : Event .default where
  event_id := 100
  priority := .kHighPriority
  data := .list [.scalar .int16 7, .string [104, 105],
    .tensor .float (some ⟨1, ⟨[2, 0, 0], rfl⟩, .unique [0x3f800000, 0x40000000]⟩)]
  ttl := 0

theorem mixedEvent_owned : mixedEvent.data.Owned := by
  refine ⟨by decide, ?_⟩
  intro v mem
  rcases List.mem_cons.mp mem with rfl | mem
  · trivial
  rcases List.mem_cons.mp mem with rfl | mem
  · trivial
  rcases List.mem_singleton.mp mem
  exact ⟨_, _, rfl, rfl, by decide, by decide⟩

theorem mixedEvent_roundTrips : mixedEvent.data.Owned ∧ RoundTrips 5 mixedEvent := by
  refine ⟨mixedEvent_owned, (event_roundTrips_iff 5 mixedEvent_owned).mpr ?_⟩
  intro v mem
  rcases List.mem_cons.mp mem with rfl | mem
  · change ElemType.int16 ∈ Unpack.scalarTypes
    decide
  rcases List.mem_cons.mp mem with rfl | mem
  · change 3 < 2 ^ 32
    decide
  rcases List.mem_singleton.mp mem
  change 2 < 2 ^ 32
  decide

/-- The number 5 as an `int64_t`. -/
def int64Event : Event .default where
  event_id := 100
  priority := .kNormalPriority
  data := .value (.scalar .int64 5)
  ttl := 0

theorem int64Event_not_roundTrips : int64Event.data.Owned ∧ ¬RoundTrips 5 int64Event := by
  have owned : int64Event.data.Owned := trivial
  refine ⟨owned, fun roundTrips => ?_⟩
  rcases roundTrips false none [] ⟨none, false⟩ with ⟨ttl, run⟩
  rw [Pack.serialized_eq owned, Event.wire, List.append_assoc, Unpack.unpack_header] at run
  have decodable := Unpack.unpack_data_decodable run rfl _ List.mem_cons_self
  change ElemType.int64 ∈ Unpack.scalarTypes at decodable
  revert decodable
  decide

end CmsisStream.Events
