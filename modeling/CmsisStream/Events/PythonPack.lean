import CmsisStream.Events.Python

/-!
# What the Python writer writes

The writer accepts the numbers and the lengths which fit in their fields, and raises an
exception for the others.
-/

namespace CmsisStream.Events.Python

open Codec (Word)
open Codec.Action

namespace PyValue

/-- The value refers to no shared buffer. -/
def Plain : PyValue → Prop
  | .sharedBuffer _ | .mappedArray _ _ _ => False
  | _ => True

/-- The writer accepts the value. -/
def Packable : PyValue → Prop
  | .int value => -2 ^ 63 ≤ value ∧ value < 2 ^ 63
  | .float value => (narrow value).isSome
  | .str value => (encode value).length < 2 ^ 32
  | .bytes value => value.length < 2 ^ 32
  | .ndarray value =>
      value.shape.length < 256 ∧ (∀ dim ∈ value.shape, dim < 2 ^ 32) ∧ value.data.length < 2 ^ 32
  | _ => True

/-- The bytes of a plain value. -/
def wire : PyValue → List UInt8
  | .none => Wire.none
  | .int value => Wire.scalar (Pack.intType value) (Word.ofInt _ value)
  | .float value => Wire.scalar .float ((narrow value).getD 0)
  | .str value => Wire.string (encode value).length (encode value)
  | .bytes value => Wire.buffer value.length value
  | .ndarray value =>
      Wire.tensor (Word.ofNat 1 value.shape.length)
        ((Pack.paddedShape value.shape).map (Word.ofNat 4)) value.dtype value.data.length value.data
  | .sharedBuffer _ | .mappedArray _ _ _ => []

end PyValue

namespace Pack

theorem writesIf_unsigned (n : ℕ) (value : ℤ) :
    WritesIf (0 ≤ value ∧ value < 256 ^ n) (write_unsigned n value)
      (Word.ofNat n value.toNat).bytes :=
  writesIf_ite (writes_emit _) _

theorem writesIf_count (n count : ℕ) :
    WritesIf (count < 256 ^ n) (write_unsigned n count) (Word.ofNat n count).bytes := by
  apply (writesIf_unsigned n count).congr
  · norm_cast
    simp
  · rw [Int.toNat_natCast]

theorem writesIf_int (value : ℤ) :
    WritesIf (-2 ^ 63 ≤ value ∧ value < 2 ^ 63)
      (write_signed (intType value).size value) (Word.ofInt (intType value).size value).bytes := by
  apply (writesIf_ite (writes_emit _) _).congr _ rfl
  simp only [intType]
  split_ifs <;> simp only [ElemType.size] <;> omega

theorem writesIf_bytes (values : List UInt8) :
    WritesIf (values.length < 2 ^ 32) (write_bytes values) (Wire.counted values.length values) := by
  have written : WritesIf (values.length < 256 ^ 4 ∧ True) (write_bytes values)
      (Wire.counted values.length values) := by
    apply (writesIf_count 4 values.length).andThen
    exact (writes_emit values).writesIf
  exact written.congr (by simp) rfl

theorem writesIf_array {n : ℕ} (values : List (Word n)) :
    WritesIf (values.length < 2 ^ 32) (write_array values)
      (Wire.counted values.length (Wire.words values)) := by
  have written : WritesIf (values.length < 256 ^ 4 ∧ True) (write_array values)
      (Wire.counted values.length (Wire.words values)) := by
    apply (writesIf_count 4 values.length).andThen
    exact (writes_emit _).writesIf
  exact written.congr (by simp) rfl

theorem writesIf_array_uint32 (values : List ℕ) :
    WritesIf (values.length < 2 ^ 32 ∧ ∀ value ∈ values, value < 2 ^ 32)
      (write_array_uint32 values)
      (Wire.counted values.length (Wire.words (values.map (Word.ofNat 4)))) := by
  have each : WritesIf (∀ value ∈ values, value < 256 ^ 4)
      (values.forM fun value => write_unsigned 4 value)
      (values.flatMap fun value => (Word.ofNat 4 value).bytes) :=
    writesIf_forM fun value _ => writesIf_count 4 value
  have words : Wire.words (values.map (Word.ofNat 4)) =
      values.flatMap fun value => (Word.ofNat 4 value).bytes := by
    simp [Wire.words, List.flatMap_map]
  rw [words]
  exact (writesIf_count 4 values.length).andThen each

theorem mem_paddedShape {shape : List ℕ} {bound : ℕ} (positive : 0 < bound) :
    (∀ dim ∈ paddedShape shape, dim < bound) ↔ ∀ dim ∈ shape, dim < bound := by
  simp only [paddedShape, List.forall_mem_append]
  refine ⟨fun both => both.1, fun dims => ⟨dims, ?_⟩⟩
  intro dim mem
  rw [List.eq_of_mem_replicate mem]
  exact positive

theorem writesIf_shape (shape : List ℕ) :
    WritesIf (shape.length < 256 ∧ ∀ dim ∈ shape, dim < 2 ^ 32) (write_shape shape)
      ([ValueType.kTensor.toByte] ++ ((Word.ofNat 1 shape.length).bytes ++
        Wire.counted (paddedShape shape).length
          (Wire.words ((paddedShape shape).map (Word.ofNat 4))))) := by
  have written : WritesIf
      (True ∧ shape.length < 256 ^ 1 ∧ (paddedShape shape).length < 2 ^ 32 ∧
        ∀ dim ∈ paddedShape shape, dim < 2 ^ 32) (write_shape shape)
      ([ValueType.kTensor.toByte] ++ ((Word.ofNat 1 shape.length).bytes ++
        Wire.counted (paddedShape shape).length
          (Wire.words ((paddedShape shape).map (Word.ofNat 4))))) := by
    apply (writes_emit _).writesIf.andThen
    apply (writesIf_count 1 shape.length).andThen
    exact writesIf_array_uint32 (paddedShape shape)
  apply written.congr _ rfl
  rw [mem_paddedShape (by decide)]
  simp only [paddedShape, List.length_append, List.length_replicate, true_and]
  constructor
  · rintro ⟨short, -, dims⟩
    exact ⟨short, dims⟩
  · rintro ⟨short, dims⟩
    exact ⟨short, by omega, dims⟩

/-- A plain value is written if it is accepted. -/
theorem writesIf_pack {v : PyValue} (plain : v.Plain) (network : Bool) :
    WritesIf v.Packable (_pack network v) v.wire := by
  cases v with
  | none => exact (writes_emit _).writesIf
  | int value =>
      have written : WritesIf (True ∧ -2 ^ 63 ≤ value ∧ value < 2 ^ 63) (_pack network (.int value))
          ([(intType value).tag.toByte] ++ (Word.ofInt (intType value).size value).bytes) := by
        apply (writes_emit _).writesIf.andThen
        exact writesIf_int value
      exact written.congr (by simp [PyValue.Packable]) rfl
  | float value =>
      have written : WritesIf (True ∧ (narrow value).isSome) (_pack network (.float value))
          ([ValueType.kFloat.toByte] ++ ((narrow value).getD 0).bytes) := by
        apply (writes_emit _).writesIf.andThen
        exact writesIf_ite (writes_emit _) _
      exact written.congr (by simp [PyValue.Packable]) rfl
  | str value =>
      have written : WritesIf (True ∧ (encode value).length < 2 ^ 32) (_pack network (.str value))
          ([ValueType.kStr.toByte] ++
            Wire.counted (encode value).length (encode value)) := by
        apply (writes_emit _).writesIf.andThen
        exact writesIf_bytes (encode value)
      exact written.congr (by simp [PyValue.Packable]) rfl
  | bytes value =>
      have written : WritesIf (True ∧ True ∧ value.length < 2 ^ 32) (_pack network (.bytes value))
          ([ValueType.kAny.toByte] ++ ([BufferType.kCopyBuffer.toByte] ++
            Wire.counted value.length value)) := by
        apply (writes_emit _).writesIf.andThen
        apply (writes_emit _).writesIf.andThen
        exact writesIf_bytes value
      exact written.congr (by simp [PyValue.Packable]) rfl
  | ndarray value =>
      have written : WritesIf
          ((value.shape.length < 256 ∧ ∀ dim ∈ value.shape, dim < 2 ^ 32) ∧ True ∧ True ∧
            value.data.length < 2 ^ 32) (_pack network (.ndarray value))
          (([ValueType.kTensor.toByte] ++ ((Word.ofNat 1 value.shape.length).bytes ++
            Wire.counted (paddedShape value.shape).length
              (Wire.words ((paddedShape value.shape).map (Word.ofNat 4))))) ++
            ([value.dtype.tag.toByte] ++ ([BufferType.kCopyBuffer.toByte] ++
              Wire.counted value.data.length (Wire.words value.data)))) := by
        apply (writesIf_shape value.shape).andThen
        apply (writes_emit _).writesIf.andThen
        apply (writes_emit _).writesIf.andThen
        exact writesIf_array value.data
      exact written.congr (by simp [PyValue.Packable, and_assoc])
        (by simp [PyValue.wire, Wire.tensor])
  | sharedBuffer value => exact plain.elim
  | mappedArray shared dtype shape => exact plain.elim

end Pack

namespace PyData

def values : PyData → List PyValue
  | .value v => [v]
  | .list values => values

/-- The bytes after the priority, for data which is not unwrapped. -/
def wire : PyData → List UInt8
  | .value v => 0 :: v.wire
  | .list values => 1 :: Wire.counted values.length (values.flatMap PyValue.wire)

/-- The writer accepts the data. -/
def Packable (data : PyData) : Prop :=
  data.values.length < 2 ^ 32 ∧ ∀ v ∈ data.values, v.Packable

end PyData

namespace PyEvent

/-- The bytes of an event with plain values. -/
def wire (nodeid : ℤ) (event : PyEvent) : List UInt8 :=
  Wire.header (Word.ofNat 4 nodeid.toNat) (Word.ofNat 4 event.event_id.toNat)
    (Word.ofNat 1 event.priority.toNat) ++ (Pack.unwrap event.data).wire

/-- The writer accepts the event. -/
structure Packable (nodeid : ℤ) (event : PyEvent) : Prop where
  nodeid : 0 ≤ nodeid ∧ nodeid < 2 ^ 32
  event_id : 0 ≤ event.event_id ∧ event.event_id < 2 ^ 32
  priority : 0 ≤ event.priority ∧ event.priority < 256
  data : (Pack.unwrap event.data).Packable

end PyEvent

namespace Pack

theorem writesIf_data {data : PyData} (plain : ∀ v ∈ data.values, v.Plain) (network : Bool) :
    WritesIf data.Packable (pack_data network data) data.wire := by
  cases data with
  | value v =>
      have written : WritesIf (True ∧ v.Packable) (pack_data network (.value v))
          ([0] ++ v.wire) := by
        apply (writes_emit _).writesIf.andThen
        exact writesIf_pack (plain v List.mem_cons_self) network
      exact written.congr (by simp [PyData.Packable, PyData.values]) rfl
  | list values =>
      have each : WritesIf (∀ v ∈ values, v.Packable) (values.forM (_pack network))
          (values.flatMap PyValue.wire) :=
        writesIf_forM fun v mem => writesIf_pack (plain v mem) network
      have written : WritesIf (True ∧ values.length < 256 ^ 4 ∧ ∀ v ∈ values, v.Packable)
          (pack_data network (.list values))
          ([1] ++ ((Word.ofNat 4 values.length).bytes ++ values.flatMap PyValue.wire)) := by
        apply (writes_emit _).writesIf.andThen
        exact (writesIf_count 4 values.length).andThen each
      exact written.congr (by simp [PyData.Packable, PyData.values]) rfl

theorem writesIf_event {nodeid : ℤ} {event : PyEvent}
    (plain : ∀ v ∈ (unwrap event.data).values, v.Plain) (network : Bool) :
    WritesIf (event.Packable nodeid) (pack nodeid event network) (event.wire nodeid) := by
  have written : WritesIf
      ((0 ≤ nodeid ∧ nodeid < 256 ^ 4) ∧ (0 ≤ event.event_id ∧ event.event_id < 256 ^ 4) ∧
        (0 ≤ event.priority ∧ event.priority < 256 ^ 1) ∧ (unwrap event.data).Packable)
      (pack nodeid event network)
      ((Word.ofNat 4 nodeid.toNat).bytes ++ ((Word.ofNat 4 event.event_id.toNat).bytes ++
        ((Word.ofNat 1 event.priority.toNat).bytes ++ (unwrap event.data).wire))) := by
    apply (writesIf_unsigned 4 nodeid).andThen
    apply (writesIf_unsigned 4 event.event_id).andThen
    apply (writesIf_unsigned 1 event.priority).andThen
    exact writesIf_data plain network
  apply written.congr
  · constructor
    · rintro ⟨nodeid, event_id, priority, data⟩
      exact ⟨nodeid, event_id, priority, data⟩
    · rintro ⟨nodeid, event_id, priority, data⟩
      exact ⟨nodeid, event_id, priority, data⟩
  · simp [PyEvent.wire, Wire.header]

end Pack

end CmsisStream.Events.Python
