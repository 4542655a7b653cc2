import CmsisStream.Events.PythonPack
import CmsisStream.Events.PythonUnpack

/-!
# Packing and unpacking an event in Python

The writer puts no terminator after a string or a buffer and the reader drops one, so the
last byte is lost.  For an empty one the slice is `data[:-1]`, all that follows but one byte:
it is empty at the end of the message only, or in front of a last byte.
-/

namespace CmsisStream.Events.Python

open Codec (Word Stream)
open Codec.Action

namespace PyValue

/-- A plain value whose floating point numbers are floats. -/
def InDomain : PyValue → Prop
  | .float value => Representable value
  | .sharedBuffer _ | .mappedArray _ _ _ => False
  | _ => True

theorem InDomain.plain {v : PyValue} (inDomain : v.InDomain) : v.Plain := by
  cases v <;> trivial

/-- The bytes of a string or of a buffer. -/
def text? : PyValue → Option (List UInt8)
  | .str value => some (encode value)
  | .bytes value => some value
  | _ => Option.none

theorem wire_ne_nil {v : PyValue} (plain : v.Plain) : v.wire ≠ [] := by
  cases v with
  | sharedBuffer value => exact plain.elim
  | mappedArray shared dtype shape => exact plain.elim
  | _ => exact List.cons_ne_nil _ _

theorem intType_size_pos (value : ℤ) : 0 < (Pack.intType value).size := by
  cases Pack.intType value <;> decide

/-- Only `None` has no payload. -/
theorem length_wire_le_one {v : PyValue} (plain : v.Plain) : v.wire.length ≤ 1 ↔ v = .none := by
  cases v with
  | none => simp [wire, Wire.none]
  | int value =>
      have positive := intType_size_pos value
      simp only [wire, Wire.scalar, List.length_cons, Word.length_bytes, reduceCtorEq, iff_false]
      omega
  | float value => simp [wire, Wire.scalar, ElemType.size]
  | str value => simp [wire, Wire.string, Wire.counted]
  | bytes value => simp [wire, Wire.buffer, Wire.counted]
  | ndarray value => simp [wire, Wire.tensor, Wire.counted]
  | sharedBuffer value => exact plain.elim
  | mappedArray shared dtype shape => exact plain.elim

end PyValue

/-! ## Texts which keep their bytes -/

section Texts

variable {α : Type} {enc : α → List UInt8} {text? : α → Option (List UInt8)} {none : α}
  {items : List α}

/-- The text of an item, if it has one, keeps its bytes in front of these ones. -/
def KeptBefore (text? : α → Option (List UInt8)) (item : α) (following : List UInt8) : Prop :=
  ∀ text, text? item = some text → text = [] ∧ following.length ≤ 1

/-- The texts of these items are empty, and none of them is followed by anything but a last
item `none`. -/
def Kept (text? : α → Option (List UInt8)) (none : α) : List α → Prop
  | [] => True
  | item :: after =>
      (∀ text, text? item = some text → text = [] ∧ (after = [] ∨ after = [none])) ∧
        Kept text? none after

/-- At most one byte is left for these items when only `none` is encoded by one byte. -/
theorem length_flatMap_le_one (nonempty : ∀ item ∈ items, enc item ≠ [])
    (single : ∀ item ∈ items, (enc item).length ≤ 1 ↔ item = none) :
    (items.flatMap enc).length ≤ 1 ↔ items = [] ∨ items = [none] := by
  rcases items with _ | ⟨first, _ | ⟨second, items⟩⟩
  · simp
  · simp [single first List.mem_cons_self]
  · have firstLength := List.length_pos_iff.mpr (nonempty first (by simp))
    have secondLength := List.length_pos_iff.mpr (nonempty second (by simp))
    simp only [List.flatMap_cons, List.length_append, reduceCtorEq, List.cons.injEq, and_false,
      or_false, iff_false]
    omega

theorem eachFollowed_kept (nonempty : ∀ item ∈ items, enc item ≠ [])
    (single : ∀ item ∈ items, (enc item).length ≤ 1 ↔ item = none) :
    EachFollowed enc (KeptBefore text?) items [] ↔ Kept text? none items := by
  induction items with
  | nil => rfl
  | cons item after ih =>
      have nonemptyAfter := fun other mem => nonempty other (List.mem_cons_of_mem item mem)
      have singleAfter := fun other mem => single other (List.mem_cons_of_mem item mem)
      rw [EachFollowed, Kept, ih nonemptyAfter singleAfter, KeptBefore, List.append_nil,
        length_flatMap_le_one nonemptyAfter singleAfter]

theorem kept_singleton (item : α) : Kept text? none [item] ↔ KeptBefore text? item [] := by
  simp [Kept, KeptBefore]

end Texts

namespace Unpack

theorem scalar_ofInt {t : ElemType} (signed : t ∈ [ElemType.int8, .int16, .int32, .int64])
    {value : ℤ} (range : -2 ^ (8 * t.size - 1) ≤ value ∧ value < 2 ^ (8 * t.size - 1)) :
    scalar t (Word.ofInt _ value) = .int value := by
  have bits : 0 < 8 * t.size := by cases t <;> decide
  have same : (Word.ofInt t.size value).toInt = value :=
    BitVec.toInt_ofInt_eq_self bits range.1 range.2
  cases t <;> first | exact congrArg PyValue.int same | simp at signed

theorem scalar_int {value : ℤ} (range : -2 ^ 63 ≤ value ∧ value < 2 ^ 63) :
    scalar (Pack.intType value) (Word.ofInt _ value) = .int value := by
  apply scalar_ofInt
  · simp only [Pack.intType]
    split_ifs <;> decide
  · simp only [Pack.intType]
    split_ifs <;> simp only [ElemType.size] <;> omega

/-- The zeros which complete a shape are dropped. -/
theorem used_paddedShape {shape : List ℕ} (short : shape.length < 256)
    (dims : ∀ dim ∈ shape, dim < 2 ^ 32) :
    ((((Pack.paddedShape shape).map (Word.ofNat 4)).map (·.toNat)).take
      (Word.ofNat 1 shape.length).toNat) = shape := by
  have rank : (Word.ofNat 1 shape.length).toNat = shape.length :=
    (BitVec.toNat_ofNat _ _).trans (Nat.mod_eq_of_lt short)
  have same : ((Pack.paddedShape shape).map (Word.ofNat 4)).map (·.toNat) =
      Pack.paddedShape shape := by
    rw [List.map_map]
    conv_rhs => rw [← List.map_id (Pack.paddedShape shape)]
    apply List.map_congr_left
    exact fun dim mem => toNat_count ((Pack.mem_paddedShape (by decide)).mpr dims dim mem)
  rw [rank, same, Pack.paddedShape, List.take_left]

/-- A value which keeps its bytes is read back. -/
theorem unpack_value_of_kept {v : PyValue} (inDomain : v.InDomain) (packable : v.Packable)
    {following : List UInt8} (kept : KeptBefore PyValue.text? v following)
    (env : Option MemServer) :
    unpack_value ⟨v.wire ++ following, env⟩ = .ok (v, ⟨following, env⟩) := by
  cases v with
  | none => exact reads_none following env
  | int value =>
      have reads := reads_scalar (Pack.intType value) (Word.ofInt _ value) following env
      rwa [scalar_int packable] at reads
  | float value =>
      rcases inDomain with ⟨single, narrowed, widened⟩
      have reads := reads_scalar .float single following env
      simp only [scalar, widened] at reads
      simpa only [PyValue.wire, narrowed, Option.getD_some] using reads
  | str value =>
      rw [PyValue.wire, unpack_value_string packable, (sliceTo_eq_iff _ _).mpr (kept _ rfl),
        decode_encode]
      rfl
  | bytes value =>
      rw [PyValue.wire, unpack_value_buffer packable, (sliceTo_eq_iff _ _).mpr (kept _ rfl)]
  | ndarray value =>
      rcases value with ⟨dtype, shape, data, size_eq⟩
      rcases packable with ⟨short, dims, ltData⟩
      refine reads_ndarray ?_ ltData (used_paddedShape short dims) size_eq following env
      simp only [List.length_map, Pack.paddedShape, List.length_append, List.length_replicate]
      change shape.length < 256 at short
      omega
  | sharedBuffer value => exact inDomain.elim
  | mappedArray shared dtype shape => exact inDomain.elim

theorem kept_of_unpack_value {v : PyValue} (packable : v.Packable) {following : List UInt8}
    {env : Option MemServer} {stream : Stream (Option MemServer)}
    (run : unpack_value ⟨v.wire ++ following, env⟩ = .ok (v, stream)) :
    KeptBefore PyValue.text? v following := by
  cases v with
  | str value =>
      rintro text ⟨⟩
      apply (sliceTo_eq_iff _ _).mp
      rw [PyValue.wire, unpack_value_string packable] at run
      cases decoded : decode (sliceTo (encode value ++ following) ((encode value).length - 1)) with
      | error e =>
          rw [decoded] at run
          cases run
      | ok s =>
          rw [decoded] at run
          cases run
          exact (encode_of_decode decoded).symm
  | bytes value =>
      rintro text ⟨⟩
      apply (sliceTo_eq_iff _ _).mp
      rw [PyValue.wire, unpack_value_buffer packable] at run
      injection run with result
      exact PyValue.bytes.inj (Prod.ext_iff.mp result).1
  | _ =>
      intro text isText
      cases isText

/-- A list of values is read back if and only if all of them keep their bytes. -/
theorem repeatN_unpack_value_iff {values : List PyValue}
    (inDomain : ∀ v ∈ values, v.InDomain) (packable : ∀ v ∈ values, v.Packable)
    (env : Option MemServer) :
    repeatN unpack_value values.length ⟨values.flatMap PyValue.wire, env⟩ =
      .ok (values, ⟨[], env⟩) ↔ Kept PyValue.text? .none values := by
  have reads : ∀ v ∈ values, ∀ following, KeptBefore PyValue.text? v following →
      ∃ w, unpack_value ⟨v.wire ++ following, env⟩ = .ok (w, ⟨following, env⟩) ∧ v = w :=
    fun v mem following kept =>
      ⟨v, unpack_value_of_kept (inDomain v mem) (packable v mem) kept env, rfl⟩
  have only : ∀ v ∈ values, ∀ following w stream,
      unpack_value ⟨v.wire ++ following, env⟩ = .ok (w, stream) → v = w →
        KeptBefore PyValue.text? v following := by
    rintro v mem following w stream run rfl
    exact kept_of_unpack_value (packable v mem) run
  rw [← eachFollowed_kept (fun v mem => PyValue.wire_ne_nil (inDomain v mem).plain)
    fun v mem => PyValue.length_wire_le_one (inDomain v mem).plain]
  constructor
  · intro run
    rw [← List.append_nil (values.flatMap PyValue.wire)] at run
    exact each_of_repeatN reads only run (List.forall₂_same.mpr fun _ _ => rfl)
  · intro each
    rcases repeatN_of_each reads each with ⟨results, run, agree⟩
    rw [List.forall₂_eq_eq_eq] at agree
    rw [List.append_nil, ← agree] at run
    exact run

theorem unpack_data_eq_iff (nodeid event_id : Word 4) (priority : Word 1) {data : PyData}
    (packable : data.Packable) (inDomain : ∀ v ∈ data.values, v.InDomain)
    (env : Option MemServer) :
    unpack_data nodeid event_id priority ⟨data.wire, env⟩ =
        .ok ((nodeid.toNat, ⟨event_id.toNat, priority.toNat, data⟩), ⟨[], env⟩) ↔
      Kept PyValue.text? .none data.values := by
  cases data with
  | value v =>
      rw [PyData.wire, unpack_data, read_byte, bind_of_ok (byte_cons _ _ _ env), if_pos rfl,
        bind_pure_eq_ok fun first second same => by simpa using same]
      have inDomain := inDomain v List.mem_cons_self
      have packable := packable.2 v List.mem_cons_self
      rw [PyData.values, kept_singleton, ← List.append_nil v.wire]
      exact ⟨kept_of_unpack_value packable,
        fun kept => unpack_value_of_kept inDomain packable kept env⟩
  | list values =>
      have count : (Word.ofNat 4 values.length).toNat = values.length := toNat_count packable.1
      rw [PyData.wire, unpack_data, read_byte, bind_of_ok (byte_cons _ _ _ env),
        if_neg (by decide), Wire.counted, read, bind_of_ok (reads_word _ _ _ env), count,
        bind_pure_eq_ok fun first second same => by simpa using same]
      exact repeatN_unpack_value_iff inDomain packable.2 env

end Unpack

theorem toNat_unsigned {n : ℕ} {value : ℤ} (range : 0 ≤ value ∧ value < 2 ^ (8 * n)) :
    ((Word.ofNat n value.toNat).toNat : ℤ) = value := by
  have lt : value.toNat < 2 ^ (8 * n) := (Int.toNat_lt range.1).mpr (by exact_mod_cast range.2)
  rw [Word.ofNat, BitVec.toNat_ofNat, Nat.mod_eq_of_lt lt, Int.toNat_of_nonneg range.1]

theorem unwrap_of_several {data : PyData}
    (several : ∀ values, data = .list values → 2 ≤ values.length) : Pack.unwrap data = data := by
  rcases data with v | _ | ⟨first, _ | ⟨second, values⟩⟩
  · rfl
  · exact absurd (several _ rfl) (by simp)
  · exact absurd (several _ rfl) (by simp)
  · rfl

/-- What is written for an event comes back, to the last byte, exactly when no string and no
buffer loses bytes. -/
theorem pack_unpack_event_iff {nodeid : ℤ} {event : PyEvent} {network : Bool}
    {memserver : Option MemServer} {stream : Stream (Option MemServer)}
    (inDomain : ∀ v ∈ event.data.values, v.InDomain)
    (several : ∀ values, event.data = .list values → 2 ≤ values.length)
    (packed : Pack.pack nodeid event network ⟨[], memserver⟩ = .ok ((), stream))
    (receiver : Option MemServer) :
    Unpack.unpack_event ⟨stream.bytes, receiver⟩ = .ok ((nodeid, event), ⟨[], receiver⟩) ↔
      Kept PyValue.text? .none event.data.values := by
  have unwrapped := unwrap_of_several several
  have plain : ∀ v ∈ (Pack.unwrap event.data).values, v.Plain := by
    rw [unwrapped]
    exact fun v mem => (inDomain v mem).plain
  rcases (Pack.writesIf_event plain network _ _).mp packed with ⟨packable, written⟩
  cases written
  have data : event.data.Packable := unwrapped ▸ packable.data
  rw [List.nil_append, PyEvent.wire, unwrapped, Unpack.unpack_header,
    ← Unpack.unpack_data_eq_iff (Word.ofNat 4 nodeid.toNat) (Word.ofNat 4 event.event_id.toNat)
      (Word.ofNat 1 event.priority.toNat) data inDomain receiver,
    toNat_unsigned (n := 4) packable.nodeid, toNat_unsigned (n := 4) packable.event_id,
    toNat_unsigned (n := 1) packable.priority]

/-- An integer, a floating point number, an array and an empty string. -/
def mixedEvent : PyEvent where
  event_id := 100
  priority := 2
  data := .list [.int 300, .float 0x4012000000000000,
    .ndarray ⟨.float, [2, 1], [0x3f800000, 0x40000000], rfl⟩, .str ""]

theorem mixedEvent_unpack_event :
    ∃ stream, Pack.pack 5 mixedEvent false ⟨[], none⟩ = .ok ((), stream) ∧
      Unpack.unpack_event ⟨stream.bytes, none⟩ = .ok ((5, mixedEvent), ⟨[], none⟩) := by
  have inDomain : ∀ v ∈ mixedEvent.data.values, v.InDomain := by
    simp only [mixedEvent, PyData.values, List.forall_mem_cons]
    refine ⟨trivial, ?_, trivial, trivial, by simp⟩
    change Representable _
    decide
  have several : ∀ values, mixedEvent.data = .list values → 2 ≤ values.length := by
    rintro values ⟨⟩
    decide
  have kept : Kept PyValue.text? .none mixedEvent.data.values := by
    refine ⟨?_, ?_, ?_, ?_, trivial⟩
    all_goals rintro text ⟨⟩
    exact ⟨by decide, .inl rfl⟩
  have packable : mixedEvent.Packable 5 := by
    refine ⟨by decide, by decide, by decide, by decide, ?_⟩
    simp only [mixedEvent, Pack.unwrap, PyData.values, List.forall_mem_cons]
    refine ⟨?_, ?_, ?_, ?_, by simp⟩
    all_goals
      simp only [PyValue.Packable]
      decide
  have plain : ∀ v ∈ (Pack.unwrap mixedEvent.data).values, v.Plain :=
    fun v mem => (inDomain v mem).plain
  have packed : Pack.pack 5 mixedEvent false ⟨[], none⟩ = .ok ((), ⟨mixedEvent.wire 5, none⟩) :=
    (Pack.writesIf_event plain false _ _).mpr ⟨packable, rfl⟩
  exact ⟨_, packed, (pack_unpack_event_iff inDomain several packed none).mpr kept⟩

/-- The string `a`. -/
def shortStringEvent : PyEvent where
  event_id := 100
  priority := 1
  data := .value (.str "a")

theorem shortStringEvent_unpack_event :
    ∃ stream, Pack.pack 5 shortStringEvent false ⟨[], none⟩ = .ok ((), stream) ∧
      Unpack.unpack_event ⟨stream.bytes, none⟩ ≠ .ok ((5, shortStringEvent), ⟨[], none⟩) := by
  have inDomain : ∀ v ∈ shortStringEvent.data.values, v.InDomain := by
    simp [shortStringEvent, PyData.values, PyValue.InDomain]
  have text : encode "a" = [97] := by decide
  have packable : shortStringEvent.Packable 5 := by
    refine ⟨by decide, by decide, by decide, by decide, ?_⟩
    simp [shortStringEvent, Pack.unwrap, PyData.values, PyValue.Packable, text]
  have plain : ∀ v ∈ (Pack.unwrap shortStringEvent.data).values, v.Plain :=
    fun v mem => (inDomain v mem).plain
  refine ⟨_, (Pack.writesIf_event plain false _ _).mpr ⟨packable, rfl⟩, ?_⟩
  intro read
  rw [List.nil_append, PyEvent.wire, Unpack.unpack_header] at read
  have kept := (Unpack.unpack_data_eq_iff 5 100 1 packable.data inDomain none).mp read
  have empty := (kept.1 _ rfl).1
  rw [text] at empty
  cases empty

end CmsisStream.Events.Python
