import CmsisStream.Events.Float
import CmsisStream.Events.Wire

/-!
# The Python reader and writer of events

The classes `Pack` and `Unpack` of the Python package.  A `str` is a sequence of Unicode
scalar values: one which can't be encoded is refused by the writer.  Integers have no size,
floating point numbers are doubles, and the elements of an array are given by their bytes.
-/

namespace CmsisStream.Events.Python

open Codec (Word Action Stream)
open Codec.Action

/-- The exceptions of the two classes. -/
inductive PyError where
  | structError | overflowError | unicodeDecodeError | valueError | typeError | attributeError
deriving DecidableEq, Repr

/-- `np.ndarray` -/
structure NdArray where
  dtype : ElemType
  shape : List ℕ
  data : List (Word dtype.size)
  size_eq : data.length = shape.prod
deriving DecidableEq

/-- `SharedBuffer`; `hasFd` says that its `fd` is not `None`. -/
structure SharedBuffer where
  hasFd : Bool
  size : ℕ
  global_id : Word 4
deriving DecidableEq, Repr

/-- The data of an event which is not a list. -/
inductive PyValue where
  | none
  | int (value : ℤ)
  | float (value : Word 8)
  | str (value : String)
  | bytes (value : List UInt8)
  | ndarray (value : NdArray)
  | sharedBuffer (value : SharedBuffer)
  | mappedArray (shared : SharedBuffer) (dtype : ElemType) (shape : List ℕ)
deriving DecidableEq

inductive PyData where
  | value (v : PyValue)
  | list (values : List PyValue)
deriving DecidableEq

/-- `Event` -/
structure PyEvent where
  event_id : ℤ
  priority : ℤ
  data : PyData
deriving DecidableEq

abbrev PyAction := Action (Option MemServer) PyError

/-- `str.encode("utf-8")` -/
def encode (value : String) : List UInt8 := value.toByteArray.data.toList

/-- `bytes.decode("utf-8")` -/
def decode (bytes : List UInt8) : Except PyError String :=
  if valid : (ByteArray.mk bytes.toArray).IsValidUTF8 then .ok (.ofByteArray _ valid)
  else .error .unicodeDecodeError

/-- `data[:stop]` -/
def sliceTo (data : List UInt8) (stop : ℤ) : List UInt8 :=
  if stop < 0 then data.take (data.length - stop.natAbs) else data.take stop.toNat

/-! ## `Pack` -/

namespace Pack

/-- `write_uint8`, `write_uint16`, `write_uint32` and `write_uint64` -/
def write_unsigned (n : ℕ) (value : ℤ) : PyAction Unit :=
  if 0 ≤ value ∧ value < 256 ^ n then emit (Word.ofNat n value.toNat).bytes
  else throw .structError

/-- `write_int8`, `write_int16`, `write_int32` and `write_int64` -/
def write_signed (n : ℕ) (value : ℤ) : PyAction Unit :=
  if -(256 ^ n / 2) ≤ value ∧ value < 256 ^ n / 2 then
    emit (Word.ofInt n value).bytes
  else throw .structError

def write_float (value : Word 8) : PyAction Unit :=
  if (narrow value).isSome then emit ((narrow value).getD 0).bytes else throw .overflowError

def write_type (t : ValueType) : PyAction Unit := emit [t.toByte]

def write_buffer_type (t : BufferType) : PyAction Unit := emit [t.toByte]

/-- `write_array_uint8` of some bytes -/
def write_bytes (values : List UInt8) : PyAction Unit := do
  write_unsigned 4 values.length
  emit values

/-- `write_array_uint32` of some integers -/
def write_array_uint32 (values : List ℕ) : PyAction Unit := do
  write_unsigned 4 values.length
  values.forM fun value => write_unsigned 4 value

/-- `write_array_int8` and the others, of the elements of an array -/
def write_array {n : ℕ} (values : List (Word n)) : PyAction Unit := do
  write_unsigned 4 values.length
  emit (Wire.words values)

def acquire (global_id : Word 4) : PyAction Unit :=
  modify fun stream => { stream with env := stream.env.map (·.acquire global_id) }

/-- The type of an integer. -/
def intType (value : ℤ) : ElemType :=
  if -128 ≤ value ∧ value ≤ 127 then .int8
  else if -32768 ≤ value ∧ value ≤ 32767 then .int16
  else if -2147483648 ≤ value ∧ value ≤ 2147483647 then .int32
  else .int64

/-- The shape, followed by zeros up to four dimensions. -/
def paddedShape (shape : List ℕ) : List ℕ := shape ++ List.replicate (4 - shape.length) 0

def write_shape (shape : List ℕ) : PyAction Unit := do
  write_type .kTensor
  write_unsigned 1 shape.length
  write_array_uint32 (paddedShape shape)

/-- `_pack`; the call of `_write_shared_buffer` has one argument too many. -/
def _pack (network : Bool) : PyValue → PyAction Unit
  | .none => write_type .kNone
  | .int value => do
      write_type (intType value).tag
      write_signed (intType value).size value
  | .float value => do
      write_type .kFloat
      write_float value
  | .str value => do
      write_type .kStr
      write_bytes (encode value)
  | .bytes value => do
      write_type .kAny
      write_buffer_type .kCopyBuffer
      write_bytes value
  | .sharedBuffer value => do
      write_type .kAny
      write_buffer_type .kSharedBuffer
      if value.hasFd then
        write_unsigned 4 value.size
        emit value.global_id.bytes
        if !network then acquire value.global_id
      else
        emit (0 : Word 4).bytes
        emit (-1 : Word 4).bytes
  | .mappedArray _ _ shape => do
      write_shape shape
      throw .typeError
  | .ndarray value => do
      write_shape value.shape
      write_type value.dtype.tag
      write_buffer_type .kCopyBuffer
      write_array value.data

/-- Lists of less than two values are unwrapped. -/
def unwrap : PyData → PyData
  | .list [v] => .value v
  | .list [] => .value .none
  | data => data

/-- `pack` after the priority. -/
def pack_data (network : Bool) : PyData → PyAction Unit
  | .value v => do
      write_unsigned 1 0
      _pack network v
  | .list values => do
      write_unsigned 1 1
      write_unsigned 4 values.length
      values.forM (_pack network)

def pack (nodeid : ℤ) (event : PyEvent) (network : Bool) : PyAction Unit := do
  write_unsigned 4 nodeid
  write_unsigned 4 event.event_id
  write_unsigned 1 event.priority
  pack_data network (unwrap event.data)

end Pack

/-! ## `Unpack` -/

namespace Unpack

/-- `read_uint8` and the others, before the conversion to a number -/
def read (n : ℕ) : PyAction (Word n) := word .structError n

/-- `read_uint8` of a tag -/
def read_byte : PyAction UInt8 := byte .structError

/-- The number read for a scalar. -/
def scalar (t : ElemType) (w : Word t.size) : PyValue :=
  match t with
  | .float => .float (widen w)
  | .double => .float w
  | .int8 | .int16 | .int32 | .int64 => .int w.toInt
  | .uint8 | .uint16 | .uint32 | .uint64 => .int w.toNat

def read_scalar (t : ElemType) : PyAction PyValue := do
  let w ← read t.size
  pure (scalar t w)

/-- The buffer of the memory server, which also loses the reference of the message. -/
def get_shared (global_id : Word 4) : PyAction (Option SharedBuffer) := fun stream =>
  match stream.env with
  | none => .ok (none, stream)
  | some memserver =>
      match memserver.get_buffer global_id with
      | none => .ok (none, { stream with env := some (memserver.release global_id) })
      | some (fd, memserver) =>
          .ok (some { hasFd := true, size := fd.bytes, global_id },
            { stream with env := some (memserver.release global_id) })

/-- `reshape` -/
def reshape (t : ElemType) (dims : List ℕ) (data : List (Word t.size)) : PyAction PyValue :=
  if size_eq : data.length = dims.prod then pure (.ndarray ⟨t, dims, data, size_eq⟩)
  else throw .valueError

def _read_maybe_shared_tensor (dims : List ℕ) (t : ElemType) : PyAction PyValue := do
  let buf_type ← read_byte
  if buf_type = BufferType.kCopyBuffer.toByte then
    let nb ← read 4
    let data ← repeatN (read t.size) nb.toNat
    reshape t dims data
  else
    let str_size ← read 4
    let global_id ← read 4
    let stream ← get
    if stream.env.isNone ∨ str_size = 0 then pure .none
    else
      match ← get_shared global_id with
      | none => throw .attributeError
      | some s => if s.size = dims.prod * t.size then pure (.sharedBuffer s) else throw .valueError

/-- `data[:str_size-1]`, which leaves `data[str_size:]` -/
def slice (str_size : Word 4) : PyAction (List UInt8) := fun stream =>
  .ok (sliceTo stream.bytes (str_size.toNat - 1),
    { stream with bytes := stream.bytes.drop str_size.toNat })

def _read_maybe_shared_bytestream : PyAction PyValue := do
  let buf_type ← read_byte
  let str_size ← read 4
  if buf_type = BufferType.kCopyBuffer.toByte then
    let value ← slice str_size
    pure (.bytes value)
  else
    let global_id ← read 4
    if str_size = 0 then pure .none
    else
      match ← get_shared global_id with
      | none => pure .none
      | some s => pure (.sharedBuffer s)

/-- The case `kStr` of `unpack_value`. -/
def read_str : PyAction PyValue := do
  let str_size ← read 4
  let value ← slice str_size
  match decode value with
  | .ok value => pure (.str value)
  | .error e => throw e

/-- The element types of tensors, in the order of the tests. -/
def tensorTypes : List ElemType :=
  [.int8, .int16, .int32, .int64, .float, .double, .uint8, .uint16, .uint32, .uint64]

/-- The case `kTensor` of `unpack_value`. -/
def read_tensor : PyAction PyValue := do
  let nbdims ← read 1
  let nb ← read 4
  let dims ← repeatN (read 4) nb.toNat
  firstTag (.ok false)
    (_read_maybe_shared_tensor ((dims.map (·.toNat)).take nbdims.toNat)) tensorTypes
    (pure .none)

/-- The types of the scalars, in the order of the tests. -/
def scalarTypes : List ElemType :=
  [.int8, .int16, .int32, .int64, .float, .double, .uint8, .uint16, .uint32, .uint64]

def unpack_value : PyAction PyValue :=
  ifTag (.ok false) .kNone (pure .none) <|
  firstTag (.ok false) read_scalar scalarTypes <|
  ifTag (.ok false) .kStr read_str <|
  ifTag (.ok false) .kAny _read_maybe_shared_bytestream <|
  ifTag (.ok false) .kTensor read_tensor <|
  pure .none

/-- `unpack_event` after the header. -/
def unpack_data (nodeid eventid : Word 4) (priority : Word 1) : PyAction (ℤ × PyEvent) := do
  let datacase ← read_byte
  if datacase = 0 then
    let v ← unpack_value
    pure (nodeid.toNat, ⟨eventid.toNat, priority.toNat, .value v⟩)
  else
    let nb_vals ← read 4
    let values ← repeatN unpack_value nb_vals.toNat
    pure (nodeid.toNat, ⟨eventid.toNat, priority.toNat, .list values⟩)

def unpack_event : PyAction (ℤ × PyEvent) := do
  let nodeid ← read 4
  let eventid ← read 4
  let priority ← read 1
  unpack_data nodeid eventid priority

end Unpack

end CmsisStream.Events.Python
