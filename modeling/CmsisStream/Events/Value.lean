import CmsisStream.Codec.Bytes
import Mathlib.Data.Vector.Basic

/-!
# Events and their values

An event carries nothing, one value, or a list of values.  A value which refers to a buffer
either owns it or shares it with other processes through the memory server.

Scalars and tensor elements are given by their bytes, so a `float` is a word of four bytes.
A `ProtectedBuffer` is the object its handle refers to, or nothing for a null handle: locks
and allocations are assumed to succeed, and an allocated buffer is not null even if it is
empty.
-/

namespace CmsisStream.Events

open Codec (Word)

/-- `cg_value_type`, `DataType` in Python -/
inductive ValueType where
  | kNone | kInt8 | kInt16 | kInt32 | kInt64 | kFloat | kDouble | kUInt8 | kUInt16 | kUInt32
  | kUInt64 | kAny | kStr | kTensor | kCombined
deriving DecidableEq, Repr

def ValueType.toByte : ValueType → UInt8
  | kNone => 0
  | kInt8 => 1
  | kInt16 => 2
  | kInt32 => 3
  | kInt64 => 4
  | kFloat => 5
  | kDouble => 6
  | kUInt8 => 7
  | kUInt16 => 8
  | kUInt32 => 9
  | kUInt64 => 10
  | kAny => 11
  | kStr => 12
  | kTensor => 13
  | kCombined => 14

theorem ValueType.toByte_injective : Function.Injective ValueType.toByte := by
  intro first second
  cases first <;> cases second <;> decide

/-- `cg_buffer_type`, `BufferType` in Python -/
inductive BufferType where
  | kCopyBuffer | kSharedBuffer
deriving DecidableEq, Repr

def BufferType.toByte : BufferType → UInt8
  | kCopyBuffer => 0
  | kSharedBuffer => 1

/-- The types of scalars and of the elements of a tensor. -/
inductive ElemType where
  | int8 | int16 | int32 | int64 | float | double | uint8 | uint16 | uint32 | uint64
deriving DecidableEq, Repr

namespace ElemType

/-- `sizeof` -/
def size : ElemType → ℕ
  | int8 | uint8 => 1
  | int16 | uint16 => 2
  | int32 | uint32 | float => 4
  | int64 | uint64 | double => 8

def tag : ElemType → ValueType
  | int8 => .kInt8
  | int16 => .kInt16
  | int32 => .kInt32
  | int64 => .kInt64
  | float => .kFloat
  | double => .kDouble
  | uint8 => .kUInt8
  | uint16 => .kUInt16
  | uint32 => .kUInt32
  | uint64 => .kUInt64

theorem tag_injective : Function.Injective tag := by
  intro first second
  cases first <;> cases second <;> decide

end ElemType

/-- The configuration of the library. -/
structure Config where
  /-- `CG_TENSOR_NB_DIMS`, an `int` -/
  tensorNbDims : ℕ
  tensorNbDims_lt : tensorNbDims < 2 ^ 31
  /-- `CG_MAX_VALUES`, an index into a list of values being a `uint32_t` -/
  maxValues : ℕ
  maxValues_lt : maxValues < 2 ^ 32

/-- The default configuration. -/
def Config.default : Config where
  tensorNbDims := 3
  tensorNbDims_lt := by decide
  maxValues := 8
  maxValues_lt := by decide

/-- A memory server knows the size of the live buffers and counts the references to each. -/
structure MemServer where
  size : Word 4 → Option ℕ
  refcount : Word 4 → ℤ

namespace MemServer

def acquire (server : MemServer) (global_id : Word 4) : MemServer :=
  { server with
    refcount := Function.update server.refcount global_id (server.refcount global_id + 1) }

def release (server : MemServer) (global_id : Word 4) : MemServer :=
  { server with
    refcount := Function.update server.refcount global_id (server.refcount global_id - 1) }

end MemServer

/-- `Descriptor` -/
structure Descriptor where
  bytes : ℕ
  global_id : Word 4
  /-- `explicit operator bool` -/
  isValid : Bool
deriving DecidableEq, Repr

/-- `get_buffer` increases the reference count of the buffer that it finds. -/
def MemServer.get_buffer (server : MemServer) (global_id : Word 4) :
    Option (Descriptor × MemServer) :=
  (server.size global_id).map fun bytes =>
    ({ bytes, global_id, isValid := true }, server.acquire global_id)

/-- The variant of `UniquePtr<T>` and `SharedBuffer<T>` in buffers and tensors. -/
inductive Storage (α : Type) where
  | unique (data : List α)
  | shared (fd : Option Descriptor)
deriving DecidableEq, Repr

/-- `RawBuffer` -/
structure RawBuffer where
  buf_size : Word 4
  data : Storage UInt8
deriving DecidableEq, Repr

/-- The constructor of `RawBuffer` from a shared buffer. -/
def RawBuffer.ofShared (fd : Descriptor) : RawBuffer where
  buf_size := BitVec.ofNat _ fd.bytes
  data := .shared fd

/-- `Tensor<T>` -/
structure Tensor (cfg : Config) (t : ElemType) where
  nb_dims : Word 1
  dims : List.Vector (Word 4) cfg.tensorNbDims
  data : Storage (Word t.size)
deriving DecidableEq

namespace Tensor

variable {cfg : Config} {t : ElemType}

/-- The dimensions in use, at most all those of the array. -/
def shape (tensor : Tensor cfg t) : List ℕ :=
  (tensor.dims.toList.take tensor.nb_dims.toNat).map (·.toNat)

/-- The number of elements of this shape. -/
def nbElems (tensor : Tensor cfg t) : ℕ :=
  if tensor.nb_dims = 0 then 0 else tensor.shape.prod

/-- `Tensor::size`: the product is computed in a `uint32_t`. -/
def size (tensor : Tensor cfg t) : ℕ :=
  if tensor.nb_dims = 0 then 0
  else tensor.shape.foldl (fun total_size dim => total_size * dim % 2 ^ 32) 1

theorem foldl_mul_mod (dims : List ℕ) (start : ℕ) :
    dims.foldl (fun total_size dim => total_size * dim % 2 ^ 32) (start % 2 ^ 32) =
      start * dims.prod % 2 ^ 32 := by
  induction dims generalizing start with
  | nil => simp
  | cons dim dims ih =>
      have product : start % 2 ^ 32 * dim % 2 ^ 32 = start * dim % 2 ^ 32 := by
        rw [Nat.mul_mod, Nat.mod_mod, ← Nat.mul_mod]
      rw [List.foldl_cons, product, ih, List.prod_cons, Nat.mul_assoc]

theorem size_eq (tensor : Tensor cfg t) : tensor.size = tensor.nbElems % 2 ^ 32 := by
  have product := foldl_mul_mod tensor.shape 1
  rw [Nat.one_mul] at product
  simp only [size, nbElems]
  split
  · rfl
  · exact product

end Tensor

/-- `cg_value`; a list of bytes stands for a `std::string`. -/
inductive Value (cfg : Config) where
  | monostate
  | scalar (t : ElemType) (v : Word t.size)
  | buffer (handle : Option RawBuffer)
  | string (s : List UInt8)
  | tensor (t : ElemType) (handle : Option (Tensor cfg t))
  | constTensor (t : ElemType) (handle : Option (Tensor cfg t))
deriving DecidableEq

/-- `cg_event_priority` -/
inductive Priority where
  | kLowPriority | kNormalPriority | kHighPriority
deriving DecidableEq, Repr

/-- The number stored in the event by `Event::setPriority`. -/
def Priority.number : Priority → Word 1
  | kLowPriority => 0
  | kNormalPriority => 1
  | kHighPriority => 2

/-- `EventData`; the list holds the first `nb_values` entries of a `ListValue`. -/
inductive EventData (cfg : Config) where
  | value (v : Value cfg)
  | list (values : List (Value cfg))
deriving DecidableEq

def EventData.values {cfg : Config} : EventData cfg → List (Value cfg)
  | .value v => [v]
  | .list values => values

/-- `Event` -/
structure Event (cfg : Config) where
  event_id : Word 4
  priority : Priority
  data : EventData cfg
  /-- Time to live in ms, 0 means infinite -/
  ttl : Word 4
deriving DecidableEq

/-- The number of `kDo` in `cg_standard_event`. -/
def kDo : Word 4 := 1

/-- The number of `kNoEvent` -/
def kNoEvent : Word 4 := 0

namespace Event

variable {cfg : Config}

/-- The event of some arguments; a list of them needs memory, without it there is no event. -/
def make (selector : Word 4) (priority : Priority) (args : List (Value cfg)) (allocated : Bool) :
    Event cfg :=
  match args with
  | [] => ⟨selector, priority, .value .monostate, 0⟩
  | [v] => ⟨selector, priority, .value v, 0⟩
  | values =>
      if allocated then ⟨selector, priority, .list values, 0⟩
      else ⟨kNoEvent, priority, .value .monostate, 0⟩

/-- `setTTL`, unless the time is infinite -/
def withTTL (evt : Event cfg) (ttl : Word 4) : Event cfg :=
  if ttl ≠ 0 then { evt with ttl } else evt

/-- `clone`, which needs memory for a list. -/
def clone (evt : Event cfg) (allocated : Bool) : Event cfg :=
  match evt.data with
  | .value _ => evt
  | .list _ =>
      if allocated then evt else { evt with event_id := kNoEvent, data := .value .monostate }

end Event

end CmsisStream.Events
