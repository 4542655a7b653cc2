import CmsisStream.Events.Value
import CmsisStream.Generated.ScheduleLoop

/-!
# Typed dispatch of events

The handler of an event declares the types of its arguments.  `wellFormed` tests
the event against these types, and `apply` converts its values and calls the
handler.  `ValueParse` has one case for each type: an integer type also accepts
the narrower types of its sign, by falling back on the next narrower one.
-/

namespace CmsisStream.Events

open Codec (Word)

/-- The integer types of arguments. -/
inductive IntType where
  | int8 | int16 | int32 | int64 | uint8 | uint16 | uint32 | uint64
deriving DecidableEq, Repr

namespace IntType

def elem : IntType → ElemType
  | int8 => .int8
  | int16 => .int16
  | int32 => .int32
  | int64 => .int64
  | uint8 => .uint8
  | uint16 => .uint16
  | uint32 => .uint32
  | uint64 => .uint64

def signed : IntType → Bool
  | int8 | int16 | int32 | int64 => true
  | uint8 | uint16 | uint32 | uint64 => false

/-- The number that a word of the type stands for. -/
def number (t : IntType) (word : Word t.elem.size) : ℤ :=
  if t.signed then word.toInt else word.toNat

end IntType

/-- The types of arguments. -/
inductive ArgType where
  | int (t : IntType)
  | string
  | buffer
  | tensor (t : ElemType)
  | constTensor (t : ElemType)
deriving DecidableEq, Repr

/-- What an argument of the type is. -/
def ArgType.Carrier (cfg : Config) : ArgType → Type
  | .int t => Word t.elem.size
  | .string => List UInt8
  | .buffer => Option RawBuffer
  | .tensor t => Option (Tensor cfg t)
  | .constTensor t => Option (Tensor cfg t)

/-! ### `ValueParse` -/

namespace ValueParse

variable {cfg : Config}

/-- `std::get<T>` of a scalar, if `std::holds_alternative<T>` -/
def scalar? (t : ElemType) : Value cfg → Option (Word t.size)
  | .scalar s v => if same : s = t then some (same ▸ v) else none
  | _ => none

/-- The primary template. -/
def containsOnly (t : ElemType) (data : Value cfg) : Bool := (scalar? t data).isSome

def getOnly (t : ElemType) (data : Value cfg) : Word t.size := (scalar? t data).getD 0

/-- A specialisation, which falls back on a narrower type. -/
def containsOr (t : ElemType) (narrower : Value cfg → Bool) (data : Value cfg) : Bool :=
  (scalar? t data).isSome || narrower data

def getOr (t : ElemType) (narrower : Value cfg → Word t.size) (data : Value cfg) : Word t.size :=
  match scalar? t data with
  | some v => v
  | none => narrower data

def containsUInt8 : Value cfg → Bool := containsOnly .uint8
def containsUInt16 : Value cfg → Bool := containsOr .uint16 containsUInt8
def containsUInt32 : Value cfg → Bool := containsOr .uint32 containsUInt16
def containsUInt64 : Value cfg → Bool := containsOr .uint64 containsUInt32
def containsInt8 : Value cfg → Bool := containsOnly .int8
def containsInt16 : Value cfg → Bool := containsOr .int16 containsInt8
def containsInt32 : Value cfg → Bool := containsOr .int32 containsInt16
def containsInt64 : Value cfg → Bool := containsOr .int64 containsInt32

def getUInt8 : Value cfg → Word 1 := getOnly .uint8
def getUInt16 : Value cfg → Word 2 := getOr .uint16 fun data => (getUInt8 data).setWidth 16
def getUInt32 : Value cfg → Word 4 := getOr .uint32 fun data => (getUInt16 data).setWidth 32
def getUInt64 : Value cfg → Word 8 := getOr .uint64 fun data => (getUInt32 data).setWidth 64
def getInt8 : Value cfg → Word 1 := getOnly .int8
def getInt16 : Value cfg → Word 2 := getOr .int16 fun data => (getInt8 data).signExtend 16
def getInt32 : Value cfg → Word 4 := getOr .int32 fun data => (getInt16 data).signExtend 32
def getInt64 : Value cfg → Word 8 := getOr .int64 fun data => (getInt32 data).signExtend 64

def containsInt : IntType → Value cfg → Bool
  | .int8 => containsInt8
  | .int16 => containsInt16
  | .int32 => containsInt32
  | .int64 => containsInt64
  | .uint8 => containsUInt8
  | .uint16 => containsUInt16
  | .uint32 => containsUInt32
  | .uint64 => containsUInt64

def getInt : (t : IntType) → Value cfg → Word t.elem.size
  | .int8 => getInt8
  | .int16 => getInt16
  | .int32 => getInt32
  | .int64 => getInt64
  | .uint8 => getUInt8
  | .uint16 => getUInt16
  | .uint32 => getUInt32
  | .uint64 => getUInt64

/-- `ValueParse<T>::contains` -/
def contains : ArgType → Value cfg → Bool
  | .int t, data => containsInt t data
  | .string, .string _ => true
  | .buffer, .buffer _ => true
  | .tensor t, .tensor s _ => decide (s = t)
  | .constTensor t, .constTensor s _ => decide (s = t)
  | _, _ => false

/-- `ValueParse<T>::getValue`, which is `T()` where the value is not of the type -/
def getValue : (T : ArgType) → Value cfg → T.Carrier cfg
  | .int t, data => getInt t data
  | .string, .string s => s
  | .string, _ => []
  | .buffer, .buffer handle => handle
  | .buffer, _ => none
  | .tensor t, .tensor s handle => if same : s = t then same ▸ handle else none
  | .tensor _, _ => none
  | .constTensor t, .constTensor s handle => if same : s = t then same ▸ handle else none
  | .constTensor _, _ => none

end ValueParse

/-! ### `wellFormed` and `apply` -/

/-- The arguments of a handler, in order. -/
def Arguments (cfg : Config) : List ArgType → Type
  | [] => Unit
  | T :: types => T.Carrier cfg × Arguments cfg types

namespace EventData

variable {cfg : Config}

/-- `check_array_types` -/
def check_array_types : List ArgType → List (Value cfg) → Bool
  | T :: types, v :: values => ValueParse.contains T v && check_array_types types values
  | _, _ => true

/-- The conversions of `apply_array_types`; entries past the list are empty values. -/
def arguments : (types : List ArgType) → List (Value cfg) → Arguments cfg types
  | [], _ => ()
  | T :: types, [] => (ValueParse.getValue T .monostate, arguments types [])
  | T :: types, v :: values => (ValueParse.getValue T v, arguments types values)

def wellFormed : List ArgType → EventData cfg → Bool
  | [], _ => false
  | [T], .value val => ValueParse.contains T val
  | [_], .list _ => false
  | _ :: _ :: _, .value _ => false
  | T :: U :: types, .list values =>
      if values.length > 0 then
        if (T :: U :: types).length ≠ values.length then false
        else check_array_types (T :: U :: types) values
      else false

/-- A handler which changes a state `σ`, and returns a status or nothing. -/
inductive Handler (cfg : Config) (types : List ArgType) (σ : Type) where
  | status (f : Arguments cfg types → StateM σ ℤ)
  | void (f : Arguments cfg types → StateM σ Unit)

/-- `apply_status`; `CG_SUCCESS` is 0. -/
def apply_status {types : List ArgType} {σ : Type} (handler : Handler cfg types σ)
    (arguments : Arguments cfg types) : StateM σ ℤ :=
  match handler with
  | .status f => f arguments
  | .void f => do
      f arguments
      pure 0

/-- `apply` with a function only. -/
def apply {σ : Type} : (types : List ArgType) → Handler cfg types σ → EventData cfg → StateM σ ℤ
  | [], _, _ => pure Generated.cgBufferError
  | [T], f, .value val => apply_status f (ValueParse.getValue T val, ())
  | [_], _, .list _ => pure Generated.cgBufferError
  | _ :: _ :: _, _, .value _ => pure Generated.cgBufferError
  | T :: U :: types, f, .list values =>
      if values.length > 0 then
        if (T :: U :: types).length ≠ values.length then pure Generated.cgBufferError
        else apply_status f (arguments (T :: U :: types) values)
      else pure Generated.cgBufferError

end EventData

/-! ### What the types accept -/

variable {cfg : Config}

/-- The value is of the type, or of a narrower integer type of the same sign. -/
def ArgType.Accepts : ArgType → Value cfg → Prop
  | .int t, .scalar s _ => ∃ u : IntType, u.elem = s ∧ u.signed = t.signed ∧
      u.elem.size ≤ t.elem.size
  | .string, .string _ => True
  | .buffer, .buffer _ => True
  | .tensor t, .tensor s _ => s = t
  | .constTensor t, .constTensor s _ => s = t
  | _, _ => False

/-- The argument is the value: the same number, text, buffer or tensor. -/
def ArgType.Receives : (T : ArgType) → T.Carrier cfg → Value cfg → Prop
  | .int t, word, .scalar s v =>
      ∃ u : IntType, ∃ same : s = u.elem, u.number (same ▸ v) = t.number word
  | .string, text, .string s => text = s
  | .buffer, argument, .buffer handle => argument = handle
  | .tensor t, argument, .tensor s handle => ∃ same : s = t, argument = same ▸ handle
  | .constTensor t, argument, .constTensor s handle => ∃ same : s = t, argument = same ▸ handle
  | _, _, _ => False

/-- Each argument is the value at its place. -/
def ReceivesAll : (types : List ArgType) → Arguments cfg types → List (Value cfg) → Prop
  | [], _, values => values = []
  | T :: types, (argument, arguments), v :: values =>
      T.Receives argument v ∧ ReceivesAll types arguments values
  | _ :: _, _, [] => False

namespace ValueParse

/-- The functions of `ValueParse` for an integer type are right. -/
structure Parses (cfg : Config) (t : IntType) (contains : Value cfg → Bool)
    (getValue : Value cfg → Word t.elem.size) : Prop where
  contains_iff : ∀ data, contains data = true ↔ (ArgType.int t).Accepts data
  receives : ∀ data, (ArgType.int t).Accepts data →
    (ArgType.int t).Receives (getValue data) data

theorem scalar?_self (t : ElemType) (v : Word t.size) :
    scalar? t (.scalar t v : Value cfg) = some v := by
  simp [scalar?]

theorem scalar?_of_ne {t s : ElemType} (differ : s ≠ t) (v : Word s.size) :
    scalar? t (.scalar s v : Value cfg) = none := by
  simp [scalar?, differ]

theorem accepts_self (t : IntType) (v : Word t.elem.size) :
    (ArgType.int t).Accepts (.scalar t.elem v : Value cfg) := ⟨t, rfl, rfl, le_rfl⟩

theorem receives_self (t : IntType) (v : Word t.elem.size) :
    (ArgType.int t).Receives v (.scalar t.elem v : Value cfg) := ⟨t, rfl, rfl⟩

/-- The primary template, for the narrowest type of a sign. -/
theorem parses_only {t : IntType}
    (narrowest : ∀ w : IntType, w.signed = t.signed → w.elem.size ≤ t.elem.size → w = t) :
    Parses cfg t (containsOnly t.elem) (getOnly t.elem) := by
  have accepted : ∀ data : Value cfg, (ArgType.int t).Accepts data →
      ∃ v, data = .scalar t.elem v := by
    intro data accepts
    cases data with
    | scalar s v =>
        rcases accepts with ⟨w, rfl, sign, le⟩
        obtain rfl := narrowest w sign le
        exact ⟨v, rfl⟩
    | _ => exact accepts.elim
  refine ⟨?_, ?_⟩
  · intro data
    refine ⟨?_, ?_⟩
    · intro contains
      cases data with
      | scalar s v =>
          by_cases same : s = t.elem
          · subst same
            exact accepts_self t v
          · simp [containsOnly, scalar?_of_ne same] at contains
      | _ => simp [containsOnly, scalar?] at contains
    · intro accepts
      rcases accepted data accepts with ⟨v, rfl⟩
      simp [containsOnly, scalar?_self]
  · intro data accepts
    rcases accepted data accepts with ⟨v, rfl⟩
    rw [getOnly, scalar?_self]
    exact receives_self t v

/-- A specialisation, for a type and the next narrower one. -/
theorem parses_or {t u : IntType} {contains : Value cfg → Bool}
    {getValue : Value cfg → Word u.elem.size} {widen : Word u.elem.size → Word t.elem.size}
    (parses : Parses cfg u contains getValue) (sign : u.signed = t.signed)
    (narrower : u.elem.size ≤ t.elem.size)
    (next : ∀ w : IntType, w.signed = t.signed → w.elem.size ≤ t.elem.size →
      w = t ∨ w.elem.size ≤ u.elem.size)
    (keeps : ∀ word, t.number (widen word) = u.number word) :
    Parses cfg t (containsOr t.elem contains) (getOr t.elem fun data => widen (getValue data)) := by
  have accepted : ∀ data : Value cfg, (ArgType.int t).Accepts data ↔
      (∃ v, data = .scalar t.elem v) ∨ (ArgType.int u).Accepts data := by
    intro data
    cases data with
    | scalar s v =>
        refine ⟨?_, ?_⟩
        · rintro ⟨w, rfl, signW, le⟩
          rcases next w signW le with rfl | le
          · exact Or.inl ⟨v, rfl⟩
          · exact Or.inr ⟨w, rfl, signW.trans sign.symm, le⟩
        · rintro (⟨v', same⟩ | ⟨w, rfl, signW, le⟩)
          · cases same
            exact accepts_self t _
          · exact ⟨w, rfl, signW.trans sign, le.trans narrower⟩
    | _ => simp [ArgType.Accepts]
  have other : ∀ data : Value cfg, (∀ v, data ≠ .scalar t.elem v) → scalar? t.elem data = none := by
    intro data differ
    cases data with
    | scalar s v =>
        apply scalar?_of_ne
        intro same
        subst same
        exact differ v rfl
    | _ => rfl
  refine ⟨?_, ?_⟩
  · intro data
    rw [accepted, ← parses.contains_iff]
    by_cases own : ∃ v, data = .scalar t.elem v
    · rcases own with ⟨v, rfl⟩
      simp [containsOr, scalar?_self]
    · rw [containsOr, other data fun v same => own ⟨v, same⟩]
      simp [own]
  · intro data accepts
    by_cases own : ∃ v, data = .scalar t.elem v
    · rcases own with ⟨v, rfl⟩
      rw [getOr, scalar?_self]
      exact receives_self t v
    · have fallback := parses.receives data (((accepted data).mp accepts).resolve_left own)
      rw [getOr, other data fun v same => own ⟨v, same⟩]
      cases data with
      | scalar s v =>
          rcases fallback with ⟨w, same, number⟩
          exact ⟨w, same, number.trans (keeps _).symm⟩
      | _ => exact fallback.elim

theorem parses_uint8 : Parses cfg .uint8 containsUInt8 getUInt8 :=
  parses_only fun w => by cases w <;> decide

theorem parses_int8 : Parses cfg .int8 containsInt8 getInt8 :=
  parses_only fun w => by cases w <;> decide

theorem parses_uint16 : Parses cfg .uint16 containsUInt16 getUInt16 := by
  refine parses_or (t := .uint16) parses_uint8 rfl (by decide) ?_ ?_
  · intro w
    cases w <;> decide
  · intro word
    exact congrArg Int.ofNat (BitVec.toNat_setWidth_of_le (by decide))

theorem parses_uint32 : Parses cfg .uint32 containsUInt32 getUInt32 := by
  refine parses_or (t := .uint32) parses_uint16 rfl (by decide) ?_ ?_
  · intro w
    cases w <;> decide
  · intro word
    exact congrArg Int.ofNat (BitVec.toNat_setWidth_of_le (by decide))

theorem parses_uint64 : Parses cfg .uint64 containsUInt64 getUInt64 := by
  refine parses_or (t := .uint64) parses_uint32 rfl (by decide) ?_ ?_
  · intro w
    cases w <;> decide
  · intro word
    exact congrArg Int.ofNat (BitVec.toNat_setWidth_of_le (by decide))

theorem parses_int16 : Parses cfg .int16 containsInt16 getInt16 := by
  refine parses_or (t := .int16) parses_int8 rfl (by decide) ?_ ?_
  · intro w
    cases w <;> decide
  · intro word
    exact BitVec.toInt_signExtend_of_le (by decide)

theorem parses_int32 : Parses cfg .int32 containsInt32 getInt32 := by
  refine parses_or (t := .int32) parses_int16 rfl (by decide) ?_ ?_
  · intro w
    cases w <;> decide
  · intro word
    exact BitVec.toInt_signExtend_of_le (by decide)

theorem parses_int64 : Parses cfg .int64 containsInt64 getInt64 := by
  refine parses_or (t := .int64) parses_int32 rfl (by decide) ?_ ?_
  · intro w
    cases w <;> decide
  · intro word
    exact BitVec.toInt_signExtend_of_le (by decide)

theorem parses_int (t : IntType) : Parses cfg t (containsInt t) (getInt t) := by
  cases t with
  | int8 => exact parses_int8
  | int16 => exact parses_int16
  | int32 => exact parses_int32
  | int64 => exact parses_int64
  | uint8 => exact parses_uint8
  | uint16 => exact parses_uint16
  | uint32 => exact parses_uint32
  | uint64 => exact parses_uint64

theorem contains_iff (T : ArgType) (data : Value cfg) :
    contains T data = true ↔ T.Accepts data := by
  cases T with
  | int t => exact (parses_int t).contains_iff data
  | string => cases data <;> simp [contains, ArgType.Accepts]
  | buffer => cases data <;> simp [contains, ArgType.Accepts]
  | tensor t => cases data <;> simp [contains, ArgType.Accepts]
  | constTensor t => cases data <;> simp [contains, ArgType.Accepts]

end ValueParse

namespace EventData

end EventData

end CmsisStream.Events
