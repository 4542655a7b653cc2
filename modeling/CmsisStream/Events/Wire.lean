import CmsisStream.Codec.Action
import CmsisStream.Events.Value

/-!
# The bytes of an event

`Wire` gives the bytes of each kind of value.  A reader tries the tags of the values one
after the other, which is what `maybe`, `ifTag` and `firstTag` are for.
-/

namespace CmsisStream.Events

open Codec (Word Action Stream)
open Codec.Action

namespace Wire

/-- A payload after its number of elements. -/
def counted (count : ℕ) (payload : List UInt8) : List UInt8 :=
  (Word.ofNat 4 count).bytes ++ payload

/-- Words one after the other. -/
def words {n : ℕ} (values : List (Word n)) : List UInt8 := values.flatMap Word.bytes

/-- The node, the selector and the priority of a message. -/
def header (nodeid event_id : Word 4) (priority : Word 1) : List UInt8 :=
  nodeid.bytes ++ (event_id.bytes ++ priority.bytes)

/-- No value is a tag only. -/
def none : List UInt8 := [ValueType.kNone.toByte]

/-- A scalar after its tag. -/
def scalar (t : ElemType) (v : Word t.size) : List UInt8 := t.tag.toByte :: v.bytes

/-- The bytes of a copied buffer, after their number. -/
def buffer (count : ℕ) (data : List UInt8) : List UInt8 :=
  [ValueType.kAny.toByte, BufferType.kCopyBuffer.toByte] ++ counted count data

/-- The bytes of a string, after their number. -/
def string (count : ℕ) (data : List UInt8) : List UInt8 :=
  ValueType.kStr.toByte :: counted count data

/-- A copied tensor: its dimensions, then the type of its elements and the elements. -/
def tensor (nb_dims : Word 1) (dims : List (Word 4)) (t : ElemType) (count : ℕ)
    (data : List (Word t.size)) : List UInt8 :=
  [ValueType.kTensor.toByte] ++ nb_dims.bytes ++ counted dims.length (words dims) ++
    [t.tag.toByte, BufferType.kCopyBuffer.toByte] ++ counted count (words data)

end Wire

/-! ## Reading tags -/

variable {σ ε α : Type}

/-- `maybe`: skip the next byte if it is `k`.  The readers differ at the end of the bytes. -/
def maybe (atEnd : Except ε Bool) (k : ValueType) : Action σ ε Bool :=
  fun stream =>
    match stream.bytes with
    | [] => atEnd.map (·, stream)
    | byte :: rest =>
        if byte = k.toByte then .ok (true, { stream with bytes := rest }) else .ok (false, stream)

/-- Read the value if the next byte is its tag, and something else otherwise. -/
def ifTag (atEnd : Except ε Bool) (k : ValueType) (found otherwise : Action σ ε α) :
    Action σ ε α := do
  if ← maybe atEnd k then found else otherwise

/-- Try the tags of some types one after the other. -/
def firstTag (atEnd : Except ε Bool) (found : ElemType → Action σ ε α) :
    List ElemType → Action σ ε α → Action σ ε α
  | [], otherwise => otherwise
  | t :: types, otherwise => ifTag atEnd t.tag (found t) (firstTag atEnd found types otherwise)

variable {atEnd : Except ε Bool}

theorem ifTag_self (k : ValueType) (found otherwise : Action σ ε α) (rest : List UInt8)
    (env : σ) :
    ifTag atEnd k found otherwise ⟨k.toByte :: rest, env⟩ = found ⟨rest, env⟩ := by
  have next : maybe atEnd k (⟨k.toByte :: rest, env⟩ : Stream σ) = .ok (true, ⟨rest, env⟩) := by
    simp [maybe]
  exact bind_of_ok next _

theorem ifTag_of_ne {k : ValueType} {byte : UInt8} (ne : byte ≠ k.toByte)
    (found otherwise : Action σ ε α) (rest : List UInt8) (env : σ) :
    ifTag atEnd k found otherwise ⟨byte :: rest, env⟩ = otherwise ⟨byte :: rest, env⟩ := by
  have next : maybe atEnd k (⟨byte :: rest, env⟩ : Stream σ) =
      .ok (false, ⟨byte :: rest, env⟩) := by
    simp [maybe, ne]
  exact bind_of_ok next _

theorem firstTag_of_mem {types : List ElemType} {t : ElemType} (mem : t ∈ types)
    (found : ElemType → Action σ ε α) (otherwise : Action σ ε α) (rest : List UInt8) (env : σ) :
    firstTag atEnd found types otherwise ⟨t.tag.toByte :: rest, env⟩ = found t ⟨rest, env⟩ := by
  induction types with
  | nil => simp at mem
  | cons other types ih =>
      by_cases same : other = t
      · subst same
        apply ifTag_self
      · have ne : t.tag.toByte ≠ other.tag.toByte := fun eq =>
          same (ElemType.tag_injective (ValueType.toByte_injective eq)).symm
        rw [firstTag, ifTag_of_ne ne]
        apply ih
        exact (List.mem_cons.mp mem).resolve_left fun eq => same eq.symm

theorem firstTag_of_not_mem {types : List ElemType} {byte : UInt8}
    (notMem : ∀ t ∈ types, byte ≠ t.tag.toByte) (found : ElemType → Action σ ε α)
    (otherwise : Action σ ε α) (rest : List UInt8) (env : σ) :
    firstTag atEnd found types otherwise ⟨byte :: rest, env⟩ = otherwise ⟨byte :: rest, env⟩ := by
  induction types with
  | nil => rfl
  | cons t types ih =>
      rw [firstTag, ifTag_of_ne (notMem t List.mem_cons_self)]
      apply ih
      exact fun other mem => notMem other (List.mem_cons_of_mem t mem)

theorem ifTag_nil {e : ε} (k : ValueType) (found otherwise : Action σ ε α) (env : σ) :
    ifTag (.error e) k found otherwise ⟨[], env⟩ = .error e := by
  have next : maybe (.error e) k (⟨[], env⟩ : Stream σ) = .error e := rfl
  exact bind_of_error next _

/-- A byte has been tried against all the tags. -/
theorem firstTag_eq_ok {e : ε} {t : ElemType} {types : List ElemType}
    {found : ElemType → Action σ ε α} {otherwise : Action σ ε α} {stream : Stream σ}
    {result : α × Stream σ}
    (run : firstTag (.error e) found (t :: types) otherwise stream = .ok result) :
    ∃ byte rest, stream.bytes = byte :: rest ∧
      ((∃ t' ∈ t :: types, byte = t'.tag.toByte ∧ found t' ⟨rest, stream.env⟩ = .ok result) ∨
        (∀ t' ∈ t :: types, byte ≠ t'.tag.toByte) ∧ otherwise stream = .ok result) := by
  rcases stream with ⟨_ | ⟨byte, rest⟩, env⟩
  · rw [firstTag, ifTag_nil] at run
    cases run
  · refine ⟨byte, rest, rfl, ?_⟩
    by_cases known : ∃ t' ∈ t :: types, byte = t'.tag.toByte
    · rcases known with ⟨t', mem, rfl⟩
      rw [firstTag_of_mem mem] at run
      exact .inl ⟨t', mem, rfl, run⟩
    · push Not at known
      rw [firstTag_of_not_mem known] at run
      exact .inr ⟨known, run⟩

end CmsisStream.Events
