import CmsisStream.Codec.Bytes
import Mathlib.Data.List.Forall2
import Mathlib.Data.Vector.Basic

/-!
# Reading and writing byte streams

An encoder appends bytes to a stream and a decoder removes them from its front; both may
change a state of their surroundings, or fail.  `Writes` and `Reads` are their
specifications, with one rule for each way of building an action, so that a round trip is
proved by following the two programs step by step.
-/

namespace Codec

/-- The bytes written so far or left to be read, and the state of the surroundings. -/
structure Stream (σ : Type) where
  bytes : List UInt8
  env : σ

/-- What a program reading or writing a stream does. -/
abbrev Action (σ ε : Type) : Type → Type := StateT (Stream σ) (Except ε)

namespace Action

variable {σ ε α β : Type}

theorem bind_eq_ok {action : Action σ ε α} {next : α → Action σ ε β} {stream : Stream σ}
    {result : β × Stream σ} :
    (action >>= next) stream = .ok result ↔
      ∃ a middle, action stream = .ok (a, middle) ∧ next a middle = .ok result := by
  change Except.bind (action stream) (fun p => next p.1 p.2) = .ok result ↔ _
  cases action stream with
  | error e => simp [Except.bind]
  | ok p =>
      constructor
      · intro second
        exact ⟨p.1, p.2, rfl, second⟩
      · rintro ⟨a, middle, eq, second⟩
        cases eq
        exact second

theorem bind_of_ok {action : Action σ ε α} {stream middle : Stream σ} {a : α}
    (ok : action stream = .ok (a, middle)) (next : α → Action σ ε β) :
    (action >>= next) stream = next a middle := by
  change Except.bind (action stream) (fun p => next p.1 p.2) = _
  rw [ok]
  rfl

theorem bind_of_error {action : Action σ ε α} {stream : Stream σ} {e : ε}
    (error : action stream = .error e) (next : α → Action σ ε β) :
    (action >>= next) stream = .error e := by
  change Except.bind (action stream) (fun p => next p.1 p.2) = _
  rw [error]
  rfl

@[simp]
theorem pure_apply (a : α) (stream : Stream σ) :
    (pure a : Action σ ε α) stream = .ok (a, stream) := rfl

theorem bind_pure_eq_ok {action : Action σ ε α} {result : α → β}
    (injective : Function.Injective result) {a : α} {stream middle : Stream σ} :
    (do let a ← action; pure (result a)) stream = .ok (result a, middle) ↔
      action stream = .ok (a, middle) := by
  rw [bind_eq_ok]
  constructor
  · rintro ⟨b, last, run, eq⟩
    injection eq with eq
    rcases Prod.ext_iff.mp eq with ⟨same, rfl⟩
    rwa [← injective same]
  · intro run
    exact ⟨a, middle, run, rfl⟩

@[simp]
theorem throw_apply (e : ε) (stream : Stream σ) :
    (throw e : Action σ ε α) stream = .error e := rfl

/-! ## Writing -/

/-- Append some bytes. -/
def emit (bytes : List UInt8) : Action σ ε Unit :=
  fun stream => .ok ((), { stream with bytes := stream.bytes ++ bytes })

/-- The action appends these bytes to any stream and does nothing else. -/
def Writes (action : Action σ ε Unit) (bytes : List UInt8) : Prop :=
  ∀ stream, action stream = .ok ((), { stream with bytes := stream.bytes ++ bytes })

theorem writes_emit (bytes : List UInt8) : Writes (emit bytes : Action σ ε Unit) bytes :=
  fun _ => rfl

theorem writes_nothing : Writes (pure () : Action σ ε Unit) [] := by
  intro stream
  simp

theorem Writes.andThen {first : Action σ ε Unit} {second : Unit → Action σ ε Unit}
    {bytes more : List UInt8} (writesFirst : Writes first bytes)
    (writesSecond : Writes (second ()) more) : Writes (first >>= second) (bytes ++ more) := by
  intro stream
  rw [bind_of_ok (writesFirst stream), writesSecond]
  simp

theorem writes_forM {write : α → Action σ ε Unit} {enc : α → List UInt8} {items : List α}
    (writes : ∀ item ∈ items, Writes (write item) (enc item)) :
    Writes (items.forM write) (items.flatMap enc) := by
  induction items with
  | nil => exact writes_nothing
  | cons item items ih =>
      rw [List.flatMap_cons]
      apply Writes.andThen
      · exact writes item List.mem_cons_self
      · exact ih fun other mem => writes other (List.mem_cons_of_mem item mem)

/-- The action appends these bytes to any stream and changes the surroundings. -/
def Sends (action : Action σ ε Unit) (bytes : List UInt8) (change : σ → σ) : Prop :=
  ∀ stream, action stream = .ok ((), ⟨stream.bytes ++ bytes, change stream.env⟩)

theorem Writes.sends {action : Action σ ε Unit} {bytes : List UInt8}
    (writes : Writes action bytes) : Sends action bytes id := writes

theorem Writes.andSends {first : Action σ ε Unit} {second : Unit → Action σ ε Unit}
    {bytes more : List UInt8} {change : σ → σ} (writes : Writes first bytes)
    (sends : Sends (second ()) more change) : Sends (first >>= second) (bytes ++ more) change := by
  intro stream
  rw [bind_of_ok (writes stream), sends]
  simp

theorem Sends.andThen {first : Action σ ε Unit} {second : Unit → Action σ ε Unit}
    {bytes more : List UInt8} {change change' : σ → σ} (sendsFirst : Sends first bytes change)
    (sendsSecond : Sends (second ()) more change') :
    Sends (first >>= second) (bytes ++ more) (change' ∘ change) := by
  intro stream
  rw [bind_of_ok (sendsFirst stream), sendsSecond]
  simp

theorem sends_forM {write : α → Action σ ε Unit} {enc : α → List UInt8}
    {change : α → σ → σ} {items : List α}
    (sends : ∀ item ∈ items, Sends (write item) (enc item) (change item)) :
    Sends (items.forM write) (items.flatMap enc)
      fun env => items.foldl (fun env item => change item env) env := by
  induction items with
  | nil => exact writes_nothing.sends
  | cons item items ih =>
      rw [List.flatMap_cons]
      have others := ih fun other mem => sends other (List.mem_cons_of_mem item mem)
      have all : Sends (write item >>= fun _ => items.forM write) _ _ :=
        (sends item List.mem_cons_self).andThen others
      exact all

/-- The action appends these bytes and changes the surroundings if a condition holds, and fails
otherwise. -/
def SendsIf (p : Prop) (action : Action σ ε Unit) (bytes : List UInt8) (change : σ → σ) : Prop :=
  ∀ stream result, action stream = .ok result ↔
    p ∧ result = ((), ⟨stream.bytes ++ bytes, change stream.env⟩)

theorem Sends.sendsIf {action : Action σ ε Unit} {bytes : List UInt8} {change : σ → σ}
    (sends : Sends action bytes change) : SendsIf True action bytes change := by
  intro stream result
  rw [sends stream, Except.ok.injEq, true_and, eq_comm]

theorem SendsIf.congr {p q : Prop} {action : Action σ ε Unit} {bytes more : List UInt8}
    {change change' : σ → σ} (sends : SendsIf p action bytes change) (iff : p ↔ q)
    (eq : bytes = more) (same : change = change') : SendsIf q action more change' := by
  subst eq same
  intro stream result
  rw [sends stream, iff]

theorem SendsIf.andThen {p q : Prop} {first : Action σ ε Unit}
    {second : Unit → Action σ ε Unit} {bytes more : List UInt8} {change change' : σ → σ}
    (sendsFirst : SendsIf p first bytes change)
    (sendsSecond : SendsIf q (second ()) more change') :
    SendsIf (p ∧ q) (first >>= second) (bytes ++ more) (change' ∘ change) := by
  intro stream result
  rw [bind_eq_ok]
  constructor
  · rintro ⟨⟨⟩, middle, sentFirst, sentSecond⟩
    rcases (sendsFirst _ _).mp sentFirst with ⟨holds, eq⟩
    cases eq
    rcases (sendsSecond _ _).mp sentSecond with ⟨holds', rfl⟩
    exact ⟨⟨holds, holds'⟩, by simp⟩
  · rintro ⟨⟨holds, holds'⟩, rfl⟩
    refine ⟨(), _, (sendsFirst _ _).mpr ⟨holds, rfl⟩, (sendsSecond _ _).mpr ⟨holds', ?_⟩⟩
    simp

theorem sendsIf_forM {write : α → Action σ ε Unit} {p : α → Prop} {enc : α → List UInt8}
    {change : α → σ → σ} {items : List α}
    (sends : ∀ item ∈ items, SendsIf (p item) (write item) (enc item) (change item)) :
    SendsIf (∀ item ∈ items, p item) (items.forM write) (items.flatMap enc)
      fun env => items.foldl (fun env item => change item env) env := by
  induction items with
  | nil => exact writes_nothing.sends.sendsIf.congr (by simp) rfl rfl
  | cons item items ih =>
      rw [List.flatMap_cons, List.forall_mem_cons]
      have others := ih fun other mem => sends other (List.mem_cons_of_mem item mem)
      have all : SendsIf _ (write item >>= fun _ => items.forM write) _ _ :=
        (sends item List.mem_cons_self).andThen others
      exact all

/-- The action appends these bytes if a condition holds, and fails otherwise. -/
def WritesIf (p : Prop) (action : Action σ ε Unit) (bytes : List UInt8) : Prop :=
  ∀ stream result, action stream = .ok result ↔
    p ∧ result = ((), { stream with bytes := stream.bytes ++ bytes })

theorem WritesIf.sendsIf {p : Prop} {action : Action σ ε Unit} {bytes : List UInt8}
    (writes : WritesIf p action bytes) : SendsIf p action bytes id := writes

theorem Writes.writesIf {action : Action σ ε Unit} {bytes : List UInt8}
    (writes : Writes action bytes) : WritesIf True action bytes := writes.sends.sendsIf

theorem writesIf_ite {p : Prop} [Decidable p] {action : Action σ ε Unit} {bytes : List UInt8}
    (writes : Writes action bytes) (e : ε) :
    WritesIf p (if p then action else throw e) bytes := by
  intro stream result
  by_cases holds : p
  · rw [if_pos holds, writes stream, Except.ok.injEq, eq_comm]
    simp [holds]
  · simp [holds]

theorem WritesIf.congr {p q : Prop} {action : Action σ ε Unit} {bytes more : List UInt8}
    (writes : WritesIf p action bytes) (iff : p ↔ q) (eq : bytes = more) :
    WritesIf q action more :=
  writes.sendsIf.congr iff eq rfl

theorem WritesIf.andThen {p q : Prop} {first : Action σ ε Unit}
    {second : Unit → Action σ ε Unit} {bytes more : List UInt8}
    (writesFirst : WritesIf p first bytes) (writesSecond : WritesIf q (second ()) more) :
    WritesIf (p ∧ q) (first >>= second) (bytes ++ more) :=
  writesFirst.sendsIf.andThen writesSecond.sendsIf

theorem writesIf_forM {write : α → Action σ ε Unit} {p : α → Prop} {enc : α → List UInt8}
    {items : List α} (writes : ∀ item ∈ items, WritesIf (p item) (write item) (enc item)) :
    WritesIf (∀ item ∈ items, p item) (items.forM write) (items.flatMap enc) := by
  have unchanged : (fun env : σ => items.foldl (fun env _ => id env) env) = id := by
    funext env
    simp
  have sends := sendsIf_forM fun item mem => (writes item mem).sendsIf
  rw [unchanged] at sends
  exact sends

/-- The results of the action satisfy a condition. -/
def Gives (p : α → Prop) (action : Action σ ε α) : Prop :=
  ∀ stream a stream', action stream = .ok (a, stream') → p a

theorem gives_pure {p : α → Prop} {a : α} (holds : p a) : Gives p (pure a : Action σ ε α) := by
  rintro stream b stream' ⟨⟩
  exact holds

theorem gives_throw (p : α → Prop) (e : ε) : Gives p (throw e : Action σ ε α) := by
  rintro stream a stream' ⟨⟩

theorem Gives.bind {p : β → Prop} {action : Action σ ε α} {next : α → Action σ ε β}
    (gives : ∀ a, Gives p (next a)) : Gives p (action >>= next) := by
  intro stream b stream' run
  rcases bind_eq_ok.mp run with ⟨a, middle, -, last⟩
  exact gives a middle b stream' last

/-! ## Reading -/

/-- Read the next `n` bytes. -/
def take (short : ε) (n : ℕ) : Action σ ε (List UInt8) :=
  fun stream =>
    if n ≤ stream.bytes.length then
      .ok (stream.bytes.take n, { stream with bytes := stream.bytes.drop n })
    else .error short

/-- Read the next byte. -/
def byte (short : ε) : Action σ ε UInt8 := do
  let bytes ← take short 1
  pure (bytes.headD 0)

/-- Read a word of `n` bytes. -/
def word (short : ε) (n : ℕ) : Action σ ε (Word n) := do
  let bytes ← take short n
  pure (Word.ofBytes n bytes)

/-- The items read by repeating an action. -/
def repeatN (read : Action σ ε α) : ℕ → Action σ ε (List α)
  | 0 => pure []
  | n + 1 => do
      let item ← read
      let items ← repeatN read n
      pure (item :: items)

/-- The items of an array of known length. -/
def array (read : Action σ ε α) : (n : ℕ) → Action σ ε (List.Vector α n)
  | 0 => pure List.Vector.nil
  | n + 1 => do
      let item ← read
      let items ← array read n
      pure (item ::ᵥ items)

/-- In front of anything and in any surroundings, these bytes are read as `a` and nothing
more is read. -/
def Reads (action : Action σ ε α) (bytes : List UInt8) (a : α) : Prop :=
  ∀ rest env, action ⟨bytes ++ rest, env⟩ = .ok (a, ⟨rest, env⟩)

theorem reads_pure (a : α) : Reads (pure a : Action σ ε α) [] a := fun _ _ => rfl

theorem Reads.bind {action : Action σ ε α} {next : α → Action σ ε β} {bytes more : List UInt8}
    {a : α} {b : β} (reads : Reads action bytes a) (then_ : Reads (next a) more b) :
    Reads (action >>= next) (bytes ++ more) b := by
  intro rest env
  rw [List.append_assoc, bind_of_ok (reads _ _), then_]

/-- The last step of a decoder builds its result. -/
theorem Reads.bind_pure {action : Action σ ε α} {result : α → β} {bytes : List UInt8} {a : α}
    (reads : Reads action bytes a) :
    Reads (do let a ← action; pure (result a)) bytes (result a) := by
  have both : Reads (do let a ← action; pure (result a)) (bytes ++ []) (result a) := by
    apply reads.bind
    exact reads_pure (result a)
  rwa [List.append_nil] at both

/-- A first byte which only says how the following ones are read. -/
theorem Reads.prepend {action inner : Action σ ε α} {byte : UInt8} {bytes : List UInt8} {a : α}
    (reads : Reads inner bytes a)
    (dispatch : ∀ rest env, action ⟨byte :: rest, env⟩ = inner ⟨rest, env⟩) :
    Reads action (byte :: bytes) a := by
  intro rest env
  rw [List.cons_append, dispatch, reads]

theorem reads_take (short : ε) (bytes : List UInt8) :
    Reads (take short bytes.length : Action σ ε _) bytes bytes := by
  intro rest env
  simp [take]

theorem reads_byte (short : ε) (b : UInt8) : Reads (byte short : Action σ ε _) [b] b :=
  (reads_take short [b]).bind_pure

theorem byte_cons (short : ε) (b : UInt8) (rest : List UInt8) (env : σ) :
    byte short ⟨b :: rest, env⟩ = .ok (b, ⟨rest, env⟩) := reads_byte short b rest env

theorem reads_word (short : ε) {n : ℕ} (word : Word n) :
    Reads (Action.word short n : Action σ ε _) word.bytes word := by
  have taken : Reads (take short word.bytes.length : Action σ ε _) word.bytes word.bytes :=
    reads_take short word.bytes
  rw [Word.length_bytes] at taken
  have built : Reads (do let bytes ← take short n; pure (Word.ofBytes n bytes) : Action σ ε _)
      word.bytes (Word.ofBytes n word.bytes) := taken.bind_pure
  rwa [Word.ofBytes_bytes] at built

/-- What the action removes from the stream is the encoding of its result. -/
def Consumes (action : Action σ ε α) (enc : α → List UInt8) : Prop :=
  ∀ bytes env a stream, action ⟨bytes, env⟩ = .ok (a, stream) →
    ∃ rest, bytes = enc a ++ rest ∧ stream = ⟨rest, env⟩

theorem consumes_take (short : ε) (n : ℕ) :
    Consumes (take short n : Action σ ε _) id ∧
      ∀ bytes env taken (stream : Stream σ),
        take short n ⟨bytes, env⟩ = .ok (taken, stream) → taken.length = n := by
  constructor
  · intro bytes env taken stream run
    simp only [take] at run
    split at run
    · cases run
      exact ⟨bytes.drop n, (List.take_append_drop n bytes).symm, rfl⟩
    · cases run
  · intro bytes env taken stream run
    simp only [take] at run
    split at run
    · rename_i le
      cases run
      exact List.length_take_of_le le
    · cases run

theorem consumes_byte (short : ε) : Consumes (byte short : Action σ ε _) fun b => [b] := by
  intro bytes env b stream run
  rcases bind_eq_ok.mp run with ⟨taken, _, read, last⟩
  rcases (consumes_take short 1).1 _ _ _ _ read with ⟨rest, rfl, rfl⟩
  rcases List.length_eq_one_iff.mp ((consumes_take short 1).2 _ _ _ _ read) with ⟨only, rfl⟩
  cases last
  exact ⟨rest, rfl, rfl⟩

theorem consumes_word (short : ε) (n : ℕ) :
    Consumes (word short n : Action σ ε _) Word.bytes := by
  intro bytes env w stream run
  rcases bind_eq_ok.mp run with ⟨taken, middle, read, last⟩
  rcases (consumes_take short n).1 _ _ _ _ read with ⟨rest, split, rfl⟩
  have length := (consumes_take short n).2 _ _ _ _ read
  cases last
  exact ⟨rest, (Word.bytes_ofBytes length).symm ▸ split, rfl⟩

/-! ## Sequences of items -/

theorem length_repeatN {read : Action σ ε α} {n : ℕ} {stream stream' : Stream σ}
    {items : List α} (run : repeatN read n stream = .ok (items, stream')) : items.length = n := by
  induction n generalizing stream items with
  | zero =>
      cases run
      rfl
  | succ n ih =>
      rcases bind_eq_ok.mp run with ⟨item, _, -, run⟩
      rcases bind_eq_ok.mp run with ⟨others, _, readOthers, last⟩
      cases last
      rw [List.length_cons, ih readOthers]

section Sequences

variable {enc : α → List UInt8} {ok : α → List UInt8 → Prop} {same : α → β → Prop}
  {read : Action σ ε β} {env : σ} {items : List α} {rest : List UInt8}

/-- Each item of an encoded sequence satisfies a condition on itself and the bytes after it. -/
def EachFollowed (enc : α → List UInt8) (ok : α → List UInt8 → Prop) :
    List α → List UInt8 → Prop
  | [], _ => True
  | item :: items, rest => ok item (items.flatMap enc ++ rest) ∧ EachFollowed enc ok items rest

theorem eachFollowed_const {p : α → Prop} :
    EachFollowed enc (fun item _ => p item) items rest ↔ ∀ item ∈ items, p item := by
  induction items with
  | nil => simp [EachFollowed]
  | cons item items ih => simp [EachFollowed, ih]

/-- When every item is read back in its place, so is the sequence. -/
theorem repeatN_of_each
    (reads : ∀ item ∈ items, ∀ following, ok item following →
      ∃ b, read ⟨enc item ++ following, env⟩ = .ok (b, ⟨following, env⟩) ∧ same item b)
    (each : EachFollowed enc ok items rest) :
    ∃ results, repeatN read items.length ⟨items.flatMap enc ++ rest, env⟩ =
      .ok (results, ⟨rest, env⟩) ∧ List.Forall₂ same items results := by
  induction items with
  | nil => exact ⟨[], rfl, .nil⟩
  | cons item items ih =>
      rcases reads item List.mem_cons_self _ each.1 with ⟨b, readItem, sameItem⟩
      rcases ih (fun other mem => reads other (List.mem_cons_of_mem item mem)) each.2 with
        ⟨results, readItems, sameItems⟩
      refine ⟨b :: results, ?_, .cons sameItem sameItems⟩
      rw [List.flatMap_cons, List.append_assoc, List.length_cons, repeatN, bind_of_ok readItem,
        bind_of_ok readItems]
      rfl

/-- The first item which is not read back spoils the sequence. -/
theorem each_of_repeatN
    (reads : ∀ item ∈ items, ∀ following, ok item following →
      ∃ b, read ⟨enc item ++ following, env⟩ = .ok (b, ⟨following, env⟩) ∧ same item b)
    (only : ∀ item ∈ items, ∀ following b stream,
      read ⟨enc item ++ following, env⟩ = .ok (b, stream) → same item b → ok item following)
    {results : List β} {stream : Stream σ}
    (run : repeatN read items.length ⟨items.flatMap enc ++ rest, env⟩ = .ok (results, stream))
    (agree : List.Forall₂ same items results) : EachFollowed enc ok items rest := by
  induction items generalizing results with
  | nil => trivial
  | cons item items ih =>
      rw [List.flatMap_cons, List.append_assoc, List.length_cons, repeatN] at run
      rcases bind_eq_ok.mp run with ⟨b, middle, readItem, run⟩
      rcases bind_eq_ok.mp run with ⟨others, last, readItems, run⟩
      cases run
      rcases List.forall₂_cons.mp agree with ⟨sameItem, sameItems⟩
      have okItem := only item List.mem_cons_self _ _ _ readItem sameItem
      rcases reads item List.mem_cons_self _ okItem with ⟨b', readBack, -⟩
      rw [readBack] at readItem
      cases readItem
      refine ⟨okItem, ih ?_ ?_ readItems sameItems⟩
      · exact fun other mem => reads other (List.mem_cons_of_mem item mem)
      · exact fun other mem => only other (List.mem_cons_of_mem item mem)

end Sequences

theorem reads_repeatN {read : Action σ ε α} {enc : α → List UInt8}
    (reads : ∀ item, Reads read (enc item) item) (items : List α) :
    Reads (repeatN read items.length) (items.flatMap enc) items := by
  intro rest env
  have each : EachFollowed enc (fun _ _ => True) items rest :=
    eachFollowed_const.mpr fun _ _ => trivial
  have readBack : ∀ item ∈ items, ∀ following, True →
      ∃ b, read ⟨enc item ++ following, env⟩ = .ok (b, ⟨following, env⟩) ∧ item = b :=
    fun item _ following _ => ⟨item, reads item following env, rfl⟩
  rcases repeatN_of_each readBack each with ⟨results, run, agree⟩
  rw [List.forall₂_eq_eq_eq] at agree
  rw [run, ← agree]

theorem consumes_repeatN {read : Action σ ε α} {enc : α → List UInt8}
    (consumes : Consumes read enc) (n : ℕ) :
    Consumes (repeatN read n) fun items => items.flatMap enc := by
  induction n with
  | zero =>
      intro bytes env items stream run
      cases run
      exact ⟨bytes, rfl, rfl⟩
  | succ n ih =>
      intro bytes env items stream run
      rcases bind_eq_ok.mp run with ⟨item, _, readItem, run⟩
      rcases consumes _ _ _ _ readItem with ⟨middle, rfl, rfl⟩
      rcases bind_eq_ok.mp run with ⟨others, _, readOthers, last⟩
      rcases ih _ _ _ _ readOthers with ⟨rest, rfl, rfl⟩
      cases last
      exact ⟨rest, by simp, rfl⟩

theorem reads_array {read : Action σ ε α} {enc : α → List UInt8}
    (reads : ∀ item, Reads read (enc item) item) {n : ℕ} (items : List.Vector α n) :
    Reads (array read n) (items.toList.flatMap enc) items := by
  induction n with
  | zero =>
      rw [items.eq_nil]
      exact reads_pure _
  | succ n ih =>
      rw [← items.cons_head_tail, List.Vector.toList_cons, List.flatMap_cons]
      exact (reads items.head).bind (ih items.tail).bind_pure

theorem consumes_array {read : Action σ ε α} {enc : α → List UInt8}
    (consumes : Consumes read enc) (n : ℕ) :
    Consumes (array read n) fun items => items.toList.flatMap enc := by
  induction n with
  | zero =>
      intro bytes env items stream run
      cases run
      exact ⟨bytes, rfl, rfl⟩
  | succ n ih =>
      intro bytes env items stream run
      rcases bind_eq_ok.mp run with ⟨item, _, readItem, run⟩
      rcases consumes _ _ _ _ readItem with ⟨middle, rfl, rfl⟩
      rcases bind_eq_ok.mp run with ⟨others, _, readOthers, last⟩
      rcases ih _ _ _ _ readOthers with ⟨rest, rfl, rfl⟩
      cases last
      exact ⟨rest, by simp [List.Vector.toList_cons], rfl⟩

end Action

end Codec
