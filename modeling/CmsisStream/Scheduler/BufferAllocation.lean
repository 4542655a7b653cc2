import CmsisStream.Scheduler.Interference
import Mathlib.Data.List.Perm.Basic

/-!
# Allocation of the FIFO buffers

The second half of `initializeFIFODescriptions`.  The FIFOs working as arrays
get a colour, and the FIFOs of one colour share a buffer: the custom buffer of
one of them if there is one, and otherwise a numbered buffer as large as the
largest of them.  Every other FIFO has a buffer of its own.  Any proper colouring
of the interference graph will do, so the colouring is a parameter.
-/

namespace CmsisStream.Scheduler

/-- A colouring of the FIFOs working as arrays, as a dictionary in its own order. -/
abbrev ColorDict (g : Graph) := List (Fin g.nbEdges × ℕ)

/-- The function which colours the interference graph, given its nodes and edges. -/
abbrev Coloring (g : Graph) := List (Fin g.nbEdges) → Interference g → ColorDict g

/-- The dictionary colours each node once, and adjacent nodes differently. -/
structure ColorDict.Proper {g : Graph} (d : ColorDict g) (nodes : List (Fin g.nbEdges))
    (edges : Interference g) : Prop where
  nodes : (d.map Prod.fst).Perm nodes
  proper : ∀ e color o color', (e, color) ∈ d → (o, color') ∈ d → edges.Adjacent e o →
    color ≠ color'

/-- A buffer allocated by the scheduler: the bytes of a sample and the length. -/
structure FifoBuffer where
  bytes : ℕ
  length : ℤ
deriving DecidableEq, Repr

/-- What a colour is mapped to: a buffer number or a buffer given by the user. -/
inductive SharedBuffer where
  | numbered (sharedNB : ℕ)
  | custom (constraint : BufferConstraint)
deriving DecidableEq, Repr

/-- The fields of `FIFODesc` set by `initializeFIFODescriptions`. -/
structure FIFODesc where
  length : ℤ
  isArray : Bool
  customBuffer : Option BufferConstraint
  /-- Number of the buffer allocated by the scheduler. -/
  bufferID : Option ℕ
deriving DecidableEq, Repr

/-- The result of `initializeFIFODescriptions`. -/
structure FIFODescriptions (g : Graph) where
  fifo : Fin g.nbEdges → FIFODesc
  allBuffers : ℕ → Option FifoBuffer

section Shared

variable (g : Graph)

/-- The dictionary `sharedToContinuous`. -/
abbrev SharedToContinuous := ℕ → Option SharedBuffer

/-- The scan for custom buffers, for one FIFO. -/
def scanCustom (shared : SharedToContinuous) (item : Fin g.nbEdges × ℕ) : SharedToContinuous :=
  match (g.edge item.1).customBuffer with
  | some constraint =>
      if shared item.2 = none then Function.update shared item.2 (some (.custom constraint))
      else shared
  | none => shared

/-- The variables of the scan for the FIFOs without custom buffer. -/
structure SharedState where
  shared : SharedToContinuous
  continuousNumber : ℕ

/-- The scan for the other FIFOs, for one FIFO. -/
def scanOther (s : SharedState) (item : Fin g.nbEdges × ℕ) : SharedState :=
  if (g.edge item.1).customBuffer = none ∧ s.shared item.2 = none then
    { shared := Function.update s.shared item.2 (some (.numbered s.continuousNumber))
      continuousNumber := s.continuousNumber + 1 }
  else s

/-- Both scans. -/
def allocateShared (d : ColorDict g) : SharedState :=
  d.foldl (scanOther g) ⟨d.foldl (scanCustom g) fun _ => none, 0⟩

/-- The colour of a FIFO. -/
def ColorDict.color? {g : Graph} (d : ColorDict g) (e : Fin g.nbEdges) : Option ℕ :=
  (d.find? fun item => item.1 = e).map Prod.snd

/-- What the colour of a FIFO without custom buffer of its own is mapped to. -/
def sharedBuffer (d : ColorDict g) (e : Fin g.nbEdges) : Option SharedBuffer :=
  (d.color? e).bind (allocateShared g d).shared

/-- `fifo.customBuffer` after the scans. -/
def sharedCustomBuffer (d : ColorDict g) (e : Fin g.nbEdges) : Option BufferConstraint :=
  match (g.edge e).customBuffer with
  | some constraint => some constraint
  | none => match sharedBuffer g d e with
    | some (.custom constraint) => some constraint
    | _ => none

/-- `fifo.sharedNB` after the scans, for a FIFO without custom buffer. -/
def sharedNB (d : ColorDict g) (e : Fin g.nbEdges) : Option ℕ :=
  match (g.edge e).customBuffer with
  | some _ => none
  | none => match sharedBuffer g d e with
    | some (.numbered number) => some number
    | _ => none

/-- The dictionary `maxSizes`, after one more FIFO. -/
def scanSize (lengths : Fin g.nbEdges → ℤ) (d : ColorDict g) (maxSizes : ℕ → Option ℤ)
    (item : Fin g.nbEdges × ℕ) : ℕ → Option ℤ :=
  match sharedNB g d item.1 with
  | none => maxSizes
  | some number =>
      Function.update maxSizes number (some (match maxSizes number with
        | some size => max size (g.lengthInBytes lengths item.1)
        | none => g.lengthInBytes lengths item.1))

/-- The largest size of each shared buffer, in bytes. -/
def maxSizes (lengths : Fin g.nbEdges → ℤ) (d : ColorDict g) : ℕ → Option ℤ :=
  d.foldl (scanSize g lengths d) fun _ => none

/-- `bufferID + 1` when the largest number of a shared buffer is `bufferID`. -/
def firstOwnBuffer (d : ColorDict g) : ℕ :=
  d.foldl (fun bufferID item => max bufferID (((sharedNB g d item.1).map Nat.succ).getD 0)) 0

end Shared

section Own

variable (g : Graph)

/-- The variables of the loop which gives the other FIFOs a buffer. -/
structure OwnState where
  bufferID : ℕ
  allBuffers : ℕ → Option FifoBuffer
  buffer : Fin g.nbEdges → Option ℕ

/-- A new buffer for one FIFO, unless it uses a shared or custom buffer. -/
def allocateOwn (optimized : Fin g.nbEdges → Bool) (lengths : Fin g.nbEdges → ℤ)
    (s : OwnState g) (e : Fin g.nbEdges) : OwnState g :=
  if optimized e = false ∧ (g.edge e).customBuffer = none then
    { bufferID := s.bufferID + 1
      allBuffers := Function.update s.allBuffers s.bufferID
        (some ⟨(g.edge e).bytes, lengths e⟩)
      buffer := Function.update s.buffer e (some s.bufferID) }
  else s

end Own

section Describe

variable (g : Graph)

/-- The names of the custom buffers of the edges. -/
def customNames : List String :=
  (List.finRange g.nbEdges).filterMap fun e => (g.edge e).customBuffer.bind BufferConstraint.name

/-- The first name which was already used. -/
def reusedName : List String → List String → Option String
  | _, [] => none
  | used, name :: names => if name ∈ used then some name else reusedName (name :: used) names

/-- The dictionary of colours; empty without memory optimization. -/
def colors (coloring : Coloring g) (config : Configuration) (live : Fin g.nbEdges → Interval)
    (lengths : Fin g.nbEdges → ℤ) (maxTime : ℕ) : ColorDict g :=
  let array e := g.isArray (lengths e) e
  if config.memoryOptimization then
    coloring ((List.finRange g.nbEdges).filter fun e => array e)
      (interferenceGraph g config array live lengths maxTime)
  else []

/-- The buffers allocated for the given colours. -/
def describe (config : Configuration) (lengths : Fin g.nbEdges → ℤ) (d : ColorDict g) :
    FIFODescriptions g :=
  let array e := g.isArray (lengths e) e
  let optimized e := array e && config.memoryOptimization
  let shared id := (maxSizes g lengths d id).map fun size => ⟨1, size⟩
  let own := (List.finRange g.nbEdges).foldl (allocateOwn g optimized lengths)
    ⟨firstOwnBuffer g d, shared, sharedNB g d⟩
  { fifo := fun e =>
      { length := lengths e
        isArray := array e
        customBuffer := sharedCustomBuffer g d e
        bufferID := own.buffer e }
    allBuffers := own.allBuffers }

/-- `Graph.initializeFIFODescriptions` -/
def initializeFIFODescriptions (coloring : Coloring g) (config : Configuration)
    (live : Fin g.nbEdges → Interval) (lengths : Fin g.nbEdges → ℤ) (maxTime : ℕ) :
    Except SchedError (FIFODescriptions g) :=
  match reusedName [] (customNames g) with
  | some name => .error (.cannotReuseCustomBuffer name)
  | none =>
      if (List.finRange g.nbEdges).any g.ambiguousFIFO then .error .ambiguousTruthValue
      else match (List.finRange g.nbEdges).find? fun e =>
          (g.edge e).customBuffer.any BufferConstraint.mustBeArray &&
            !g.isArray (lengths e) e with
        | some e => .error (.customBufferMustBeArray e)
        | none => .ok (describe g config lengths (colors g coloring config live lengths maxTime))

end Describe

/-! ### Colours -/

section Colors

variable {g : Graph} {d : ColorDict g} {nodes : List (Fin g.nbEdges)} {edges : Interference g}

theorem ColorDict.mem_of_color? {e : Fin g.nbEdges} {color : ℕ} (eq : d.color? e = some color) :
    (e, color) ∈ d := by
  obtain ⟨⟨found, _⟩, foundEq, rfl⟩ := Option.map_eq_some_iff.mp eq
  have same := List.find?_some foundEq
  simp only [decide_eq_true_eq] at same
  subst same
  exact List.mem_of_find?_eq_some foundEq

theorem ColorDict.exists_color? {e : Fin g.nbEdges} (mem : e ∈ d.map Prod.fst) :
    ∃ color, d.color? e = some color := by
  obtain ⟨item, itemMem, rfl⟩ := List.mem_map.mp mem
  have found : (d.find? fun other => other.1 = item.1).isSome :=
    List.find?_isSome.mpr ⟨item, itemMem, by simp⟩
  obtain ⟨other, eq⟩ := Option.isSome_iff_exists.mp found
  exact ⟨other.2, by rw [ColorDict.color?, eq]; rfl⟩

/-- What both scans guarantee about the dictionary `sharedToContinuous`. -/
structure SharedInvariant (d seen : ColorDict g) (s : SharedState) : Prop where
  custom : ∀ color constraint, s.shared color = some (.custom constraint) →
    ∃ e, (e, color) ∈ d ∧ (g.edge e).customBuffer = some constraint
  below : ∀ color number, s.shared color = some (.numbered number) → number < s.continuousNumber
  injective : ∀ color color' number, s.shared color = some (.numbered number) →
    s.shared color' = some (.numbered number) → color = color'
  seen : ∀ e color, (e, color) ∈ seen → (g.edge e).customBuffer = none → s.shared color ≠ none

theorem foldl_scanCustom_custom (l : ColorDict g) {shared : SharedToContinuous} (subset : l ⊆ d)
    (custom : ∀ color buffer, shared color = some buffer →
      ∃ e constraint, buffer = .custom constraint ∧ (e, color) ∈ d ∧
        (g.edge e).customBuffer = some constraint) :
    ∀ color buffer, l.foldl (scanCustom g) shared color = some buffer →
      ∃ e constraint, buffer = .custom constraint ∧ (e, color) ∈ d ∧
        (g.edge e).customBuffer = some constraint := by
  induction l generalizing shared with
  | nil => exact custom
  | cons item l ih =>
      apply ih (List.subset_of_cons_subset subset)
      intro color buffer eq
      cases own : (g.edge item.1).customBuffer with
      | none =>
          simp only [scanCustom, own] at eq
          exact custom color buffer eq
      | some constraint =>
          simp only [scanCustom, own] at eq
          split_ifs at eq
          · simp only [Function.update_apply] at eq
            split_ifs at eq with same
            · subst same
              exact ⟨item.1, constraint, (Option.some.inj eq).symm,
                subset List.mem_cons_self, own⟩
            · exact custom color buffer eq
          · exact custom color buffer eq

theorem scanOther_invariant {seen : ColorDict g} {s : SharedState}
    (invariant : SharedInvariant d seen s) (item : Fin g.nbEdges × ℕ) :
    SharedInvariant d (seen ++ [item]) (scanOther g s item) := by
  unfold scanOther
  split_ifs with fresh
  · constructor
    · intro color constraint eq
      simp only [Function.update_apply] at eq
      split_ifs at eq with same
      · simp at eq
      · exact invariant.custom color constraint eq
    · intro color number eq
      simp only [Function.update_apply] at eq
      split_ifs at eq with same
      · obtain rfl := SharedBuffer.numbered.inj (Option.some.inj eq)
        exact Nat.lt_succ_self _
      · exact Nat.lt_succ_of_lt (invariant.below color number eq)
    · have notNew : ∀ color, s.shared color ≠ some (.numbered s.continuousNumber) :=
        fun color eq => lt_irrefl _ (invariant.below color _ eq)
      intro color color' number eq eq'
      simp only [Function.update_apply] at eq eq'
      split_ifs at eq eq' with same same' same'
      · exact same.trans same'.symm
      · obtain rfl := SharedBuffer.numbered.inj (Option.some.inj eq)
        exact absurd eq' (notNew color')
      · obtain rfl := SharedBuffer.numbered.inj (Option.some.inj eq')
        exact absurd eq (notNew color)
      · exact invariant.injective color color' number eq eq'
    · intro e color mem noCustom
      simp only [Function.update_apply]
      split_ifs with same
      · simp
      · rcases List.mem_append.mp mem with old | new
        · exact invariant.seen e color old noCustom
        · obtain rfl := List.mem_singleton.mp new
          exact absurd rfl same
  · refine ⟨invariant.custom, invariant.below, invariant.injective, ?_⟩
    intro e color mem noCustom
    rcases List.mem_append.mp mem with old | new
    · exact invariant.seen e color old noCustom
    · obtain rfl := List.mem_singleton.mp new
      exact fun unset => fresh ⟨noCustom, unset⟩

theorem foldl_scanOther_invariant (l : ColorDict g) {seen : ColorDict g} {s : SharedState}
    (invariant : SharedInvariant d seen s) :
    SharedInvariant d (seen ++ l) (l.foldl (scanOther g) s) := by
  induction l generalizing seen s with
  | nil => simpa using invariant
  | cons item l ih =>
      have next := ih (scanOther_invariant invariant item)
      rwa [List.append_assoc, List.singleton_append] at next

theorem allocateShared_invariant : SharedInvariant d d (allocateShared g d) := by
  have custom := foldl_scanCustom_custom d (List.Subset.refl d)
    (show ∀ color buffer, (fun _ => none : SharedToContinuous) color = some buffer → _ by simp)
  have initial : SharedInvariant d [] ⟨d.foldl (scanCustom g) fun _ => none, 0⟩ := by
    constructor
    · intro color constraint eq
      obtain ⟨e, constraint', same, mem, own⟩ := custom color _ eq
      obtain rfl := SharedBuffer.custom.inj same
      exact ⟨e, mem, own⟩
    · intro color number eq
      obtain ⟨e, constraint, contra, -⟩ := custom color _ eq
      simp at contra
    · intro color color' number eq
      obtain ⟨e, constraint, contra, -⟩ := custom color _ eq
      simp at contra
    · simp
  exact foldl_scanOther_invariant d initial

/-- A FIFO has a custom buffer because of a FIFO of the same colour. -/
theorem sharedCustomBuffer_spec {e : Fin g.nbEdges} {constraint : BufferConstraint}
    (custom : sharedCustomBuffer g d e = some constraint) :
    (g.edge e).customBuffer = some constraint ∨
      ((g.edge e).customBuffer = none ∧ ∃ owner color, (e, color) ∈ d ∧ (owner, color) ∈ d ∧
        (g.edge owner).customBuffer = some constraint) := by
  unfold sharedCustomBuffer at custom
  split at custom
  · rename_i own
    obtain rfl := Option.some.inj custom
    exact Or.inl own
  · rename_i noCustom
    split at custom
    · rename_i shared
      obtain rfl := Option.some.inj custom
      obtain ⟨color, colorEq, sharedEq⟩ := Option.bind_eq_some_iff.mp shared
      obtain ⟨owner, mem, own⟩ := allocateShared_invariant.custom color _ sharedEq
      exact Or.inr ⟨noCustom, owner, color, ColorDict.mem_of_color? colorEq, mem, own⟩
    · simp at custom

theorem sharedNB_spec {e : Fin g.nbEdges} {number : ℕ} (eq : sharedNB g d e = some number) :
    ∃ color, (e, color) ∈ d ∧
      (allocateShared g d).shared color = some (.numbered number) := by
  unfold sharedNB at eq
  split at eq
  · simp at eq
  · split at eq
    · rename_i shared
      obtain rfl := Option.some.inj eq
      obtain ⟨color, colorEq, sharedEq⟩ := Option.bind_eq_some_iff.mp shared
      exact ⟨color, ColorDict.mem_of_color? colorEq, sharedEq⟩
    · simp at eq

/-- FIFOs with the same number have the same colour. -/
theorem sharedNB_color {e o : Fin g.nbEdges} {number : ℕ} (eq : sharedNB g d e = some number)
    (eq' : sharedNB g d o = some number) : ∃ color, (e, color) ∈ d ∧ (o, color) ∈ d := by
  obtain ⟨color, mem, shared⟩ := sharedNB_spec eq
  obtain ⟨color', mem', shared'⟩ := sharedNB_spec eq'
  obtain rfl := allocateShared_invariant.injective color color' number shared shared'
  exact ⟨color, mem, mem'⟩

/-- A coloured FIFO has a number when it has no custom buffer. -/
theorem exists_sharedNB {e : Fin g.nbEdges} (mem : e ∈ d.map Prod.fst)
    (noCustom : sharedCustomBuffer g d e = none) : ∃ number, sharedNB g d e = some number := by
  obtain ⟨color, colorEq⟩ := ColorDict.exists_color? mem
  cases own : (g.edge e).customBuffer with
  | some constraint => simp [sharedCustomBuffer, own] at noCustom
  | none =>
      have someShared := allocateShared_invariant.seen e color
        (ColorDict.mem_of_color? colorEq) own
      have lookup : sharedBuffer g d e = (allocateShared g d).shared color := by
        rw [sharedBuffer, colorEq]
        rfl
      simp only [sharedCustomBuffer, own, lookup] at noCustom
      simp only [sharedNB, own, lookup]
      cases shared : (allocateShared g d).shared color with
      | none => exact absurd shared someShared
      | some buffer =>
          cases buffer with
          | numbered number => exact ⟨number, rfl⟩
          | custom constraint => simp [shared] at noCustom

theorem le_foldl_max {α : Type*} (f : α → ℕ) (l : List α) (start : ℕ) :
    start ≤ l.foldl (fun acc a => max acc (f a)) start ∧
      ∀ a ∈ l, f a ≤ l.foldl (fun acc a => max acc (f a)) start := by
  induction l generalizing start with
  | nil => simp
  | cons first l ih =>
      obtain ⟨le, each⟩ := ih (max start (f first))
      refine ⟨(le_max_left _ _).trans le, ?_⟩
      intro a mem
      rcases List.mem_cons.mp mem with rfl | rest
      · exact (le_max_right _ _).trans le
      · exact each a rest

/-- The numbers of the shared buffers come before those of the other buffers. -/
theorem sharedNB_lt_firstOwnBuffer {e : Fin g.nbEdges} {number : ℕ}
    (eq : sharedNB g d e = some number) : number < firstOwnBuffer g d := by
  obtain ⟨color, mem, -⟩ := sharedNB_spec eq
  have le := (le_foldl_max (fun item : Fin g.nbEdges × ℕ =>
    ((sharedNB g d item.1).map Nat.succ).getD 0) d 0).2 (e, color) mem
  simp only [eq, Option.map_some, Option.getD_some] at le
  exact le

end Colors

end CmsisStream.Scheduler
