import CmsisStream.Scheduler.BufferAllocation
import Mathlib.Data.List.Pairwise

/-!
# The storage of a FIFO

A FIFO keeps its samples in a buffer allocated by the scheduler, in a buffer
named by the user, or in memory assigned by one of its nodes.  Two different
FIFOs only have the same storage when both work as arrays and do not interfere
(`storage_shared`), and every FIFO of less than `2 ^ 31` bytes fits in its storage
(`fits`); the bytes of a shared buffer are computed with 32 bits.
-/

namespace CmsisStream.Scheduler

/-- Where the samples of a FIFO are. -/
inductive Storage (g : Graph) where
  /-- A buffer of `allBuffers`. -/
  | allocated (bufferID : ℕ)
  | named (name : Option String)
  /-- `nullptr` is given to the FIFO, and a node assigns its buffer. -/
  | assignedByNode (e : Fin g.nbEdges)
deriving DecidableEq, Repr

namespace FIFODescriptions

variable {g : Graph}

/-- `FIFODesc.bufName`, as a storage. -/
def storage (described : FIFODescriptions g) (e : Fin g.nbEdges) : Storage g :=
  match (described.fifo e).customBuffer with
  | some constraint =>
      if constraint.assignedByNode then .assignedByNode e else .named constraint.name
  | none => .allocated ((described.fifo e).bufferID.getD 0)

/-- The bytes of a storage, given those of the buffers which are not allocated by the
scheduler. -/
def bytesOf (described : FIFODescriptions g) (userBytes : Storage g → ℤ) : Storage g → ℤ
  | .allocated bufferID =>
      match described.allBuffers bufferID with
      | some buffer => buffer.bytes * buffer.length
      | none => 0
  | storage => userBytes storage

end FIFODescriptions

/-- Every custom buffer is named or assigned by a node. -/
def Graph.CustomBuffersGiven (g : Graph) : Prop :=
  ∀ e constraint, (g.edge e).customBuffer = some constraint →
    constraint.name.isSome ∨ constraint.assignedByNode

section Names

variable {g : Graph}

theorem reusedName_eq_none {used names : List String} (unique : reusedName used names = none) :
    names.Nodup ∧ names.Disjoint used := by
  induction names generalizing used with
  | nil => simp
  | cons name names ih =>
      rw [reusedName] at unique
      split_ifs at unique with reused
      obtain ⟨nodup, disjoint⟩ := ih unique
      refine ⟨List.nodup_cons.mpr ⟨?_, nodup⟩, ?_⟩
      · intro mem
        exact disjoint mem List.mem_cons_self
      · intro other mem otherUsed
        rcases List.mem_cons.mp mem with rfl | rest
        · exact reused otherUsed
        · exact disjoint rest (List.mem_cons_of_mem _ otherUsed)

/-- A name belongs to one FIFO when no custom buffer is used more than once. -/
theorem customName_injective (unique : reusedName [] (customNames g) = none)
    {e o : Fin g.nbEdges} {constraint constraint' : BufferConstraint}
    (custom : (g.edge e).customBuffer = some constraint)
    (custom' : (g.edge o).customBuffer = some constraint') {name : String}
    (isName : constraint.name = some name) (isName' : constraint'.name = some name) : e = o := by
  by_contra different
  have nodup := (reusedName_eq_none unique).1
  rw [List.Nodup, customNames, List.pairwise_filterMap] at nodup
  have symmetric : Std.Symm fun k f : Fin g.nbEdges =>
      ∀ b, (g.edge k).customBuffer.bind BufferConstraint.name = some b →
        ∀ b', (g.edge f).customBuffer.bind BufferConstraint.name = some b' → b ≠ b' :=
    ⟨fun _ _ ne b mem b' mem' => (ne b' mem' b mem).symm⟩
  have apart := nodup.forall (List.mem_finRange e) (List.mem_finRange o) different
  exact apart name (by simp [custom, isName]) name (by simp [custom', isName']) rfl

end Names

section Sizes

variable {g : Graph} {d : ColorDict g} {lengths : Fin g.nbEdges → ℤ}

/-- The recorded size of a shared buffer. -/
def Recorded (maxSizes : ℕ → Option ℤ) (number : ℕ) (bytes : ℤ) : Prop :=
  ∃ size, maxSizes number = some size ∧ bytes ≤ size

theorem Recorded.scanSize {maxSizes : ℕ → Option ℤ} {number : ℕ} {bytes : ℤ}
    (recorded : Recorded maxSizes number bytes) (item : Fin g.nbEdges × ℕ) :
    Recorded (scanSize g lengths d maxSizes item) number bytes := by
  obtain ⟨size, eq, le⟩ := recorded
  unfold Scheduler.scanSize
  split
  · exact ⟨size, eq, le⟩
  · rename_i other _
    by_cases same : number = other
    · subst same
      refine ⟨_, Function.update_self _ _ _, ?_⟩
      simp only [eq]
      exact le.trans (le_max_left _ _)
    · exact ⟨size, by rw [Function.update_of_ne same, eq], le⟩

theorem recorded_scanSize_self (maxSizes : ℕ → Option ℤ) {item : Fin g.nbEdges × ℕ}
    {number : ℕ} (eq : sharedNB g d item.1 = some number) :
    Recorded (scanSize g lengths d maxSizes item) number (g.lengthInBytes lengths item.1) := by
  simp only [scanSize, eq]
  refine ⟨_, Function.update_self _ _ _, ?_⟩
  split
  · exact le_max_right _ _
  · exact le_rfl

/-- The size of a shared buffer is recorded for each FIFO using it. -/
theorem maxSizes_recorded (lengths : Fin g.nbEdges → ℤ) {e : Fin g.nbEdges} {number : ℕ}
    (eq : sharedNB g d e = some number) :
    Recorded (maxSizes g lengths d) number (g.lengthInBytes lengths e) := by
  obtain ⟨color, mem, -⟩ := sharedNB_spec eq
  have general : ∀ (l : ColorDict g) (sizes : ℕ → Option ℤ),
      ((e, color) ∈ l ∨ Recorded sizes number (g.lengthInBytes lengths e)) →
        Recorded (l.foldl (scanSize g lengths d) sizes) number (g.lengthInBytes lengths e) := by
    intro l
    induction l with
    | nil =>
        intro sizes already
        simpa using already
    | cons item l ih =>
        intro sizes already
        apply ih
        rcases already with mem | recorded
        · rcases List.mem_cons.mp mem with rfl | rest
          · exact Or.inr (recorded_scanSize_self sizes eq)
          · exact Or.inl rest
        · exact Or.inr (recorded.scanSize item)
  exact general d _ (Or.inl mem)

end Sizes

section Own

variable {g : Graph} {optimized : Fin g.nbEdges → Bool} {lengths : Fin g.nbEdges → ℤ}

/-- A FIFO which gets a buffer of its own. -/
def IsOwn (optimized : Fin g.nbEdges → Bool) (e : Fin g.nbEdges) : Prop :=
  optimized e = false ∧ (g.edge e).customBuffer = none

/-- What holds in each iteration of the loop which allocates the own buffers. -/
structure OwnInvariant (optimized : Fin g.nbEdges → Bool) (lengths : Fin g.nbEdges → ℤ)
    (start : OwnState g) (seen : List (Fin g.nbEdges)) (s : OwnState g) : Prop where
  le : start.bufferID ≤ s.bufferID
  shared : ∀ id < start.bufferID, s.allBuffers id = start.allBuffers id
  own : ∀ e ∈ seen, IsOwn optimized e → ∃ id, s.buffer e = some id ∧ start.bufferID ≤ id ∧
    id < s.bufferID ∧ s.allBuffers id = some ⟨(g.edge e).bytes, lengths e⟩
  injective : ∀ e ∈ seen, ∀ o ∈ seen, IsOwn optimized e → IsOwn optimized o →
    s.buffer e = s.buffer o → e = o
  other : ∀ e, ¬IsOwn optimized e → s.buffer e = start.buffer e

theorem OwnInvariant.allocate {start s : OwnState g} {seen : List (Fin g.nbEdges)}
    (invariant : OwnInvariant optimized lengths start seen s) {e : Fin g.nbEdges}
    (fresh : e ∉ seen) :
    OwnInvariant optimized lengths start (seen ++ [e])
      (allocateOwn g optimized lengths s e) := by
  unfold allocateOwn
  split_ifs with isOwn
  · have notNew : ∀ o ∈ seen, IsOwn optimized o → s.buffer o ≠ some s.bufferID := by
      intro o mem own eq
      obtain ⟨id, eq', -, below, -⟩ := invariant.own o mem own
      rw [eq', Option.some.injEq] at eq
      exact below.ne eq
    have others : ∀ o ∈ seen, o ≠ e := fun o mem same => fresh (same ▸ mem)
    constructor
    · exact invariant.le.trans (Nat.le_succ _)
    · intro id below
      have different : id ≠ s.bufferID := (below.trans_le invariant.le).ne
      simp only [Function.update_of_ne different]
      exact invariant.shared id below
    · intro o mem own
      rcases List.mem_append.mp mem with old | new
      · obtain ⟨id, eq, le, below, buffer⟩ := invariant.own o old own
        refine ⟨id, ?_, le, Nat.lt_succ_of_lt below, ?_⟩
        · simp only [Function.update_of_ne (others o old), eq]
        · simp only [Function.update_of_ne below.ne, buffer]
      · obtain rfl := List.mem_singleton.mp new
        exact ⟨s.bufferID, by simp, invariant.le, Nat.lt_succ_self _, by simp⟩
    · intro k kMem o oMem kOwn oOwn eq
      rcases List.mem_append.mp kMem with kOld | kNew
      · rcases List.mem_append.mp oMem with oOld | oNew
        · simp only [Function.update_of_ne (others k kOld),
            Function.update_of_ne (others o oOld)] at eq
          exact invariant.injective k kOld o oOld kOwn oOwn eq
        · obtain rfl := List.mem_singleton.mp oNew
          simp only [Function.update_of_ne (others k kOld), Function.update_self] at eq
          exact absurd eq (notNew k kOld kOwn)
      · obtain rfl := List.mem_singleton.mp kNew
        rcases List.mem_append.mp oMem with oOld | oNew
        · simp only [Function.update_of_ne (others o oOld), Function.update_self] at eq
          exact absurd eq.symm (notNew o oOld oOwn)
        · exact (List.mem_singleton.mp oNew).symm
    · intro o notOwn
      have different : o ≠ e := fun same => notOwn (same ▸ isOwn)
      simp only [Function.update_of_ne different]
      exact invariant.other o notOwn
  · have same : ∀ o ∈ seen ++ [e], IsOwn optimized o → o ∈ seen := by
      intro o mem own
      rcases List.mem_append.mp mem with old | new
      · exact old
      · obtain rfl := List.mem_singleton.mp new
        exact absurd own isOwn
    exact ⟨invariant.le, invariant.shared, fun o mem own => invariant.own o (same o mem own) own,
      fun k kMem o oMem kOwn oOwn => invariant.injective k (same k kMem kOwn) o
        (same o oMem oOwn) kOwn oOwn, invariant.other⟩

theorem foldl_allocateOwn_invariant (l seen : List (Fin g.nbEdges)) {start s : OwnState g}
    (nodup : (seen ++ l).Nodup) (invariant : OwnInvariant optimized lengths start seen s) :
    OwnInvariant optimized lengths start (seen ++ l)
      (l.foldl (allocateOwn g optimized lengths) s) := by
  induction l generalizing seen s with
  | nil => simpa using invariant
  | cons e l ih =>
      have fresh : e ∉ seen := fun mem =>
        List.disjoint_of_nodup_append nodup mem List.mem_cons_self
      have regroup : seen ++ e :: l = seen ++ [e] ++ l := by simp
      rw [regroup] at nodup ⊢
      exact ih (seen ++ [e]) nodup (invariant.allocate fresh)

theorem allocateOwn_spec (start : OwnState g) :
    OwnInvariant optimized lengths start (List.finRange g.nbEdges)
      ((List.finRange g.nbEdges).foldl (allocateOwn g optimized lengths) start) := by
  have initial : OwnInvariant optimized lengths start [] start :=
    ⟨le_rfl, fun _ _ => rfl, by simp, by simp, fun _ _ => rfl⟩
  exact foldl_allocateOwn_invariant _ [] (List.nodup_finRange _) initial

end Own

section Described

variable {g : Graph} {config : Configuration} {live : Fin g.nbEdges → Interval}
  {lengths : Fin g.nbEdges → ℤ} {maxTime : ℕ} {coloring : Coloring g}
  {described : FIFODescriptions g}

/-- What a successful `initializeFIFODescriptions` has checked, and its result. -/
theorem initializeFIFODescriptions_ok
    (ok : initializeFIFODescriptions g coloring config live lengths maxTime = .ok described) :
    reusedName [] (customNames g) = none ∧ (∀ e, g.ambiguousFIFO e = false) ∧
      (∀ e constraint, (g.edge e).customBuffer = some constraint → constraint.mustBeArray →
        g.isArray (lengths e) e = true) ∧
      described = describe g config lengths (colors g coloring config live lengths maxTime) := by
  unfold initializeFIFODescriptions at ok
  split at ok
  · simp at ok
  · rename_i unique
    split_ifs at ok with ambiguous
    split at ok
    · simp at ok
    · rename_i arrays
      refine ⟨unique, ?_, ?_, (Except.ok.inj ok).symm⟩
      · intro e
        simp only [List.any_eq_true, not_exists, not_and, Bool.not_eq_true] at ambiguous
        exact ambiguous e (List.mem_finRange e)
      · intro e constraint custom mustBeArray
        have checked := List.find?_eq_none.mp arrays e (List.mem_finRange e)
        simpa [custom, mustBeArray] using checked

/-- The coloring function gives a proper colouring of every graph without loop. -/
def ProperColoring (coloring : Coloring g) : Prop :=
  ∀ nodes edges, nodes.Nodup → edges.Irreflexive → (coloring nodes edges).Proper nodes edges

theorem coloring_arrays (proper : ProperColoring coloring) :
    let array e := g.isArray (lengths e) e
    let nodes := (List.finRange g.nbEdges).filter fun e => array e
    let edges := interferenceGraph g config array live lengths maxTime
    (coloring nodes edges).Proper nodes edges :=
  proper _ _ ((List.nodup_finRange _).filter _) interferenceGraph_irreflexive

/-- With memory optimization the FIFOs working as arrays have a colour. -/
theorem colors_mem (proper : ProperColoring coloring) {e : Fin g.nbEdges} :
    e ∈ (colors g coloring config live lengths maxTime).map Prod.fst ↔
      config.memoryOptimization ∧ g.isArray (lengths e) e = true := by
  unfold colors
  split_ifs with optimization
  · rw [(coloring_arrays proper).nodes.mem_iff]
    simp [optimization]
  · simp [optimization]

/-- FIFOs of one colour do not interfere. -/
theorem colors_proper (proper : ProperColoring coloring) {e o : Fin g.nbEdges} {color : ℕ}
    (mem : (e, color) ∈ colors g coloring config live lengths maxTime)
    (mem' : (o, color) ∈ colors g coloring config live lengths maxTime) :
    ¬(interferenceGraph g config (fun e => g.isArray (lengths e) e) live lengths
      maxTime).Adjacent e o := by
  intro adjacent
  unfold colors at mem mem'
  split_ifs at mem mem'
  · exact (coloring_arrays proper).proper e color o color mem mem' adjacent rfl
  · simp at mem

/-- A FIFO which is coloured together with the owner of a custom buffer can share it. -/
theorem noConflict_of_color (proper : ProperColoring coloring) {owner e : Fin g.nbEdges}
    {color : ℕ} {constraint : BufferConstraint}
    (mem : (owner, color) ∈ colors g coloring config live lengths maxTime)
    (mem' : (e, color) ∈ colors g coloring config live lengths maxTime)
    (custom : (g.edge owner).customBuffer = some constraint) (ne : e ≠ owner) :
    g.customConflict lengths constraint owner e = false := by
  have ownerArray := ((colors_mem proper).mp (List.mem_map_of_mem mem)).2
  have otherArray := ((colors_mem proper).mp (List.mem_map_of_mem mem')).2
  by_contra conflict
  exact colors_proper proper mem mem' (interferenceGraph_custom custom ne ownerArray otherArray
    (Bool.not_eq_false _ ▸ conflict))

/-- The FIFO uses a buffer shared by colouring. -/
def optimizedFIFO (g : Graph) (config : Configuration) (lengths : Fin g.nbEdges → ℤ)
    (e : Fin g.nbEdges) : Bool :=
  g.isArray (lengths e) e && config.memoryOptimization

/-- The numbers of the buffers after the last loop, for the given colours. -/
theorem describe_invariant (config : Configuration) (lengths : Fin g.nbEdges → ℤ)
    (d : ColorDict g) :
    ∃ bufferID, OwnInvariant (optimizedFIFO g config lengths) lengths
      ⟨firstOwnBuffer g d, fun id => (maxSizes g lengths d id).map fun size => ⟨1, size⟩,
        sharedNB g d⟩ (List.finRange g.nbEdges)
      ⟨bufferID, (describe g config lengths d).allBuffers,
        fun e => ((describe g config lengths d).fifo e).bufferID⟩ :=
  ⟨_, allocateOwn_spec _⟩

end Described

section Shared

variable {g : Graph} {config : Configuration} {live : Fin g.nbEdges → Interval}
  {lengths : Fin g.nbEdges → ℤ} {maxTime : ℕ} {coloring : Coloring g}

/-- A FIFO whose custom buffer is not assigned by a node has the custom buffer of a named
owner: itself, or a FIFO of its colour. -/
theorem exists_owner (given : g.CustomBuffersGiven) {d : ColorDict g} {e : Fin g.nbEdges}
    {constraint : BufferConstraint} (custom : sharedCustomBuffer g d e = some constraint)
    (notAssigned : constraint.assignedByNode = false) :
    ∃ owner name, (g.edge owner).customBuffer = some constraint ∧ constraint.name = some name ∧
      (owner = e ∨ ∃ color, (e, color) ∈ d ∧ (owner, color) ∈ d) := by
  have named : ∀ owner, (g.edge owner).customBuffer = some constraint →
      ∃ name, constraint.name = some name := by
    intro owner own
    rcases given owner constraint own with isName | assigned
    · exact Option.isSome_iff_exists.mp isName
    · simp [notAssigned] at assigned
  rcases sharedCustomBuffer_spec custom with own | ⟨-, owner, color, mem, mem', own⟩
  · obtain ⟨name, isName⟩ := named e own
    exact ⟨e, name, own, isName, Or.inl rfl⟩
  · obtain ⟨name, isName⟩ := named owner own
    exact ⟨owner, name, own, isName, Or.inr ⟨color, mem, mem'⟩⟩

/-- Where the buffer of a FIFO without custom buffer comes from. -/
theorem bufferID_cases {d : ColorDict g}
    (colored : ∀ e, optimizedFIFO g config lengths e = true → e ∈ d.map Prod.fst)
    {e : Fin g.nbEdges} (noCustom : sharedCustomBuffer g d e = none) :
    (g.isArray (lengths e) e = true ∧ ∃ number, sharedNB g d e = some number ∧
        ((describe g config lengths d).fifo e).bufferID = some number) ∨
      (IsOwn (optimizedFIFO g config lengths) e ∧ ∃ id,
        ((describe g config lengths d).fifo e).bufferID = some id ∧
        firstOwnBuffer g d ≤ id ∧
        (describe g config lengths d).allBuffers id = some ⟨(g.edge e).bytes, lengths e⟩) := by
  obtain ⟨_, invariant⟩ := describe_invariant config lengths d
  cases isOptimized : optimizedFIFO g config lengths e with
  | true =>
      left
      obtain ⟨number, eq⟩ := exists_sharedNB (colored e isOptimized) noCustom
      have notOwn : ¬IsOwn (optimizedFIFO g config lengths) e := by simp [IsOwn, isOptimized]
      exact ⟨(Bool.and_eq_true_iff.mp isOptimized).1, number, eq,
        (invariant.other e notOwn).trans eq⟩
  | false =>
      right
      have own : (g.edge e).customBuffer = none := by
        unfold sharedCustomBuffer at noCustom
        split at noCustom
        · simp at noCustom
        · assumption
      obtain ⟨id, eq, le, -, buffer⟩ :=
        invariant.own e (List.mem_finRange e) ⟨isOptimized, own⟩
      exact ⟨⟨isOptimized, own⟩, id, eq, le, buffer⟩

theorem color_unique {d : ColorDict g} (nodup : (d.map Prod.fst).Nodup) {e : Fin g.nbEdges}
    {color color' : ℕ} (mem : (e, color) ∈ d) (mem' : (e, color') ∈ d) : color = color' :=
  congrArg Prod.snd (List.inj_on_of_nodup_map nodup mem mem' rfl)

/-- Different FIFOs with the same storage have the same colour. -/
theorem color_of_storage_eq (given : g.CustomBuffersGiven)
    (unique : reusedName [] (customNames g) = none) {d : ColorDict g}
    (nodup : (d.map Prod.fst).Nodup)
    (colored : ∀ e, optimizedFIFO g config lengths e = true → e ∈ d.map Prod.fst)
    {e o : Fin g.nbEdges} (ne : e ≠ o)
    (same : (describe g config lengths d).storage e = (describe g config lengths d).storage o) :
    ∃ color, (e, color) ∈ d ∧ (o, color) ∈ d := by
  have customEq : ∀ k, ((describe g config lengths d).fifo k).customBuffer =
      sharedCustomBuffer g d k := fun _ => rfl
  unfold FIFODescriptions.storage at same
  rw [customEq, customEq] at same
  cases eCustom : sharedCustomBuffer g d e with
  | some constraint =>
      cases oCustom : sharedCustomBuffer g d o with
      | none =>
          simp only [eCustom, oCustom] at same
          split_ifs at same
      | some constraint' =>
          simp only [eCustom, oCustom] at same
          split_ifs at same with eAssigned oAssigned oAssigned
          · exact absurd (Storage.assignedByNode.inj same) ne
          · obtain ⟨owner, name, own, isName, eOwner⟩ :=
              exists_owner given eCustom (Bool.not_eq_true _ ▸ eAssigned)
            obtain ⟨owner', name', own', isName', oOwner⟩ :=
              exists_owner given oCustom (Bool.not_eq_true _ ▸ oAssigned)
            have sameName : name = name' := by
              rw [Storage.named.injEq, isName, isName'] at same
              exact Option.some.inj same
            subst sameName
            obtain rfl := customName_injective unique own own' isName isName'
            rcases eOwner with rfl | ⟨color, mem, ownerMem⟩
            · rcases oOwner with rfl | ⟨color, mem, ownerMem⟩
              · exact absurd rfl ne
              · exact ⟨color, ownerMem, mem⟩
            · rcases oOwner with rfl | ⟨color', mem', ownerMem'⟩
              · exact ⟨color, mem, ownerMem⟩
              · obtain rfl := color_unique nodup ownerMem ownerMem'
                exact ⟨color, mem, mem'⟩
  | none =>
      cases oCustom : sharedCustomBuffer g d o with
      | some constraint' =>
          simp only [eCustom, oCustom] at same
          split_ifs at same
      | none =>
          simp only [eCustom, oCustom, Storage.allocated.injEq] at same
          rcases bufferID_cases colored eCustom with
            ⟨-, number, eShared, eBuffer⟩ | ⟨eOwn, id, eBuffer, eLe, -⟩
          · rcases bufferID_cases colored oCustom with
              ⟨-, number', oShared, oBuffer⟩ | ⟨-, id, oBuffer, oLe, -⟩
            · rw [eBuffer, oBuffer, Option.getD_some, Option.getD_some] at same
              subst same
              exact sharedNB_color eShared oShared
            · have less := sharedNB_lt_firstOwnBuffer eShared
              rw [eBuffer, oBuffer, Option.getD_some, Option.getD_some] at same
              omega
          · rcases bufferID_cases colored oCustom with
              ⟨-, number', oShared, oBuffer⟩ | ⟨oOwn, id', oBuffer, -, -⟩
            · have less := sharedNB_lt_firstOwnBuffer oShared
              rw [eBuffer, oBuffer, Option.getD_some, Option.getD_some] at same
              omega
            · rw [eBuffer, oBuffer, Option.getD_some, Option.getD_some] at same
              obtain ⟨_, invariant⟩ := describe_invariant config lengths d
              have sameBuffer := eBuffer.trans ((congrArg some same).trans oBuffer.symm)
              exact absurd (invariant.injective e (List.mem_finRange e) o (List.mem_finRange o)
                eOwn oOwn sameBuffer) ne

theorem coloredArrays (proper : ProperColoring coloring) (e : Fin g.nbEdges)
    (isOptimized : optimizedFIFO g config lengths e = true) :
    e ∈ (colors g coloring config live lengths maxTime).map Prod.fst := by
  rw [colors_mem proper]
  simpa [optimizedFIFO, and_comm] using isOptimized

/-- FIFOs which share their storage work as arrays and do not interfere. -/
theorem storage_shared (given : g.CustomBuffersGiven) (proper : ProperColoring coloring)
    {described : FIFODescriptions g}
    (ok : initializeFIFODescriptions g coloring config live lengths maxTime = .ok described)
    {e o : Fin g.nbEdges} (ne : e ≠ o) (same : described.storage e = described.storage o) :
    g.isArray (lengths e) e = true ∧ g.isArray (lengths o) o = true ∧
      ¬(interferenceGraph g config (fun e => g.isArray (lengths e) e) live lengths
        maxTime).Adjacent e o := by
  obtain ⟨unique, -, -, rfl⟩ := initializeFIFODescriptions_ok ok
  have nodup : ((colors g coloring config live lengths maxTime).map Prod.fst).Nodup := by
    unfold colors
    split_ifs
    · exact (coloring_arrays proper).nodes.nodup_iff.mpr ((List.nodup_finRange _).filter _)
    · exact List.nodup_nil
  obtain ⟨color, mem, mem'⟩ :=
    color_of_storage_eq given unique nodup (coloredArrays proper) ne same
  exact ⟨((colors_mem proper).mp (List.mem_map_of_mem mem)).2,
    ((colors_mem proper).mp (List.mem_map_of_mem mem')).2, colors_proper proper mem mem'⟩

/-- The buffer allocated by the scheduler for a FIFO without custom buffer is shared, and has at
least the computed bytes of the FIFO, or it has the length of the FIFO. -/
theorem bytesOf_allocated {d : ColorDict g} {userBytes : Storage g → ℤ}
    (colored : ∀ e, optimizedFIFO g config lengths e = true → e ∈ d.map Prod.fst)
    {e : Fin g.nbEdges} (noCustom : sharedCustomBuffer g d e = none) :
    (g.isArray (lengths e) e = true ∧ g.lengthInBytes lengths e ≤
        (describe g config lengths d).bytesOf userBytes
          ((describe g config lengths d).storage e)) ∨
      (describe g config lengths d).bytesOf userBytes ((describe g config lengths d).storage e) =
        g.bytesNeeded lengths e := by
  obtain ⟨_, invariant⟩ := describe_invariant config lengths d
  have isAllocated : (describe g config lengths d).storage e =
      .allocated ((((describe g config lengths d).fifo e).bufferID).getD 0) := by
    unfold FIFODescriptions.storage
    rw [show ((describe g config lengths d).fifo e).customBuffer = none from noCustom]
  rw [isAllocated]
  rcases bufferID_cases colored noCustom with
    ⟨isArray, number, shared, buffer⟩ | ⟨-, id, buffer, -, own⟩
  · left
    obtain ⟨size, recorded, le⟩ := maxSizes_recorded lengths shared
    have isShared := invariant.shared number (sharedNB_lt_firstOwnBuffer shared)
    simp only [recorded, Option.map_some] at isShared
    refine ⟨isArray, ?_⟩
    rw [buffer, Option.getD_some, FIFODescriptions.bytesOf, isShared]
    simpa using le
  · right
    rw [buffer, Option.getD_some, FIFODescriptions.bytesOf, own]
    rfl

/-- A FIFO without custom buffer fits in the buffer allocated by the scheduler. -/
theorem fits_allocated {d : ColorDict g} {userBytes : Storage g → ℤ}
    (colored : ∀ e, optimizedFIFO g config lengths e = true → e ∈ d.map Prod.fst)
    {e : Fin g.nbEdges} (noCustom : sharedCustomBuffer g d e = none)
    (nonneg : 0 ≤ g.bytesNeeded lengths e) (small : g.bytesNeeded lengths e < 2 ^ 31) :
    g.bytesNeeded lengths e ≤
      (describe g config lengths d).bytesOf userBytes
        ((describe g config lengths d).storage e) := by
  rcases bytesOf_allocated colored noCustom with ⟨-, le⟩ | eq
  · rwa [Graph.lengthInBytes, wrapInt32_of_fits nonneg small] at le
  · exact eq.ge

theorem nonneg_of_isArray {length : ℤ} {e : Fin g.nbEdges}
    (isArray : g.isArray length e = true) : 0 ≤ length := by
  simp only [Graph.isArray, Bool.and_eq_true] at isArray
  have isLength := isArray.1.2
  cases nbSamples : (g.edge e).src.nbSamples with
  | int n =>
      simp only [nbSamples, NbSamples.eqLength, decide_eq_true_eq] at isLength
      omega
  | list l =>
      simp only [nbSamples, NbSamples.eqLength, decide_eq_true_eq] at isLength
      obtain ⟨n, -, eq⟩ := List.mem_map.mp (isLength ▸ List.mem_singleton.mpr rfl)
      omega

/-- A custom buffer is only shared with FIFOs which need as many bytes as its owner. -/
theorem fits_custom (proper : ProperColoring coloring) {userBytes : Storage g → ℤ}
    {d : ColorDict g} (isColors : d = colors g coloring config live lengths maxTime)
    (enough : ∀ e, (g.edge e).customBuffer.isSome →
      g.bytesNeeded lengths e ≤ userBytes ((describe g config lengths d).storage e))
    {e : Fin g.nbEdges} {constraint : BufferConstraint}
    (custom : sharedCustomBuffer g d e = some constraint)
    (nonneg : 0 ≤ g.bytesNeeded lengths e) (small : g.bytesNeeded lengths e < 2 ^ 31) :
    g.bytesNeeded lengths e ≤ userBytes ((describe g config lengths d).storage e) := by
  rcases sharedCustomBuffer_spec custom with own | ⟨noCustom, owner, color, mem, mem', own⟩
  · exact enough e (by rw [own]; rfl)
  · have different : e ≠ owner := by
      rintro rfl
      simp [noCustom] at own
    subst isColors
    have noConflict := noConflict_of_color proper mem' mem own different
    simp only [Graph.customConflict, Bool.or_eq_false_iff, ne_eq, decide_not,
      Bool.not_eq_false', decide_eq_true_eq] at noConflict
    have ownerCustom : sharedCustomBuffer g
        (colors g coloring config live lengths maxTime) owner = some constraint := by
      simp [sharedCustomBuffer, own]
    have sameStorage : ∀ k, sharedCustomBuffer g
        (colors g coloring config live lengths maxTime) k = some constraint →
        (describe g config lengths (colors g coloring config live lengths maxTime)).storage k =
          .named constraint.name := by
      intro k eq
      unfold FIFODescriptions.storage
      simp [describe, eq, noConflict.1.1.1]
    have ownerFits := enough owner (by rw [own]; rfl)
    rw [sameStorage owner ownerCustom] at ownerFits
    rw [sameStorage e custom]
    -- the bytes of the owner may be wrapped, but they are not less than the wrapped bytes
    have ownerArray := ((colors_mem proper).mp (List.mem_map_of_mem mem')).2
    have ownerNonneg : 0 ≤ g.bytesNeeded lengths owner :=
      mul_nonneg (Int.natCast_nonneg _) (nonneg_of_isArray ownerArray)
    calc g.bytesNeeded lengths e = g.lengthInBytes lengths e :=
          (wrapInt32_of_fits nonneg small).symm
      _ = g.lengthInBytes lengths owner := noConflict.1.2.symm
      _ ≤ g.bytesNeeded lengths owner := wrapInt32_le ownerNonneg
      _ ≤ _ := ownerFits

/-- Every FIFO of less than `2 ^ 31` bytes fits in its storage, when the buffers given by the
user are large enough for the FIFOs they are given to. -/
theorem fits (proper : ProperColoring coloring) {described : FIFODescriptions g}
    (ok : initializeFIFODescriptions g coloring config live lengths maxTime = .ok described)
    {userBytes : Storage g → ℤ}
    (enough : ∀ e, (g.edge e).customBuffer.isSome →
      g.bytesNeeded lengths e ≤ userBytes (described.storage e)) {e : Fin g.nbEdges}
    (nonneg : 0 ≤ g.bytesNeeded lengths e) (small : g.bytesNeeded lengths e < 2 ^ 31) :
    g.bytesNeeded lengths e ≤ described.bytesOf userBytes (described.storage e) := by
  obtain ⟨-, -, -, isDescribed⟩ := initializeFIFODescriptions_ok ok
  cases custom : sharedCustomBuffer g (colors g coloring config live lengths maxTime) e with
  | none =>
      rw [isDescribed]
      exact fits_allocated (coloredArrays proper) custom nonneg small
  | some constraint =>
      have notAllocated : described.bytesOf userBytes (described.storage e) =
          userBytes (described.storage e) := by
        rw [isDescribed]
        unfold FIFODescriptions.storage
        simp only [describe, custom]
        split_ifs <;> rfl
      rw [notAllocated]
      subst isDescribed
      exact fits_custom proper rfl enough custom nonneg small

end Shared

end CmsisStream.Scheduler
