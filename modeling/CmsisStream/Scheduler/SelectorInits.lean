import Mathlib.Data.List.Induction
import Mathlib.Data.List.Nodup

/-!
# Initializations of the selectors of several graphs

The selectors of a class of nodes are a static array of this class, which the generated code of one
graph only may initialize.  `_compute_selector_inits` leaves out the classes which are in the JSON
files of other graphs.  It depends on these files whether every class is initialized once.
-/

namespace CmsisStream.Scheduler

/-- What the array of a class is initialized with -/
structure SelectorInit where
  isTemplate : Bool
  selectors : List String
deriving DecidableEq

/-- The dictionary of the classes in insertion order, which is also the content of a JSON file -/
abbrev SelectorInits := List (String × SelectorInit)

/-- A node, with what the initializations read of it -/
structure ClassNode where
  hasState : Bool
  typeName : String
  ioTemplate : String
  selectors : List String

/-- `_selector_define_name`, for the letters of an identifier of C -/
def selectorDefineName (sel : String) : String := "SEL_" ++ sel.toUpper ++ "_ID"

namespace ClassNode

/-- The key of a node in the dictionary -/
def theClass (node : ClassNode) : String := node.typeName ++ node.ioTemplate

def selectorInit (node : ClassNode) : SelectorInit where
  isTemplate := node.ioTemplate ≠ ""
  selectors := node.selectors.map selectorDefineName

/-- Whether the node has the array of a class -/
def needs (c : String) (node : ClassNode) : Bool := node.hasState && node.theClass = c

end ClassNode

/-- The `ValueError` of a class which has two initializations -/
structure SelectorConflict where
  key : String
  old : SelectorInit
  new : SelectorInit

/-- Read one class of a JSON file. -/
def readInit (olds : SelectorInits) (item : String × SelectorInit) :
    Except SelectorConflict SelectorInits :=
  match olds.lookup item.1 with
  | some old => if old ≠ item.2 then .error ⟨item.1, old, item.2⟩ else .ok olds
  | none => .ok (olds ++ [item])

/-- The body of the loop `for node in nodes` -/
def initNode (olds sels : SelectorInits) (node : ClassNode) : SelectorInits :=
  if node.hasState ∧ (olds.lookup node.theClass).isNone ∧ (sels.lookup node.theClass).isNone then
    sels ++ [(node.theClass, node.selectorInit)]
  else sels

/-- `_compute_selector_inits` -/
def computeSelectorInits (nodes : List ClassNode) (jsonFiles : List SelectorInits) :
    Except SelectorConflict SelectorInits := do
  let olds ← jsonFiles.foldlM (fun olds data => data.foldlM readInit olds) []
  return nodes.foldl (initNode olds) []

/-- The JSON files of a sequence of graphs, when each graph is given some of those before -/
def generatedInits (given : List SelectorInits → List SelectorInits)
    (graphs : List (List ClassNode)) : Except SelectorConflict (List SelectorInits) :=
  graphs.foldlM (fun files nodes => do return files ++ [← computeSelectorInits nodes (given files)])
    []

/-! ## One graph -/

/-- The classes which are initialized -/
def classes (inits : SelectorInits) : List String := inits.map Prod.fst

variable {olds sels : SelectorInits} {items : SelectorInits} {nodes : List ClassNode} {c : String}

theorem lookup_eq_none_iff_notMem : sels.lookup c = none ↔ c ∉ classes sels := by
  rw [List.lookup_eq_none_iff, classes, List.mem_map]
  constructor
  · rintro none_ ⟨item, mem, rfl⟩
    simpa using none_ item mem
  · intro notMem item mem
    simpa using fun same : c = item.1 => notMem ⟨item, mem, same.symm⟩

/-- Files without a common class are read without a conflict. -/
theorem foldlM_readInit (nodup : (classes (olds ++ items)).Nodup) :
    items.foldlM readInit olds = .ok (olds ++ items) := by
  induction items generalizing olds with
  | nil => simp [pure, Except.pure]
  | cons item items ih =>
      have new : olds.lookup item.1 = none := by
        rw [lookup_eq_none_iff_notMem]
        intro mem
        rw [classes, List.map_append, List.nodup_append] at nodup
        exact nodup.2.2 item.1 mem item.1 (by simp) rfl
      have step : readInit olds item = .ok (olds ++ [item]) := by
        rw [readInit, new]
      have rest : (classes (olds ++ [item] ++ items)).Nodup := by simpa using nodup
      rw [List.foldlM_cons, step]
      exact (ih rest).trans (by simp)

theorem foldlM_files {files : List SelectorInits}
    (nodup : (classes (olds ++ files.flatten)).Nodup) :
    files.foldlM (fun olds data => data.foldlM readInit olds) olds =
      .ok (olds ++ files.flatten) := by
  induction files generalizing olds with
  | nil => simp [pure, Except.pure]
  | cons data files ih =>
      rw [List.flatten_cons, ← List.append_assoc] at nodup
      have first : (classes (olds ++ data)).Nodup := by
        rw [classes, List.map_append] at nodup
        exact (List.nodup_append.mp nodup).1
      rw [List.foldlM_cons, foldlM_readInit first, List.flatten_cons, ← List.append_assoc]
      exact ih nodup

theorem computeSelectorInits_of_nodup {files : List SelectorInits}
    (nodup : (classes files.flatten).Nodup) :
    computeSelectorInits nodes files = .ok (nodes.foldl (initNode files.flatten) []) := by
  rw [computeSelectorInits, foldlM_files (by simpa using nodup)]
  rfl

theorem nodup_initNode (nodup : (classes (olds ++ sels)).Nodup) (node : ClassNode) :
    (classes (olds ++ initNode olds sels node)).Nodup := by
  rw [initNode]
  split
  · rename_i new
    rw [Option.isNone_iff_eq_none, Option.isNone_iff_eq_none, lookup_eq_none_iff_notMem,
      lookup_eq_none_iff_notMem] at new
    rw [← List.append_assoc, classes, List.map_append, List.nodup_append]
    refine ⟨nodup, by simp, ?_⟩
    rintro a mem b isNew rfl
    simp only [List.map_cons, List.map_nil, List.mem_singleton] at isNew
    subst isNew
    rw [List.map_append, List.mem_append] at mem
    exact mem.elim new.2.1 new.2.2
  · exact nodup

theorem nodup_initNodes (nodup : (classes (olds ++ sels)).Nodup) (nodes : List ClassNode) :
    (classes (olds ++ nodes.foldl (initNode olds) sels)).Nodup := by
  induction nodes generalizing sels with
  | nil => exact nodup
  | cons node nodes ih => exact ih (nodup_initNode nodup node)

/-- A graph does not initialize the classes of the files which it is given. -/
theorem nodup_ofGraph (nodup : (classes olds).Nodup) (nodes : List ClassNode) :
    (classes (olds ++ nodes.foldl (initNode olds) [])).Nodup := by
  apply nodup_initNodes
  simpa using nodup

theorem lookup_initNode (olds sels : SelectorInits) (node : ClassNode) (c : String) :
    (olds ++ initNode olds sels node).lookup c =
      ((olds ++ sels).lookup c).or (if node.needs c then some node.selectorInit else none) := by
  rw [initNode, ClassNode.needs]
  split
  · rename_i new
    rw [← List.append_assoc, List.lookup_append]
    by_cases same : node.theClass = c
    · subst same
      simp [new.1]
    · have differ : (c == node.theClass) = false := beq_eq_false_iff_ne.mpr (Ne.symm same)
      simp [List.lookup_cons, same, differ]
  · rename_i old
    cases hasState : node.hasState with
    | false => simp
    | true =>
        by_cases same : node.theClass = c
        · subst same
          simp only [hasState, true_and, not_and_or, Option.isNone_iff_eq_none] at old
          rw [List.lookup_append]
          rcases old with old | old <;> rcases Option.ne_none_iff_exists'.mp old with ⟨init, found⟩
          · simp [found]
          · cases olds.lookup node.theClass <;> simp [found]
        · simp [same]

/-- A class is initialized by the first of its nodes, unless it is initialized elsewhere. -/
theorem lookup_initNodes (olds sels : SelectorInits) (nodes : List ClassNode) (c : String) :
    (olds ++ nodes.foldl (initNode olds) sels).lookup c =
      ((olds ++ sels).lookup c).or ((nodes.find? (·.needs c)).map ClassNode.selectorInit) := by
  induction nodes generalizing sels with
  | nil => simp
  | cons node nodes ih =>
      rw [List.foldl_cons, ih, lookup_initNode, Option.or_assoc, List.find?_cons]
      cases node.needs c <;> simp

/-! ## Several graphs -/

theorem generatedInits_concat {given : List SelectorInits → List SelectorInits}
    {graphs : List (List ClassNode)} {files : List SelectorInits} {inits : SelectorInits}
    (generated : generatedInits given graphs = .ok files)
    (computed : computeSelectorInits nodes (given files) = .ok inits) :
    generatedInits given (graphs ++ [nodes]) = .ok (files ++ [inits]) := by
  rw [generatedInits] at generated ⊢
  rw [List.foldlM_append, generated]
  simp [bind, Except.bind, computed, pure, Except.pure]

/-- When each graph is given the files of all the graphs before, nothing is in conflict and every
class is initialized once, by the first of its nodes in the first graph which has it. -/
theorem selectors_initialized_once (graphs : List (List ClassNode)) :
    ∃ files, generatedInits id graphs = .ok files ∧ files.length = graphs.length ∧
      (classes files.flatten).Nodup ∧
      ∀ k c, (files.take k).flatten.lookup c =
        ((graphs.take k).flatten.find? (·.needs c)).map ClassNode.selectorInit := by
  induction graphs using List.reverseRecOn with
  | nil => exact ⟨[], rfl, rfl, List.nodup_nil, by simp⟩
  | append_singleton graphs nodes ih =>
      rcases ih with ⟨files, generated, length, nodup, initialized⟩
      refine ⟨_, generatedInits_concat generated (computeSelectorInits_of_nodup nodup), ?_, ?_, ?_⟩
      · simp [length]
      · simpa using nodup_ofGraph nodup nodes
      · intro k c
        by_cases before : k ≤ graphs.length
        · rw [List.take_append_of_le_length (length ▸ before),
            List.take_append_of_le_length before]
          exact initialized k c
        · have all := initialized graphs.length c
          rw [List.take_length, ← length, List.take_length] at all
          rw [List.take_of_length_le (by simp; omega), List.take_of_length_le (by simp; omega)]
          simp only [List.flatten_append, List.flatten_singleton, List.find?_append, id_eq]
          rw [lookup_initNodes, List.append_nil, all, Option.map_or]

/-! ## The file of the graph before only -/

def lastFile (files : List SelectorInits) : List SelectorInits := files.getLast?.toList

/-- A graph has a class. -/
def Used (graphs : List (List ClassNode)) (i : ℕ) (c : String) : Prop :=
  ∃ nodes ∈ graphs[i]?, ∃ node ∈ nodes, node.needs c

/-- A graph initializes a class. -/
def Initialized (files : List SelectorInits) (i : ℕ) (c : String) : Prop :=
  ∃ inits ∈ files[i]?, c ∈ classes inits

theorem exists_getElem?_concat {α : Type} (l : List α) (a : α) (i : ℕ) (p : α → Prop) :
    (∃ x ∈ (l ++ [a])[i]?, p x) ↔ (∃ x ∈ l[i]?, p x) ∨ i = l.length ∧ p a := by
  rw [List.getElem?_append]
  split
  · rename_i lt
    simp [Nat.ne_of_lt lt]
  · rename_i le
    rw [List.getElem?_eq_none (Nat.not_lt.mp le)]
    by_cases same : i = l.length
    · simp [same]
    · rw [List.getElem?_eq_none (by simp; omega)]
      simp [same]

theorem initialized_concat {files : List SelectorInits} {inits : SelectorInits} {i : ℕ} :
    Initialized (files ++ [inits]) i c ↔
      Initialized files i c ∨ i = files.length ∧ c ∈ classes inits :=
  exists_getElem?_concat ..

theorem used_concat {graphs : List (List ClassNode)} {i : ℕ} :
    Used (graphs ++ [nodes]) i c ↔
      Used graphs i c ∨ i = graphs.length ∧ ∃ node ∈ nodes, node.needs c :=
  exists_getElem?_concat ..

theorem Initialized.lt_length {files : List SelectorInits} {i : ℕ}
    (initialized : Initialized files i c) : i < files.length := by
  rcases initialized with ⟨inits, mem, -⟩
  exact (List.getElem?_eq_some_iff.mp mem).1

theorem Used.lt_length {graphs : List (List ClassNode)} {i : ℕ} (used : Used graphs i c) :
    i < graphs.length := by
  rcases used with ⟨nodes, mem, -⟩
  exact (List.getElem?_eq_some_iff.mp mem).1

theorem mem_initNodes (nodup : (classes olds).Nodup) :
    c ∈ classes (nodes.foldl (initNode olds) []) ↔
      (∃ node ∈ nodes, node.needs c) ∧ c ∉ classes olds := by
  have both := nodup_ofGraph nodup nodes
  by_cases old : c ∈ classes olds
  · rw [classes, List.map_append, List.nodup_append] at both
    have notNew : c ∉ classes (nodes.foldl (initNode olds) []) := fun new =>
      both.2.2 c old c new rfl
    simp [old, notNew]
  · have found := lookup_initNodes olds [] nodes c
    rw [List.append_nil, List.lookup_append, lookup_eq_none_iff_notMem.mpr old, Option.none_or,
      Option.none_or] at found
    rw [← not_iff_not, ← lookup_eq_none_iff_notMem, found, Option.map_eq_none_iff,
      List.find?_eq_none]
    simp [old]

theorem mem_lastFile {files : List SelectorInits} :
    c ∈ classes (lastFile files).flatten ↔
      ∃ j, files.length = j + 1 ∧ Initialized files j c := by
  cases files using List.reverseRecOn with
  | nil => simp [lastFile, classes]
  | append_singleton files inits =>
      simp [lastFile, Initialized]

/-- A graph initializes the classes which it has, except those of the file before. -/
theorem generatedInits_lastFile (graphs : List (List ClassNode)) :
    ∃ files, generatedInits lastFile graphs = .ok files ∧ files.length = graphs.length ∧
      (∀ inits ∈ files, (classes inits).Nodup) ∧
      ∀ i c, Initialized files i c ↔
        Used graphs i c ∧ ∀ j, i = j + 1 → ¬ Initialized files j c := by
  induction graphs using List.reverseRecOn with
  | nil => exact ⟨[], rfl, rfl, by simp, by simp [Initialized, Used]⟩
  | append_singleton graphs nodes ih =>
      rcases ih with ⟨files, generated, length, nodup, initialized⟩
      have last : (classes (lastFile files).flatten).Nodup := by
        rw [lastFile]
        cases isLast : files.getLast? with
        | none => simp [classes]
        | some inits => simpa using nodup inits (List.mem_of_getLast? isLast)
      refine ⟨_, generatedInits_concat generated (computeSelectorInits_of_nodup last), ?_, ?_, ?_⟩
      · simp [length]
      · intro inits mem
        rcases List.mem_append.mp mem with mem | mem
        · exact nodup inits mem
        · have both := nodup_ofGraph last nodes
          rw [classes, List.map_append, List.nodup_append] at both
          rw [List.mem_singleton.mp mem]
          exact both.2.1
      · intro i c
        simp only [initialized_concat, used_concat, ← length]
        by_cases same : i = files.length
        · subst same
          rw [mem_initNodes last, mem_lastFile]
          constructor
          · rintro (isInitialized | ⟨-, has, notLast⟩)
            · exact absurd isInitialized.lt_length (Nat.lt_irrefl _)
            · refine ⟨.inr ⟨rfl, has⟩, fun j eq => ?_⟩
              rintro (before | ⟨same, -⟩)
              · exact notLast ⟨j, eq, before⟩
              · omega
          · rintro ⟨used | ⟨-, has⟩, notBefore⟩
            · exact absurd used.lt_length (by omega)
            · exact .inr ⟨rfl, has, fun ⟨j, eq, before⟩ => notBefore j eq (.inl before)⟩
        · constructor
          · rintro (isInitialized | ⟨eq, -⟩)
            · rcases (initialized i c).mp isInitialized with ⟨used, notBefore⟩
              have lt_length := isInitialized.lt_length
              refine ⟨.inl used, fun j eq => ?_⟩
              rintro (before | ⟨same, -⟩)
              · exact notBefore j eq before
              · omega
            · exact absurd eq same
          · rintro ⟨used | ⟨eq, -⟩, notBefore⟩
            · exact .inl ((initialized i c).mpr
                ⟨used, fun j eq before => notBefore j eq (.inl before)⟩)
            · exact absurd eq same

/-- When each graph is given the file of the graph before only, nothing is in conflict either and
no class is left out, but a class is initialized once exactly when it is not in two graphs which
do not follow one another. -/
theorem lastFile_initializedOnce_iff (graphs : List (List ClassNode)) :
    ∃ files, generatedInits lastFile graphs = .ok files ∧
      (∀ i c, Used graphs i c → ∃ j, j ≤ i ∧ Initialized files j c) ∧
      ∀ c, (∀ i j, Initialized files i c → Initialized files j c → i = j) ↔
        ∀ i j, Used graphs i c → Used graphs j c → j ≤ i + 1 := by
  rcases generatedInits_lastFile graphs with ⟨files, generated, -, -, initialized⟩
  have near {i : ℕ} {c : String} (used : Used graphs i c) :
      ∃ j, j ≤ i ∧ i ≤ j + 1 ∧ Initialized files j c := by
    by_cases here : Initialized files i c
    · exact ⟨i, Nat.le_refl i, Nat.le_succ i, here⟩
    · rw [initialized, not_and] at here
      rcases not_forall.mp (here used) with ⟨j, before⟩
      rcases Classical.not_imp.mp before with ⟨rfl, isInitialized⟩
      exact ⟨j, Nat.le_succ j, Nat.le_refl _, not_not.mp isInitialized⟩
  refine ⟨files, generated, fun i c used => ?_, fun c => ⟨?_, ?_⟩⟩
  · rcases near used with ⟨j, le, -, isInitialized⟩
    exact ⟨j, le, isInitialized⟩
  · intro once i j usedFirst usedSecond
    rcases near usedFirst with ⟨i', le, -, first⟩
    rcases near usedSecond with ⟨j', -, le', second⟩
    have same := once i' j' first second
    omega
  · intro close i j first second
    have usedFirst := ((initialized i c).mp first).1
    have usedSecond := ((initialized j c).mp second).1
    have le := close i j usedFirst usedSecond
    have ge := close j i usedSecond usedFirst
    rcases Nat.lt_trichotomy i j with lt | same | gt
    · exact absurd first (((initialized j c).mp second).2 i (by omega))
    · exact same
    · exact absurd second (((initialized i c).mp first).2 j (by omega))

end CmsisStream.Scheduler
