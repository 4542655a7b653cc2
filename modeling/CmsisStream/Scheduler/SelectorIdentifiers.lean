import Mathlib.Data.List.Infix

/-!
# Identifiers of the selectors of several graphs

`Schedule.__init__` starts with a copy of the map `selectorsID` of the
configuration and gives a number to every selector which is not in it.  The
counter always starts at 100, also when the map comes from a previous graph.
This file follows the map over a sequence of graphs, and determines for which
sequences different selectors keep different identifiers.
-/

namespace CmsisStream.Scheduler

/-- The dictionary `selectorsID`, in insertion order. -/
abbrev SelectorsID := List (String × ℕ)

/-- A node of a schedule, with what the allocation of identifiers reads of it. -/
structure SelectorNode where
  selectors : List String
deriving DecidableEq, Repr

/-- The locals of `Schedule.__init__` which allocate the identifiers. -/
structure SelectorCounter where
  selectorsID : SelectorsID
  selectorID : ℕ

/-- IDs before 100 are reserved for CMSIS Stream. -/
def firstSelectorID : ℕ := 100

/-- The body of the loop `for s in n.selectors`. -/
def identifySelector (counter : SelectorCounter) (s : String) : SelectorCounter :=
  if (counter.selectorsID.lookup s).isNone then
    { selectorsID := counter.selectorsID ++ [(s, counter.selectorID)]
      selectorID := counter.selectorID + 1 }
  else counter

/-- The body of the loop `for n in self.allNodes`. -/
def identifyNode (counter : SelectorCounter) (n : SelectorNode) : SelectorCounter :=
  if n.selectors.isEmpty then counter else n.selectors.foldl identifySelector counter

/-- `self.selectorsID` at the end of `Schedule.__init__`. -/
def Schedule.selectorsID (config : SelectorsID) (allNodes : List SelectorNode) : SelectorsID :=
  (allNodes.foldl identifyNode ⟨config, firstSelectorID⟩).selectorsID

/-- The map after a sequence of graphs, each with `newconf.selectorsID = scheduling.selectorsID`;
the first configuration has the default map. -/
def selectorsAfter (graphs : List (List SelectorNode)) : SelectorsID :=
  graphs.foldl Schedule.selectorsID []

/-- The selectors of the nodes of a graph. -/
def graphSelectors (nodes : List SelectorNode) : List String := nodes.flatMap (·.selectors)

/-- What the documentation promises of the map of a schedule. -/
structure SelectorsShared (config : SelectorsID) (allNodes : List SelectorNode)
    (map : SelectorsID) : Prop where
  extends_config : ∀ s id, config.lookup s = some id → map.lookup s = some id
  identified : ∀ n ∈ allNodes, ∀ s ∈ n.selectors, ∃ id, map.lookup s = some id
  distinct : ∀ s t id, map.lookup s = some id → map.lookup t = some id → s = t
  not_reserved : ∀ s id, map.lookup s = some id → firstSelectorID ≤ id

/-- The promise after each schedule of a sequence. -/
def AlwaysShared (graphs : List (List SelectorNode)) : Prop :=
  ∀ earlier nodes later, graphs = earlier ++ nodes :: later →
    SelectorsShared (selectorsAfter earlier) nodes (selectorsAfter (earlier ++ [nodes]))

/-- Only the first graph which has selectors brings selectors. -/
def NoLaterSelectors (graphs : List (List SelectorNode)) : Prop :=
  ∀ earlier nodes later, graphs = earlier ++ nodes :: later →
    earlier.flatMap graphSelectors ≠ [] →
      ∀ s ∈ graphSelectors nodes, s ∈ earlier.flatMap graphSelectors

/-! ### Names numbered in order -/

theorem mem_of_lookup {map : SelectorsID} {s : String} {id : ℕ} (found : map.lookup s = some id) :
    (s, id) ∈ map := by
  rcases List.lookup_eq_some_iff.mp found with ⟨front, back, rfl, -⟩
  simp

theorem lookup_zipIdx {names : List String} {first : ℕ} {s : String} {id : ℕ}
    (found : (names.zipIdx first).lookup s = some id) : first ≤ id ∧ names[id - first]? = some s :=
  List.mk_mem_zipIdx_iff_le_and_getElem?_sub.mp (mem_of_lookup found)

theorem lookup_zipIdx_injective {names : List String} {first : ℕ} {s t : String} {id : ℕ}
    (foundS : (names.zipIdx first).lookup s = some id)
    (foundT : (names.zipIdx first).lookup t = some id) : s = t := by
  have atIndex := (lookup_zipIdx foundS).2
  rw [(lookup_zipIdx foundT).2] at atIndex
  exact (Option.some.inj atIndex).symm

/-! ### The loop over the nodes -/

/-- What the loop has done to the map of the configuration after the given names. -/
structure Identified (config : SelectorsID) (names fresh : List String)
    (counter : SelectorCounter) : Prop where
  selectorsID : counter.selectorsID = config ++ fresh.zipIdx firstSelectorID
  selectorID : counter.selectorID = firstSelectorID + fresh.length
  fresh_new : ∀ s ∈ fresh, config.lookup s = none
  fresh_named : ∀ s ∈ fresh, s ∈ names
  named : ∀ s ∈ names, (counter.selectorsID.lookup s).isSome

theorem identifySelector_identified {config : SelectorsID} {names fresh : List String}
    {counter : SelectorCounter} (holds : Identified config names fresh counter) (s : String) :
    ∃ fresh', Identified config (names ++ [s]) fresh' (identifySelector counter s) := by
  unfold identifySelector
  split_ifs with absent
  · refine ⟨fresh ++ [s], ?_, ?_, ?_, ?_, ?_⟩
    · simp [holds.selectorsID, holds.selectorID, List.zipIdx_append]
    · simp [holds.selectorID, Nat.add_assoc]
    · intro t member
      rcases List.mem_append.mp member with old | new
      · exact holds.fresh_new t old
      · obtain rfl := List.mem_singleton.mp new
        rw [Option.isNone_iff_eq_none, holds.selectorsID, List.lookup_append] at absent
        exact (Option.or_eq_none_iff.mp absent).1
    · intro t member
      rcases List.mem_append.mp member with old | new
      · exact List.mem_append_left _ (holds.fresh_named t old)
      · exact List.mem_append_right _ new
    · intro t member
      rw [List.lookup_append, Option.isSome_or]
      rcases List.mem_append.mp member with old | new
      · simp [holds.named t old]
      · obtain rfl := List.mem_singleton.mp new
        simp
  · refine ⟨fresh, holds.selectorsID, holds.selectorID, holds.fresh_new, ?_, ?_⟩
    · intro t member
      exact List.mem_append_left _ (holds.fresh_named t member)
    · intro t member
      rcases List.mem_append.mp member with old | new
      · exact holds.named t old
      · obtain rfl := List.mem_singleton.mp new
        simpa [Option.isSome_iff_ne_none] using absent

theorem foldl_identified (config : SelectorsID) (names : List String) :
    ∃ fresh, Identified config names fresh
      (names.foldl identifySelector ⟨config, firstSelectorID⟩) := by
  induction names using List.reverseRecOn with
  | nil => exact ⟨[], by simp, by simp, by simp, by simp, by simp⟩
  | append_singleton names s ih =>
      rcases ih with ⟨fresh, holds⟩
      rw [List.foldl_append]
      exact identifySelector_identified holds s

theorem foldl_identifyNode (nodes : List SelectorNode) (counter : SelectorCounter) :
    nodes.foldl identifyNode counter =
      (graphSelectors nodes).foldl identifySelector counter := by
  induction nodes generalizing counter with
  | nil => rfl
  | cons n nodes ih =>
      have node : identifyNode counter n = n.selectors.foldl identifySelector counter := by
        unfold identifyNode
        split_ifs with empty
        · rw [List.isEmpty_iff.mp empty]
          rfl
        · rfl
      simp only [List.foldl_cons, graphSelectors, List.flatMap_cons, List.foldl_append]
      rw [node, ih]
      rfl

/-- The map of a schedule: that of the configuration, then the new names from 100 on. -/
theorem selectorsID_eq (config : SelectorsID) (nodes : List SelectorNode) :
    ∃ fresh : List String,
      Schedule.selectorsID config nodes = config ++ fresh.zipIdx firstSelectorID ∧
      (∀ s ∈ fresh, config.lookup s = none ∧ s ∈ graphSelectors nodes) ∧
      ∀ s ∈ graphSelectors nodes, ((Schedule.selectorsID config nodes).lookup s).isSome := by
  rcases foldl_identified config (graphSelectors nodes) with ⟨fresh, holds⟩
  unfold Schedule.selectorsID
  rw [foldl_identifyNode]
  exact ⟨fresh, holds.selectorsID, fun s member =>
    ⟨holds.fresh_new s member, holds.fresh_named s member⟩, holds.named⟩

theorem selectorsID_extends {config : SelectorsID} {s : String} {id : ℕ}
    (nodes : List SelectorNode) (found : config.lookup s = some id) :
    (Schedule.selectorsID config nodes).lookup s = some id := by
  rcases selectorsID_eq config nodes with ⟨fresh, map, -, -⟩
  rw [map, List.lookup_append, found, Option.some_or]

theorem selectorsID_identified {nodes : List SelectorNode} {n : SelectorNode} {s : String}
    (config : SelectorsID) (node : n ∈ nodes) (selector : s ∈ n.selectors) :
    ∃ id, (Schedule.selectorsID config nodes).lookup s = some id := by
  rcases selectorsID_eq config nodes with ⟨fresh, -, -, named⟩
  exact Option.isSome_iff_exists.mp (named s (List.mem_flatMap.mpr ⟨n, node, selector⟩))

theorem selectorsID_cases {config : SelectorsID} {nodes : List SelectorNode} {s : String} {id : ℕ}
    (found : (Schedule.selectorsID config nodes).lookup s = some id) :
    config.lookup s = some id ∨
      config.lookup s = none ∧ s ∈ graphSelectors nodes ∧ firstSelectorID ≤ id := by
  rcases selectorsID_eq config nodes with ⟨fresh, map, new, -⟩
  rw [map, List.lookup_append, Option.or_eq_some_iff] at found
  rcases found with old | ⟨absent, added⟩
  · exact Or.inl old
  · have position := lookup_zipIdx added
    exact Or.inr ⟨absent, (new s (List.mem_of_getElem? position.2)).2, position.1⟩

/-! ### Sequences of graphs -/

theorem selectorsAfter_append (earlier : List (List SelectorNode)) (nodes : List SelectorNode) :
    selectorsAfter (earlier ++ [nodes]) = Schedule.selectorsID (selectorsAfter earlier) nodes := by
  simp [selectorsAfter]

/-- The names of the map are the selectors of the graphs so far. -/
theorem isSome_lookup_selectorsAfter (graphs : List (List SelectorNode)) (s : String) :
    ((selectorsAfter graphs).lookup s).isSome ↔ s ∈ graphs.flatMap graphSelectors := by
  induction graphs using List.reverseRecOn with
  | nil => simp [selectorsAfter]
  | append_singleton earlier nodes ih =>
      rw [selectorsAfter_append, List.flatMap_append, List.mem_append, List.flatMap_singleton]
      refine ⟨?_, ?_⟩
      · intro found
        rcases Option.isSome_iff_exists.mp found with ⟨id, found⟩
        rcases selectorsID_cases found with old | ⟨-, named, -⟩
        · exact Or.inl (ih.mp (by simp [old]))
        · exact Or.inr named
      · rintro (old | new)
        · rcases Option.isSome_iff_exists.mp (ih.mpr old) with ⟨id, found⟩
          simp [selectorsID_extends nodes found]
        · rcases selectorsID_eq (selectorsAfter earlier) nodes with ⟨-, -, -, named⟩
          exact named s new

/-- No identifier of the map is reserved. -/
theorem firstSelectorID_le (graphs : List (List SelectorNode)) {s : String} {id : ℕ}
    (found : (selectorsAfter graphs).lookup s = some id) : firstSelectorID ≤ id := by
  induction graphs using List.reverseRecOn with
  | nil => simp [selectorsAfter] at found
  | append_singleton earlier nodes ih =>
      rw [selectorsAfter_append] at found
      rcases selectorsID_cases found with old | ⟨-, -, free⟩
      · exact ih old
      · exact free

/-- The first name which a schedule adds has the first identifier. -/
theorem exists_first_of_new {config : SelectorsID} {nodes : List SelectorNode} {s : String}
    (named : s ∈ graphSelectors nodes) (new : config.lookup s = none) :
    ∃ t, config.lookup t = none ∧
      (Schedule.selectorsID config nodes).lookup t = some firstSelectorID := by
  rcases selectorsID_eq config nodes with ⟨fresh, map, fresh_new, found⟩
  cases fresh with
  | nil =>
      have inMap := found s named
      simp [map, new] at inMap
  | cons t fresh =>
      have absent := (fresh_new t List.mem_cons_self).1
      exact ⟨t, absent, by simp [map, List.lookup_append, absent]⟩

/-- A map with a name uses the first identifier. -/
theorem exists_first (graphs : List (List SelectorNode))
    (some_named : graphs.flatMap graphSelectors ≠ []) :
    ∃ s, (selectorsAfter graphs).lookup s = some firstSelectorID := by
  induction graphs using List.reverseRecOn with
  | nil => simp at some_named
  | append_singleton earlier nodes ih =>
      rw [selectorsAfter_append]
      by_cases empty : earlier.flatMap graphSelectors = []
      · rw [List.flatMap_append, empty, List.nil_append, List.flatMap_singleton] at some_named
        rcases List.exists_mem_of_ne_nil _ some_named with ⟨s, named⟩
        have new : (selectorsAfter earlier).lookup s = none := by
          rw [← Option.not_isSome_iff_eq_none, isSome_lookup_selectorsAfter, empty]
          exact List.not_mem_nil
        rcases exists_first_of_new named new with ⟨t, -, first⟩
        exact ⟨t, first⟩
      · rcases ih empty with ⟨s, first⟩
        exact ⟨s, selectorsID_extends nodes first⟩

/-- A schedule which brings no name, or brings the first ones, keeps the identifiers apart. -/
theorem selectorsID_distinct {earlier : List (List SelectorNode)} {nodes : List SelectorNode}
    (distinct : ∀ s t id, (selectorsAfter earlier).lookup s = some id →
      (selectorsAfter earlier).lookup t = some id → s = t)
    (later : earlier.flatMap graphSelectors ≠ [] →
      ∀ s ∈ graphSelectors nodes, s ∈ earlier.flatMap graphSelectors) :
    ∀ s t id, (selectorsAfter (earlier ++ [nodes])).lookup s = some id →
      (selectorsAfter (earlier ++ [nodes])).lookup t = some id → s = t := by
  intro s t id foundS foundT
  rw [selectorsAfter_append] at foundS foundT
  by_cases empty : earlier.flatMap graphSelectors = []
  · have absent : ∀ u, (selectorsAfter earlier).lookup u = none := by
      intro u
      rw [← Option.not_isSome_iff_eq_none, isSome_lookup_selectorsAfter, empty]
      exact List.not_mem_nil
    rcases selectorsID_eq (selectorsAfter earlier) nodes with ⟨fresh, map, -, -⟩
    rw [map, List.lookup_append, absent, Option.none_or] at foundS foundT
    exact lookup_zipIdx_injective foundS foundT
  · have old : ∀ u, (Schedule.selectorsID (selectorsAfter earlier) nodes).lookup u = some id →
        (selectorsAfter earlier).lookup u = some id := by
      intro u found
      rcases selectorsID_cases found with old | ⟨absent, named, -⟩
      · exact old
      · have known := (isSome_lookup_selectorsAfter earlier u).mpr (later empty u named)
        simp [absent] at known
    exact distinct s t id (old s foundS) (old t foundT)

/-- Under the condition, the identifiers stay apart over the whole sequence. -/
theorem selectorsAfter_distinct {graphs : List (List SelectorNode)}
    (holds : NoLaterSelectors graphs) :
    ∀ s t id, (selectorsAfter graphs).lookup s = some id →
      (selectorsAfter graphs).lookup t = some id → s = t := by
  induction graphs using List.reverseRecOn with
  | nil => simp [selectorsAfter]
  | append_singleton earlier nodes ih =>
      apply selectorsID_distinct
      · apply ih
        intro front graph back split
        exact holds front graph (back ++ [nodes]) (by simp [split])
      · exact holds earlier nodes [] rfl

/-- A map which is shared by several graphs keeps its promise exactly if the graphs after the
first one with selectors bring no other selector. -/
theorem alwaysShared_iff (graphs : List (List SelectorNode)) :
    AlwaysShared graphs ↔ NoLaterSelectors graphs := by
  refine ⟨?_, ?_⟩
  · intro shared earlier nodes later split some_named s named
    by_contra unknown
    have new : (selectorsAfter earlier).lookup s = none := by
      rw [← Option.not_isSome_iff_eq_none, isSome_lookup_selectorsAfter]
      exact unknown
    rcases exists_first earlier some_named with ⟨t, first⟩
    rcases exists_first_of_new named new with ⟨u, absent, again⟩
    -- both graphs give the first identifier, to a name each
    have same : t = u := by
      apply (shared earlier nodes later split).distinct t u firstSelectorID
      · rw [selectorsAfter_append]
        exact selectorsID_extends nodes first
      · rw [selectorsAfter_append]
        exact again
    subst same
    simp [first] at absent
  · intro holds earlier nodes later split
    have soFar : NoLaterSelectors (earlier ++ [nodes]) := by
      intro front graph back cut
      have whole := congrArg (· ++ later) cut
      simp only [List.append_assoc, List.cons_append] at whole
      exact holds front graph (back ++ later) (split.trans whole)
    refine ⟨?_, ?_, ?_, ?_⟩
    · intro s id found
      rw [selectorsAfter_append]
      exact selectorsID_extends nodes found
    · intro n node s selector
      rw [selectorsAfter_append]
      exact selectorsID_identified _ node selector
    · exact selectorsAfter_distinct soFar
    · intro s id found
      exact firstSelectorID_le _ found

/-- The second of two graphs gives the identifier of the first one to its own selector. -/
theorem two_graphs_not_shared : ¬ AlwaysShared [[⟨["level"]⟩], [⟨["mute"]⟩]] := by
  intro shared
  have same := (shared [[⟨["level"]⟩]] [⟨["mute"]⟩] [] rfl).distinct "level" "mute" 100
    (by decide) (by decide)
  exact absurd same (by decide)

end CmsisStream.Scheduler
