import CmsisStream.Scheduler.Storage
import Mathlib.Combinatorics.SimpleGraph.Coloring.Vertex
import Mathlib.Combinatorics.SimpleGraph.CycleGraph

/-!
# Optimal colouring

`optimal_coloring` looks for a colouring with one colour, then with two, and so
on, by backtracking on the nodes in the given order.  One budget of visits is
shared by all these searches.  A search which fails within the budget has tried
every colouring, and it leaves the dictionary of colours as it was.
-/

namespace CmsisStream.Scheduler

universe u

section Search

variable {V : Type u} [DecidableEq V]

/-- The dictionary `color` and the number of visits. -/
structure ColorSearch (V : Type u) where
  color : V → Option ℕ
  visits : ℕ

/-- The loop on the colours of a node.  A colour which no neighbour has is given to the node
before the search goes on with the next nodes, and removed when this search fails. -/
def tryEachColor (adj : V → List V) (node : V) (next : ColorSearch V → Bool × ColorSearch V) :
    List ℕ → ColorSearch V → Bool × ColorSearch V
  | [], s => (false, s)
  | c :: colors, s =>
      if (adj node).all fun nb => s.color nb ≠ some c then
        match next { s with color := Function.update s.color node (some c) } with
        | (true, found) => (true, found)
        | (false, failed) => tryEachColor adj node next colors
            { failed with color := Function.update failed.color node none }
      else tryEachColor adj node next colors s

/-- `backtrack`, for the nodes which are left. -/
def backtrack (adj : V → List V) (maxVisits : ℤ) (k : ℕ) :
    List V → ColorSearch V → Bool × ColorSearch V
  | [], s => (!decide (maxVisits < s.visits + 1), { s with visits := s.visits + 1 })
  | node :: rest, s =>
      if maxVisits < s.visits + 1 then (false, { s with visits := s.visits + 1 })
      else tryEachColor adj node (backtrack adj maxVisits k rest) (List.range k)
        { s with visits := s.visits + 1 }

/-- The loop on the numbers of colours; the result has the number of visits. -/
def tryNumbers (nodes : List V) (adj : V → List V) (maxVisits : ℤ) :
    List ℕ → ℕ → Option (V → Option ℕ) × ℕ
  | [], visits => (none, visits)
  | k :: numbers, visits =>
      match backtrack adj maxVisits k nodes ⟨fun _ => none, visits⟩ with
      | (true, found) => (some found.color, found.visits)
      | (false, failed) =>
          if maxVisits < failed.visits then (none, failed.visits)
          else tryNumbers nodes adj maxVisits numbers failed.visits

/-- `optimal_coloring`, with the number of visits. -/
def optimalColoring (nodes : List V) (adj : V → List V) (maxVisits : ℤ) :
    Option (V → Option ℕ) × ℕ :=
  if nodes.isEmpty then (some fun _ => none, 0)
  else tryNumbers nodes adj maxVisits (List.range' 1 nodes.length) 0

/-- The number of colours of a dictionary. -/
def nbColors (nodes : List V) (color : V → Option ℕ) : ℕ :=
  (nodes.map color).toFinset.card

end Search

section Completeness

variable {V : Type u} {G : SimpleGraph V}

/-- No two adjacent nodes have the same colour so far. -/
def ProperSoFar (G : SimpleGraph V) (color : V → Option ℕ) : Prop :=
  ∀ node nb c, G.Adj node nb → color node = some c → color nb ≠ some c

/-- A proper colouring of some more nodes with `k` colours. -/
structure Completes (G : SimpleGraph V) (k : ℕ) (rest : List V) (color color' : V → Option ℕ) :
    Prop where
  kept : ∀ node, node ∉ rest → color' node = color node
  colored : ∀ node ∈ rest, ∃ c < k, color' node = some c
  proper : ProperSoFar G color'

/-- What a search for a solution returns: a failure leaves the colours as they were, and there
is no solution unless the budget was exceeded. -/
structure SearchOutcome (maxVisits : ℤ) (Solution : (V → Option ℕ) → Prop) (s : ColorSearch V)
    (result : Bool × ColorSearch V) : Prop where
  visits : s.visits ≤ result.2.visits
  found : result.1 = true → (result.2.visits : ℤ) ≤ maxVisits ∧ Solution result.2.color
  color : result.1 = false → result.2.color = s.color
  failed : result.1 = false →
    maxVisits < result.2.visits ∨ ∀ color, ¬ Solution color

/-- A search can be started: the nodes left have no colour. -/
structure Startable (G : SimpleGraph V) (rest : List V) (color : V → Option ℕ) : Prop where
  nodup : rest.Nodup
  uncolored : ∀ node ∈ rest, color node = none
  proper : ProperSoFar G color

variable [DecidableEq V] {adj : V → List V} {maxVisits : ℤ} {k : ℕ} {node : V} {rest : List V}
  {color : V → Option ℕ}

theorem Startable.update (startable : Startable G (node :: rest) color) {c : ℕ}
    (free : ∀ nb, G.Adj node nb → color nb ≠ some c) :
    Startable G rest (Function.update color node (some c)) := by
  rcases List.nodup_cons.mp startable.nodup with ⟨fresh, nodup⟩
  refine ⟨nodup, ?_, ?_⟩
  · intro other mem
    have different : other ≠ node := fun same => fresh (same ▸ mem)
    rw [Function.update_of_ne different]
    exact startable.uncolored other (List.mem_cons_of_mem _ mem)
  · intro first second d adjacent isFirst isSecond
    by_cases firstSame : first = node
    · subst firstSame
      rw [Function.update_self, Option.some.injEq] at isFirst
      rw [Function.update_of_ne adjacent.ne'] at isSecond
      exact free second adjacent (isFirst ▸ isSecond)
    · rw [Function.update_of_ne firstSame] at isFirst
      by_cases secondSame : second = node
      · subst secondSame
        rw [Function.update_self, Option.some.injEq] at isSecond
        exact free first adjacent.symm (isSecond ▸ isFirst)
      · rw [Function.update_of_ne secondSame] at isSecond
        exact startable.proper first second d adjacent isFirst isSecond

/-- The colourings in which the next node has a given colour. -/
theorem completes_update_iff (fresh : node ∉ rest) {c : ℕ} (small : c < k)
    {color' : V → Option ℕ} :
    Completes G k rest (Function.update color node (some c)) color' ↔
      Completes G k (node :: rest) color color' ∧ color' node = some c := by
  constructor
  · intro completes
    have first : color' node = some c := by
      rw [completes.kept node fresh, Function.update_self]
    refine ⟨⟨?_, ?_, completes.proper⟩, first⟩
    · intro other notMem
      rw [List.mem_cons, not_or] at notMem
      rcases notMem with ⟨different, notRest⟩
      rw [completes.kept other notRest, Function.update_of_ne different]
    · intro other mem
      rcases List.mem_cons.mp mem with rfl | later
      · exact ⟨c, small, first⟩
      · exact completes.colored other later
  · rintro ⟨completes, first⟩
    refine ⟨?_, fun other mem => completes.colored other (List.mem_cons_of_mem _ mem),
      completes.proper⟩
    intro other notRest
    by_cases same : other = node
    · rw [same, first, Function.update_self]
    · rw [Function.update_of_ne same]
      exact completes.kept other (by simp [same, notRest])

/-- The loop on the colours of a node tries all of them. -/
theorem tryEachColor_outcome (isAdj : ∀ nb, nb ∈ adj node ↔ G.Adj node nb)
    {next : ColorSearch V → Bool × ColorSearch V}
    (nextOutcome : ∀ s, Startable G rest s.color →
      SearchOutcome maxVisits (Completes G k rest s.color) s (next s))
    {colors : List ℕ} (small : ∀ c ∈ colors, c < k) {s : ColorSearch V}
    (startable : Startable G (node :: rest) s.color) :
    SearchOutcome maxVisits
      (fun color => Completes G k (node :: rest) s.color color ∧
        ∃ c ∈ colors, color node = some c) s (tryEachColor adj node next colors s) := by
  have fresh := (List.nodup_cons.mp startable.nodup).1
  have uncolored : s.color node = none := startable.uncolored node List.mem_cons_self
  induction colors generalizing s with
  | nil =>
      refine ⟨le_rfl, by simp [tryEachColor], fun _ => rfl, fun _ => Or.inr ?_⟩
      rintro color ⟨-, c, mem, -⟩
      simp at mem
  | cons c colors ih =>
      have smaller : ∀ c ∈ colors, c < k := fun d mem => small d (List.mem_cons_of_mem _ mem)
      have cSmall := small c List.mem_cons_self
      unfold tryEachColor
      split_ifs with free
      · have isFree : ∀ nb, G.Adj node nb → s.color nb ≠ some c := by
          intro nb adjacent
          simpa using List.all_eq_true.mp free nb ((isAdj nb).mpr adjacent)
        have outcome := nextOutcome { s with color := Function.update s.color node (some c) }
          (startable.update isFree)
        split
        · rename_i found eq
          rw [eq] at outcome
          rcases outcome.found rfl with ⟨within, completes⟩
          rcases (completes_update_iff fresh cSmall).mp completes with ⟨solution, first⟩
          exact ⟨outcome.visits, fun _ => ⟨within, solution, c, List.mem_cons_self, first⟩,
            by simp, by simp⟩
        · rename_i failed eq
          rw [eq] at outcome
          -- the colour is removed again
          have restored : Function.update failed.color node none = s.color := by
            have color := outcome.color rfl
            simp only at color
            rw [color, Function.update_idem, ← uncolored, Function.update_eq_self]
          rw [restored]
          have later := ih (s := ⟨s.color, failed.visits⟩) smaller startable uncolored
          refine ⟨outcome.visits.trans later.visits, ?_, later.color, ?_⟩
          · intro isFound
            rcases later.found isFound with ⟨within, solution, d, mem, eq'⟩
            exact ⟨within, solution, d, List.mem_cons_of_mem _ mem, eq'⟩
          · intro isFailed
            rcases outcome.failed rfl with exceeded | none
            · left
              have more : (failed.visits : ℤ) ≤ _ := Int.ofNat_le.mpr later.visits
              exact exceeded.trans_le more
            · rcases later.failed isFailed with exceeded | noLater
              · exact Or.inl exceeded
              · right
                rintro color ⟨solution, d, mem, eq'⟩
                rcases List.mem_cons.mp mem with rfl | rest
                · exact none color ((completes_update_iff fresh cSmall).mpr ⟨solution, eq'⟩)
                · exact noLater color ⟨solution, d, rest, eq'⟩
      · -- some neighbour has the colour
        have later := ih smaller startable uncolored
        refine ⟨later.visits, ?_, later.color, ?_⟩
        · intro isFound
          rcases later.found isFound with ⟨within, solution, d, mem, eq'⟩
          exact ⟨within, solution, d, List.mem_cons_of_mem _ mem, eq'⟩
        · intro isFailed
          rcases later.failed isFailed with exceeded | noLater
          · exact Or.inl exceeded
          · right
            rintro color ⟨solution, d, mem, eq'⟩
            rcases List.mem_cons.mp mem with rfl | rest
            · simp only [List.all_eq_true, decide_eq_true_eq, not_forall, not_not] at free
              rcases free with ⟨nb, nbMem, taken⟩
              have adjacent := (isAdj nb).mp nbMem
              have notLeft : nb ∉ node :: rest := by
                intro mem
                rw [startable.uncolored nb mem] at taken
                exact absurd taken (by simp)
              exact solution.proper node nb d adjacent eq' ((solution.kept nb notLeft).trans taken)
            · exact noLater color ⟨solution, d, rest, eq'⟩

/-- The search for a colouring of the nodes which are left. -/
theorem backtrack_outcome (isAdj : ∀ node nb, nb ∈ adj node ↔ G.Adj node nb) (rest : List V)
    {s : ColorSearch V} (startable : Startable G rest s.color) :
    SearchOutcome maxVisits (Completes G k rest s.color) s
      (backtrack adj maxVisits k rest s) := by
  induction rest generalizing s with
  | nil =>
      unfold backtrack
      refine ⟨Nat.le_succ _, ?_, fun _ => rfl, ?_⟩
      · intro within
        simp only [Bool.not_eq_true', decide_eq_false_iff_not, not_lt] at within
        exact ⟨by exact_mod_cast within, fun _ _ => rfl, by simp, startable.proper⟩
      · intro exceeded
        simp only [Bool.not_eq_false', decide_eq_true_eq] at exceeded
        left
        exact_mod_cast exceeded
  | cons node rest ih =>
      unfold backtrack
      split_ifs with exceeded
      · refine ⟨Nat.le_succ _, by simp, fun _ => rfl, fun _ => Or.inl ?_⟩
        exact_mod_cast exceeded
      · have outcome : SearchOutcome maxVisits _ ⟨s.color, s.visits + 1⟩ _ :=
          tryEachColor_outcome (isAdj node) (fun s start => ih start)
            (fun c mem => List.mem_range.mp mem) startable
        refine ⟨(Nat.le_succ _).trans outcome.visits, fun isFound =>
          ⟨(outcome.found isFound).1, (outcome.found isFound).2.1⟩, outcome.color, ?_⟩
        intro isFailed
        rcases outcome.failed isFailed with exceeded | none
        · exact Or.inl exceeded
        · right
          intro color solution
          rcases solution.colored node List.mem_cons_self with ⟨c, small, eq⟩
          exact none color ⟨solution, c, List.mem_range.mpr small, eq⟩

end Completeness

/-! ### Number of colours -/

section Chromatic

variable {V : Type u} [DecidableEq V] {G : SimpleGraph V} {nodes : List V}
  (complete : ∀ node, node ∈ nodes)

include complete

omit [DecidableEq V] in
theorem colorable_iff_completes {k : ℕ} :
    G.Colorable k ↔ ∃ color, Completes G k nodes (fun _ => none) color := by
  constructor
  · rintro ⟨coloring⟩
    refine ⟨fun node => some (coloring node), ?_, ?_, ?_⟩
    · intro node notMem
      exact absurd (complete node) notMem
    · intro node _
      exact ⟨coloring node, (coloring node).isLt, rfl⟩
    · intro node nb c adjacent first second
      have same : coloring node = coloring nb :=
        Fin.ext (Option.some.inj (first.trans second.symm))
      exact coloring.valid adjacent same
  · rintro ⟨color, completes⟩
    rw [SimpleGraph.colorable_iff_exists_bdd_nat_coloring]
    choose c small eq using fun node => completes.colored node (complete node)
    refine ⟨SimpleGraph.Coloring.mk c ?_, small⟩
    intro node nb adjacent same
    exact completes.proper node nb _ adjacent (eq node) (same ▸ eq nb)

omit [DecidableEq V] in
theorem Completes.isSome {k : ℕ} {color : V → Option ℕ}
    (completes : Completes G k nodes (fun _ => none) color) (node : V) :
    (color node).isSome = true := by
  rcases completes.colored node (complete node) with ⟨c, -, eq⟩
  rw [eq]
  rfl

omit [DecidableEq V] in
theorem Completes.ne {k : ℕ} {color : V → Option ℕ}
    (completes : Completes G k nodes (fun _ => none) color) (node nb : V)
    (adjacent : G.Adj node nb) : color node ≠ color nb := by
  intro same
  rcases completes.colored node (complete node) with ⟨c, -, eq⟩
  exact completes.proper node nb c adjacent eq (same ▸ eq)

omit [DecidableEq V] in
/-- A colouring with as few colours as possible uses the chromatic number of colours. -/
theorem chromaticNumber_eq_nbColors {k : ℕ} {color : V → Option ℕ}
    (completes : Completes G k nodes (fun _ => none) color)
    (least : ∀ fewer < k, ¬ G.Colorable fewer) :
    G.chromaticNumber = nbColors nodes color := by
  have mem : ∀ node, color node ∈ (nodes.map color).toFinset := fun node =>
    List.mem_toFinset.mpr (List.mem_map_of_mem (complete node))
  have colorable : G.Colorable (nbColors nodes color) := by
    have valid : ∀ {node nb : V}, G.Adj node nb →
        (⟨color node, mem node⟩ : (nodes.map color).toFinset) ≠ ⟨color nb, mem nb⟩ := by
      intro node nb adjacent same
      rcases completes.colored node (complete node) with ⟨c, -, eq⟩
      exact completes.proper node nb c adjacent eq ((Subtype.mk.inj same).symm.trans eq)
    have coloring := (SimpleGraph.Coloring.mk
      (fun node => (⟨color node, mem node⟩ : (nodes.map color).toFinset)) valid).colorable
    rwa [Fintype.card_coe] at coloring
  have atMost : nbColors nodes color ≤ k := by
    have subset : (nodes.map color).toFinset ⊆ (Finset.range k).image some := by
      intro value isColor
      rcases List.mem_map.mp (List.mem_toFinset.mp isColor) with ⟨node, -, rfl⟩
      rcases completes.colored node (complete node) with ⟨c, small, eq⟩
      exact Finset.mem_image.mpr ⟨c, Finset.mem_range.mpr small, eq.symm⟩
    calc nbColors nodes color ≤ ((Finset.range k).image some).card := Finset.card_le_card subset
      _ ≤ (Finset.range k).card := Finset.card_image_le
      _ = k := Finset.card_range k
  apply le_antisymm colorable.chromaticNumber_le
  rw [SimpleGraph.le_chromaticNumber_iff_colorable]
  intro fewer isColorable
  exact atMost.trans (not_lt.mp fun less => least fewer less isColorable)

/-- The loop on the numbers of colours ends with the least one, or exceeds the budget. -/
theorem tryNumbers_outcome (nodup : nodes.Nodup) {adj : V → List V} (maxVisits : ℤ)
    (isAdj : ∀ node nb, nb ∈ adj node ↔ G.Adj node nb) (more first : ℕ) (visits : ℕ)
    (least : ∀ fewer < first, ¬ G.Colorable fewer) (enough : nodes.length < first + more) :
    (∃ color k, (tryNumbers nodes adj maxVisits (List.range' first more) visits).1 = some color ∧
      Completes G k nodes (fun _ => none) color ∧ ∀ fewer < k, ¬ G.Colorable fewer) ∨
    ((tryNumbers nodes adj maxVisits (List.range' first more) visits).1 = none ∧
      maxVisits < (tryNumbers nodes adj maxVisits (List.range' first more) visits).2) := by
  induction more generalizing first visits with
  | zero =>
      -- a colour for each node is always enough
      have own : G.Colorable nodes.length := by
        rw [colorable_iff_completes complete]
        refine ⟨fun node => some (nodes.idxOf node), ?_, ?_, ?_⟩
        · intro node notMem
          exact absurd (complete node) notMem
        · intro node mem
          exact ⟨nodes.idxOf node, List.idxOf_lt_length_of_mem mem, rfl⟩
        · intro node nb c adjacent isFirst isSecond
          have same := Option.some.inj (isFirst.trans isSecond.symm)
          exact adjacent.ne ((List.idxOf_inj (complete node)).mp same)
      exact absurd own (least _ (by omega))
  | succ more ih =>
      have startable : Startable G nodes (fun _ => none) :=
        ⟨nodup, fun _ _ => rfl, fun _ _ _ _ isColor => absurd isColor (by simp)⟩
      let start : ColorSearch V := ⟨fun _ => none, visits⟩
      have outcome : SearchOutcome maxVisits (Completes G first nodes start.color) start
          (backtrack adj maxVisits first nodes start) := backtrack_outcome isAdj nodes startable
      rw [List.range'_succ]
      unfold tryNumbers
      split
      · rename_i found eq
        rw [eq] at outcome
        exact Or.inl ⟨found.color, first, rfl, (outcome.found rfl).2, least⟩
      · rename_i failed eq
        rw [eq] at outcome
        split_ifs with exceeded
        · exact Or.inr ⟨rfl, exceeded⟩
        · apply ih (first + 1) failed.visits
          · intro fewer less
            rcases Nat.lt_succ_iff_lt_or_eq.mp less with smaller | rfl
            · exact least fewer smaller
            · rw [colorable_iff_completes complete]
              rintro ⟨color, completes⟩
              exact (outcome.failed rfl).resolve_left exceeded color completes
          · omega

/-- A colouring which is returned is a complete one with the least number of colours. -/
theorem optimalColoring_outcome (nodup : nodes.Nodup) {adj : V → List V}
    (isAdj : ∀ node nb, nb ∈ adj node ↔ G.Adj node nb) (maxVisits : ℤ) :
    (∀ color, (optimalColoring nodes adj maxVisits).1 = some color →
      ∃ k, Completes G k nodes (fun _ => none) color ∧ ∀ fewer < k, ¬ G.Colorable fewer) ∧
    ((optimalColoring nodes adj maxVisits).1 = none →
      maxVisits < (optimalColoring nodes adj maxVisits).2) := by
  unfold optimalColoring
  split_ifs with empty
  · rw [List.isEmpty_iff] at empty
    refine ⟨?_, by simp⟩
    intro color isColor
    obtain rfl := Option.some.inj isColor
    refine ⟨0, ⟨fun _ _ => rfl, by simp [empty], ?_⟩, by simp⟩
    intro node
    exact absurd (complete node) (by simp [empty])
  · rw [List.isEmpty_iff] at empty
    have least : ∀ fewer < 1, ¬ G.Colorable fewer := by
      intro fewer less colorable
      obtain rfl : fewer = 0 := by omega
      rcases List.exists_mem_of_ne_nil nodes empty with ⟨node, -⟩
      exact (SimpleGraph.colorable_zero_iff.mp colorable).false node
    rcases tryNumbers_outcome complete nodup maxVisits isAdj nodes.length 1 0 least
        (by omega) with ⟨color, k, eq, completes, isLeast⟩ | ⟨eq, exceeded⟩
    · refine ⟨?_, by simp [eq]⟩
      intro color' isColor
      obtain rfl := Option.some.inj (eq.symm.trans isColor)
      exact ⟨k, completes, isLeast⟩
    · exact ⟨by simp [eq], fun _ => exceeded⟩

end Chromatic

/-- Optimal colouring.  A colouring which is returned gives each node a colour, gives adjacent
nodes different colours, and uses as many colours as the chromatic number of the graph; none is
only returned when the visits exceed the budget. -/
theorem optimalColoring_correct {V : Type u} [DecidableEq V] (G : SimpleGraph V) {nodes : List V}
    (nodup : nodes.Nodup) (complete : ∀ node, node ∈ nodes) {adj : V → List V}
    (isAdj : ∀ node nb, nb ∈ adj node ↔ G.Adj node nb) (maxVisits : ℤ) :
    (∀ color, (optimalColoring nodes adj maxVisits).1 = some color →
      (∀ node, (color node).isSome) ∧ (∀ node nb, G.Adj node nb → color node ≠ color nb) ∧
        G.chromaticNumber = nbColors nodes color) ∧
    ((optimalColoring nodes adj maxVisits).1 = none →
      maxVisits < (optimalColoring nodes adj maxVisits).2) := by
  have outcome := optimalColoring_outcome complete nodup isAdj maxVisits
  refine ⟨?_, outcome.2⟩
  intro color isColor
  rcases outcome.1 color isColor with ⟨k, completes, isLeast⟩
  exact ⟨completes.isSome complete, completes.ne complete,
    chromaticNumber_eq_nbColors complete completes isLeast⟩

/-- The neighbours in the cycle of five nodes. -/
def pentagon (node : Fin 5) : List (Fin 5) := [node - 1, node + 1]

/-- An odd cycle needs three colours. -/
theorem pentagon_optimalColoring :
    ∃ color, (optimalColoring (List.finRange 5) pentagon 100).1 = some color ∧
      (SimpleGraph.cycleGraph 5).chromaticNumber = nbColors (List.finRange 5) color ∧
      nbColors (List.finRange 5) color = 3 := by
  have evaluated : (optimalColoring (List.finRange 5) pentagon 100).1.map
      (nbColors (List.finRange 5)) = some 3 := by
    decide +kernel
  rcases Option.map_eq_some_iff.mp evaluated with ⟨color, isColor, three⟩
  have isAdj : ∀ node nb, nb ∈ pentagon node ↔ (SimpleGraph.cycleGraph 5).Adj node nb := by
    decide
  have correct := optimalColoring_correct (SimpleGraph.cycleGraph 5) (List.nodup_finRange 5)
    List.mem_finRange isAdj 100
  exact ⟨color, isColor, (correct.1 color isColor).2.2, three⟩

/-! ### Colouring of the FIFOs -/

section FIFOs

variable {g : Graph}

/-- The neighbours of a FIFO in the interference graph. -/
def neighbors (nodes : List (Fin g.nbEdges)) (edges : Interference g)
    (node : {e // e ∈ nodes}) : List {e // e ∈ nodes} :=
  nodes.attach.filter fun nb => edges.Adjacent node nb

/-- The FIFOs with more neighbours come first. -/
def coloringOrder (nodes : List (Fin g.nbEdges)) (edges : Interference g) :
    List {e // e ∈ nodes} :=
  nodes.attach.mergeSort fun first second =>
    (neighbors nodes edges second).length ≤ (neighbors nodes edges first).length

/-- The colouring of the interference graph: the optimal one, or the one of `greedy_color` when
the budget is exceeded. -/
def twoTierColoring (maxVisits : ℤ) (greedyColor : Coloring g) : Coloring g := fun nodes edges =>
  match (optimalColoring (coloringOrder nodes edges) (neighbors nodes edges) maxVisits).1 with
  | some color => (coloringOrder nodes edges).map fun node => (node.1, (color node).getD 0)
  | none => greedyColor nodes edges

/-- The FIFOs which interfere, as a graph. -/
def interferenceSimpleGraph (nodes : List (Fin g.nbEdges)) (edges : Interference g)
    (irreflexive : edges.Irreflexive) : SimpleGraph {e // e ∈ nodes} where
  Adj first second := edges.Adjacent first second
  symm := ⟨fun _ _ => Interference.Adjacent.symm⟩
  loopless := ⟨fun node adjacent => irreflexive node.1 adjacent⟩

/-- With any proper fallback, the colouring of the FIFOs is proper. -/
theorem twoTierColoring_proper (maxVisits : ℤ) {greedyColor : Coloring g}
    (proper : ProperColoring greedyColor) :
    ProperColoring (twoTierColoring maxVisits greedyColor) := by
  intro nodes edges nodup irreflexive
  have isPerm : (coloringOrder nodes edges).Perm nodes.attach := List.mergeSort_perm _ _
  have isAdj : ∀ node nb, nb ∈ neighbors nodes edges node ↔
      (interferenceSimpleGraph nodes edges irreflexive).Adj node nb := by
    simp [neighbors, interferenceSimpleGraph]
  have complete : ∀ node, node ∈ coloringOrder nodes edges := fun node =>
    isPerm.mem_iff.mpr (List.mem_attach _ node)
  have outcome := optimalColoring_outcome complete
    (isPerm.nodup_iff.mpr (List.nodup_attach.mpr nodup)) isAdj maxVisits
  unfold twoTierColoring
  split
  · rename_i color isColor
    rcases outcome.1 color isColor with ⟨k, completes, -⟩
    refine ⟨?_, ?_⟩
    · rw [List.map_map]
      have attached := isPerm.map Subtype.val
      rwa [List.attach_map_subtype_val] at attached
    · intro e c o c' mem mem' adjacent
      rcases List.mem_map.mp mem with ⟨first, -, eq⟩
      rcases List.mem_map.mp mem' with ⟨second, -, eq'⟩
      rw [Prod.mk.injEq] at eq eq'
      rcases eq with ⟨rfl, rfl⟩
      rcases eq' with ⟨rfl, rfl⟩
      intro same
      apply completes.ne complete first second adjacent
      rcases Option.isSome_iff_exists.mp (completes.isSome complete first) with ⟨d, isFirst⟩
      rcases Option.isSome_iff_exists.mp (completes.isSome complete second) with ⟨d', isSecond⟩
      rw [isFirst, isSecond, Option.getD_some, Option.getD_some] at same
      rw [isFirst, isSecond, same]
  · exact proper nodes edges nodup irreflexive

end FIFOs

end CmsisStream.Scheduler
