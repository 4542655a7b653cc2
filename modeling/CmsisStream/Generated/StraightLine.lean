import CmsisStream.Generated.ScheduleLoop
import CmsisStream.Scheduler.FifoRun

/-!
# The two synchronous schedulers

Without asynchronous mode and without callback, `ccode.py` writes the nodes of the schedule one
after the other, or a table of their identifiers and a `switch` in a loop.  An identifier is
stored in 8 or in 16 bits, depending on the length of the schedule.
-/

namespace CmsisStream.Generated

/-- A node of a `Schedule`, before it is given an identifier. -/
structure NodeObject where
  isPureNode : Bool

/-- `_sortedNodes` and `_sortedEventNodes` -/
structure ScheduledNodes (nbStreamNodes : ℕ) where
  streamNodes : Fin nbStreamNodes → NodeObject
  eventNodes : List NodeObject

namespace ScheduledNodes

variable {nbStreamNodes : ℕ} (nodes : ScheduledNodes nbStreamNodes)

/-- `allNodes`, with the identifiers given by `Schedule.__init__` -/
def allNodes : List Node :=
  (List.ofFn nodes.streamNodes ++ nodes.eventNodes).zipIdx.map fun (node, nodeCodeID) =>
    { codeID := nodeCodeID, isPureNode := node.isPureNode }

theorem lt_length_allNodes (s : Fin nbStreamNodes) : s < nodes.allNodes.length := by
  simp [allNodes]
  omega

/-- An element of `streamNodes`, with its identifier -/
def streamNode (s : Fin nbStreamNodes) : Node := nodes.allNodes.get ⟨s, nodes.lt_length_allNodes s⟩

/-- The identifier of a node is its index in the schedule. -/
@[simp]
theorem codeID_streamNode (s : Fin nbStreamNodes) : (nodes.streamNode s).codeID = s := by
  simp [streamNode, allNodes]

end ScheduledNodes

variable {n nbStreamNodes : ℕ}

/-! ## The table of identifiers -/

/-- The number of bits of `schedSwitchDataType` -/
def schedSwitchDataType (schedLen : ℕ) : ℕ := if schedLen ≤ 255 then 8 else 16

/-- `static {{schedSwitchDataType}} schedule[{{schedLen}}]`.  The code is not compiled when a
constant is too large for its type. -/
def scheduleTable (nodes : ScheduledNodes nbStreamNodes)
    (schedule : Fin (n + 1) → Fin nbStreamNodes) :
    Option (Fin (n + 1) → Fin (2 ^ schedSwitchDataType (n + 1))) :=
  if fits : ∀ id, (nodes.streamNode (schedule id)).codeID < 2 ^ schedSwitchDataType (n + 1) then
    some fun id => ⟨(nodes.streamNode (schedule id)).codeID, fits id⟩
  else none

/-- The case of `switch(schedule[id])`; by default nothing is executed. -/
def switchCase (nodes : ScheduledNodes nbStreamNodes) (nodeID : ℕ) : Option Node :=
  if lt : nodeID < nbStreamNodes then some (nodes.streamNode ⟨nodeID, lt⟩) else none

/-- The nodes executed by the `switch`, when each element of the table has its case. -/
def switchNodes (nodes : ScheduledNodes nbStreamNodes)
    (schedule : Fin (n + 1) → Fin nbStreamNodes) : Option (Fin (n + 1) → Node) :=
  (scheduleTable nodes schedule).bind fun table =>
    if cases : ∀ id, (switchCase nodes (table id)).isSome then
      some fun id => (switchCase nodes (table id)).get (cases id)
    else none

/-! ## The statements of the straight-line scheduler -/

/-- The nodes in the body of the loop, with their positions in the schedule. -/
def statements (nodes : ScheduledNodes nbStreamNodes)
    (schedule : Fin (n + 1) → Fin nbStreamNodes) : List (Fin (n + 1) × Node) :=
  (List.finRange (n + 1)).map fun id => (id, nodes.streamNode (schedule id))

/-- How the body of the loop ends. -/
inductive BodyEnd where
  /-- The next node has not returned yet. -/
  | waiting
  | failed (cgStaticError : ℤ)
  | completed (cgStaticError : ℤ) (attempts : List Attempt)

/-- What a statement does. -/
def statementPass (statement : Fin (n + 1) × Node) (attempt : Attempt) : Pass n where
  id := statement.1
  node := statement.2
  attempt := attempt
  calls := if statement.2.isPureNode then [] else [(.run, .newExecution)]
  ran := some (runNode statement.2 attempt)
  cgStaticError := runNode statement.2 attempt

/-- The body of the loop: each statement is followed by `CHECKERROR`. -/
def runStatements : List (Fin (n + 1) × Node) → ℤ → List Attempt → List (Pass n) × BodyEnd
  | [], cgStaticError, attempts => ([], .completed cgStaticError attempts)
  | _ :: _, _, [] => ([], .waiting)
  | statement :: statements, _, attempt :: attempts =>
      let pass := statementPass statement attempt
      if pass.cgStaticError < 0 then ([pass], .failed pass.cgStaticError)
      else
        let (passes, bodyEnd) := runStatements statements pass.cgStaticError attempts
        (pass :: passes, bodyEnd)

def Run.append (passes : List (Pass n)) (rest : Run n) : Run n :=
  { rest with passes := passes ++ rest.passes }

/-- The loop of the straight-line scheduler, for a number of iterations. -/
def whileLoop (config : Configuration) (statements : List (Fin (n + 1) × Node)) :
    ℕ → ℕ → ℕ → ℤ → List Attempt → Run n
  | 0, _, _, _, _ => { passes := [], report := none }
  | iterations + 1, nbSchedule, debugCounter, cgStaticError, attempts =>
      if cgStaticError = 0 ∧ (config.debug → 0 < debugCounter) then
        match runStatements statements cgStaticError attempts with
        | (passes, .waiting) => { passes := passes, report := none }
        | (passes, .failed error) => { passes := passes, report := some (error, nbSchedule) }
        | (passes, .completed error rest) =>
            (whileLoop config statements iterations (nbSchedule + 1) (debugCounter - 1) error
              rest).append passes
      else { passes := [], report := some (cgStaticError, nbSchedule) }

/-- The straight-line scheduler.  Each iteration executes a node. -/
def straightLine (config : Configuration) (statements : List (Fin (n + 1) × Node))
    (attempts : List Attempt) : Run n :=
  whileLoop config statements (attempts.length + 1) 0 config.debugLimit 0 attempts

/-! ## The body of the loop -/

section Body

variable {config : Configuration} {program : Fin (n + 1) → Node} {loop : Loop n}
  {attempt : Attempt} {attempts : List Attempt}

/-- The body of the loop with a `switch`, without asynchronous mode and without callback. -/
theorem step_synchronous (synchronous : ¬ config.asynchronous) (single : ¬ config.callback) :
    step config program loop attempt =
      (statementPass (loop.id, program loop.id) attempt,
        if runNode (program loop.id) attempt < 0 then
          .returned (runNode (program loop.id) attempt) loop.nbSchedule loop.cb
        else if loop.id < Fin.last n then .inside { loop with id := loop.id + 1 }
        else if runNode (program loop.id) attempt = 0 ∧
            (config.debug → 0 < loop.debugCounter - 1) then
          .inside (startIteration (loop.nbSchedule + 1) (loop.debugCounter - 1) loop.cb)
        else .returned (runNode (program loop.id) attempt) (loop.nbSchedule + 1) loop.cb) := by
  simp [step, body, synchronous, runPass, executionStatus, single, CbState.save, statementPass]

/-- The loop with a `switch` after the last statement of the body. -/
def afterBody (config : Configuration) (program : Fin (n + 1) → Node) (loop : Loop n)
    (cgStaticError : ℤ) (attempts : List Attempt) : Run n :=
  if cgStaticError = 0 ∧ (config.debug → 0 < loop.debugCounter - 1) then
    run config program (startIteration (loop.nbSchedule + 1) (loop.debugCounter - 1) loop.cb)
      attempts
  else { passes := [], report := some (cgStaticError, loop.nbSchedule + 1) }

theorem drop_finRange (id : Fin (n + 1)) :
    (List.finRange (n + 1)).drop id = id :: (List.finRange (n + 1)).drop (id + 1) := by
  have lt : id.val < (List.finRange (n + 1)).length := by
    rw [List.length_finRange]
    exact id.isLt
  rw [List.drop_eq_getElem_cons lt]
  simp

theorem drop_last {id : Fin (n + 1)} (last : ¬ id < Fin.last n) :
    (List.finRange (n + 1)).drop (id + 1) = [] := by
  have atLast : ¬ id.val < n := last
  apply List.drop_eq_nil_of_le
  simp
  omega

/-- The statements which are left are what the `switch` still has to execute. -/
theorem run_eq_runStatements (synchronous : ¬ config.asynchronous) (single : ¬ config.callback)
    (error : ℤ) :
    run config program loop attempts =
      match runStatements (((List.finRange (n + 1)).drop loop.id).map fun id => (id, program id))
        error attempts with
      | (passes, .waiting) => { passes := passes, report := none }
      | (passes, .failed error) => { passes := passes, report := some (error, loop.nbSchedule) }
      | (passes, .completed error rest) =>
          (afterBody config program loop error rest).append passes := by
  induction attempts generalizing loop error with
  | nil =>
      rw [drop_finRange]
      rfl
  | cons attempt attempts ih =>
      rw [drop_finRange, List.map_cons, run, step_synchronous synchronous single]
      simp only [runStatements, statementPass]
      by_cases failed : runNode (program loop.id) attempt < 0
      · simp [failed, single]
      · simp only [failed, ↓reduceIte]
        by_cases inside : loop.id < Fin.last n
        · have next : ((loop.id + 1 : Fin (n + 1)) : ℕ) = loop.id + 1 :=
            Fin.val_add_one_of_lt inside
          have rest := @ih { loop with id := loop.id + 1 } (runNode (program loop.id) attempt)
          simp only [next] at rest
          simp only [inside, ↓reduceIte, rest]
          rcases runStatements _ _ attempts with ⟨passes, _ | error | ⟨error, rest⟩⟩
          all_goals rfl
        · simp only [inside, ↓reduceIte, drop_last inside, List.map_nil, runStatements, afterBody]
          by_cases goesOn : runNode (program loop.id) attempt = 0 ∧
              (config.debug → 0 < loop.debugCounter - 1)
          · rw [if_pos goesOn, if_pos goesOn]
            rfl
          · rw [if_neg goesOn, if_neg goesOn]
            simp [single, Run.append]

/-- An iteration executes a node. -/
theorem runStatements_shorter {all : List (Fin (n + 1) × Node)} {error error' : ℤ}
    {passes : List (Pass n)} {rest : List Attempt} (notEmpty : all ≠ [])
    (completed : runStatements all error attempts = (passes, .completed error' rest)) :
    rest.length < attempts.length := by
  induction all generalizing attempts error passes with
  | nil => exact absurd rfl notEmpty
  | cons statement all ih =>
      cases attempts with
      | nil => simp [runStatements] at completed
      | cons attempt attempts =>
          simp only [runStatements] at completed
          split at completed
          · simp at completed
          · cases all with
            | nil =>
                simp only [runStatements, Prod.mk.injEq, BodyEnd.completed.injEq] at completed
                rw [← completed.2.2]
                exact Nat.lt_succ_self _
            | cons next all =>
                have shorter := ih (List.cons_ne_nil _ _)
                  (Prod.ext rfl (Prod.ext_iff.mp completed).2)
                exact shorter.trans (Nat.lt_succ_self _)

end Body

/-! ## The two schedulers -/

section Whole

variable {config : Configuration} {program : Fin (n + 1) → Node} {attempts : List Attempt}

theorem run_eq_whileLoop (synchronous : ¬ config.asynchronous) (single : ¬ config.callback)
    {cb : CbState n} (notPaused : cb.status ≠ .paused) {iterations nbSchedule debugCounter : ℕ}
    (enough : attempts.length < iterations) (goesOn : config.debug → 0 < debugCounter) :
    run config program (startIteration nbSchedule debugCounter cb) attempts =
      whileLoop config ((List.finRange (n + 1)).map fun id => (id, program id)) iterations
        nbSchedule debugCounter 0 attempts := by
  induction iterations generalizing attempts nbSchedule debugCounter with
  | zero => omega
  | succ iterations ih =>
      have start : startIteration nbSchedule debugCounter cb =
          ⟨0, nbSchedule, debugCounter, cb⟩ := by
        simp [startIteration, notPaused]
      rw [start, run_eq_runStatements synchronous single 0, whileLoop, if_pos ⟨rfl, goesOn⟩]
      simp only [Fin.val_zero, List.drop_zero]
      rcases outcome : runStatements ((List.finRange (n + 1)).map fun id => (id, program id)) 0
        attempts with ⟨passes, _ | error | ⟨error, rest⟩⟩
      · rfl
      · rfl
      · have shorter := runStatements_shorter (by simp) outcome
        simp only [afterBody]
        congr 1
        by_cases again : error = 0 ∧ (config.debug → 0 < debugCounter - 1)
        · rw [if_pos again, again.1]
          exact ih (by omega) again.2
        · -- The condition of the loop is tested once more.
          rw [if_neg again]
          cases iterations with
          | zero => omega
          | succ iterations => rw [whileLoop, if_neg again]

theorem scheduler_eq_straightLine (synchronous : ¬ config.asynchronous)
    (single : ¬ config.callback) :
    scheduler config program attempts =
      straightLine config ((List.finRange (n + 1)).map fun id => (id, program id)) attempts :=
  run_eq_whileLoop synchronous single (by simp [initCbState]) (Nat.lt_succ_self _)
    fun debug => by simpa [Configuration.debug] using debug

end Whole

section Table

variable {nodes : ScheduledNodes nbStreamNodes} {schedule : Fin (n + 1) → Fin nbStreamNodes}

/-- The `switch` executes the nodes of the schedule. -/
theorem eq_of_mem_switchNodes {program : Fin (n + 1) → Node}
    (compiled : program ∈ switchNodes nodes schedule) :
    program = fun id => nodes.streamNode (schedule id) := by
  simp only [switchNodes, scheduleTable, Option.mem_def] at compiled
  split at compiled
  · simp only [Option.bind_some] at compiled
    split at compiled
    · cases compiled
      funext id
      simp [switchCase]
    · cases compiled
  · cases compiled

theorem isSome_switchNodes : (switchNodes nodes schedule).isSome ↔
    ∀ id, (schedule id).val < 2 ^ schedSwitchDataType (n + 1) := by
  simp only [switchNodes, scheduleTable]
  split
  · rename_i fits
    simpa [switchCase] using fits
  · rename_i fits
    simpa using fits

/-- A schedule with all the nodes has a table unless there are too many nodes for 16 bits. -/
theorem isSome_switchNodes_iff (all : Function.Surjective schedule) :
    (switchNodes nodes schedule).isSome ↔ nbStreamNodes ≤ 2 ^ 16 := by
  have fewer : nbStreamNodes ≤ n + 1 := by simpa using Fintype.card_le_of_surjective _ all
  rw [isSome_switchNodes, schedSwitchDataType]
  split
  · have small : ∀ id, (schedule id).val < 2 ^ 8 := fun id => by
      have lt := (schedule id).isLt
      omega
    exact iff_of_true small (by omega)
  · refine ⟨fun fits => ?_, fun few id => (schedule id).isLt.trans_le few⟩
    rcases Nat.eq_zero_or_pos nbStreamNodes with zero | positive
    · omega
    · rcases all ⟨nbStreamNodes - 1, by omega⟩ with ⟨id, last⟩
      have atLast := fits id
      rw [last] at atLast
      dsimp only at atLast
      omega

end Table

open Scheduler

/-- For a computed schedule the `switch` and the statements do the same, and there is a table of
identifiers unless the graph has too many nodes. -/
theorem scheduler_straightLine {g : Graph} {nullspace : Nullspace} {score : Score g}
    {coloring : Coloring g} {scheduling : Scheduler.Configuration} {result : Schedule g}
    (basis : ReducedBasis g.topologyMatrix (nullspace _ _ g.topologyMatrix))
    (computed : computeSchedule nullspace score coloring scheduling = .ok result)
    {schedule : Fin (n + 1) → Fin g.nbNodes} (inOrder : List.ofFn schedule = result.schedule)
    (nodes : ScheduledNodes g.nbNodes) :
    ((switchNodes nodes schedule).isSome ↔ g.nbNodes ≤ 2 ^ 16) ∧
      ∀ program ∈ switchNodes nodes schedule, ∀ config : Configuration, ¬ config.asynchronous →
        ¬ config.callback → ∀ attempts,
          scheduler config program attempts =
            straightLine config (statements nodes schedule) attempts := by
  refine ⟨isSome_switchNodes_iff fun node => ?_, ?_⟩
  · rcases computeSchedule_solved computed with ⟨isConnected, solved⟩
    have noLoop := noLoop_of_nullVector basis isConnected solved
    rcases computeSchedule_ok noLoop computed with ⟨-, period, -⟩
    have executed := period.counts_pos (nullVector_pos basis isConnected noLoop solved) node
    have mem : node ∈ result.schedule := List.count_pos_iff.mp executed
    rw [← inOrder] at mem
    exact List.mem_ofFn.mp mem
  · intro program compiled config synchronous single attempts
    rw [eq_of_mem_switchNodes compiled]
    exact scheduler_eq_straightLine synchronous single

/-- Two node objects, without event nodes -/
def twoObjects : ScheduledNodes delayedSourceSink.nbNodes := ⟨fun _ => ⟨false⟩, []⟩

/-- The delayed sink, and then the source -/
def sinkThenSource : Fin (1 + 1) → Fin delayedSourceSink.nbNodes := fun id => id.rev

theorem delayedSourceSink_straightLine :
    ∃ program ∈ switchNodes twoObjects sinkThenSource, ∀ attempts,
      scheduler ⟨false, false, false, 3⟩ program attempts =
        straightLine ⟨false, false, false, 3⟩ (statements twoObjects sinkThenSource) attempts := by
  have evaluated : (computeSchedule (pairNullspace 1) (occupancy delayedSourceSink)
      (ownColors delayedSourceSink) ⟨false, true, false⟩).toOption.map (·.schedule) =
        some (List.ofFn sinkThenSource) := by
    decide +kernel
  rcases Option.map_eq_some_iff.mp evaluated with ⟨result, computed, inOrder⟩
  rcases scheduler_straightLine delayedSourceSink_reducedBasis (toOption_eq_some.mp computed)
    inOrder.symm twoObjects with ⟨compiled, same⟩
  have few : delayedSourceSink.nbNodes ≤ 2 ^ 16 := by decide
  rcases Option.isSome_iff_exists.mp (compiled.mpr few) with ⟨program, isProgram⟩
  exact ⟨program, isProgram, same program isProgram _ (by decide) (by decide)⟩

end CmsisStream.Generated
