import Mathlib.Algebra.Order.Ring.Int
import Mathlib.Tactic.SplitIfs

/-!
# The generated schedule loop

The loop of the switch case scheduler, with its callback, asynchronous and debug options.  The
nodes are known by what they return: an attempt is what a node does when the body of the loop
is run once.
-/

namespace CmsisStream.Generated

/-! ## Values of `cg_status` -/

def cgSkipExecution : ℤ := -5
def cgBufferError : ℤ := -6
def cgPausedScheduler : ℤ := -9

/-- `kCBStatus` -/
inductive CBStatus where
  | newExecution
  | resumedExecution
deriving DecidableEq

inductive SchedulerStatus where
  | paused
  | notStarted
  | running
deriving DecidableEq

/-- The options of the template.  No `debugLimit` is 0. -/
structure Configuration where
  callback : Bool
  /-- `config.asynchronous or config.fullyAsynchronous` -/
  asynchronous : Bool
  asyncDefaultSkip : Bool
  debugLimit : ℕ

def Configuration.debug (config : Configuration) : Bool := 0 < config.debugLimit

structure Node where
  codeID : ℕ
  isPureNode : Bool

/-- What a node does in one execution of the body of the loop.  A pure function is a node whose
FIFOs are tested in its place. -/
structure Attempt where
  canRun : Bool
  prepareForRunning : ℤ
  run : ℤ

/-- The case of a node in the `switch` of the asynchronous check. -/
def check (config : Configuration) (node : Node) (attempt : Attempt) : ℤ :=
  if node.isPureNode then
    if attempt.canRun then 0
    else if config.asyncDefaultSkip then cgSkipExecution
    else cgBufferError
  else attempt.prepareForRunning

/-- The case of a node in the `switch` of the execution. -/
def runNode (node : Node) (attempt : Attempt) : ℤ := if node.isPureNode then 0 else attempt.run

/-- `cb_state_t`, for a schedule of `n + 1` positions -/
structure CbState (n : ℕ) where
  scheduleStateID : Fin (n + 1)
  nbSched : ℕ
  status : SchedulerStatus
  running : CBStatus
deriving DecidableEq

def initCbState {n : ℕ} : CbState n where
  scheduleStateID := 0
  nbSched := 0
  status := .notStarted
  running := .newExecution

/-- A function of a node which is called by the scheduler. -/
inductive Phase where
  | prepareForRunning
  | run
deriving DecidableEq

/-- One execution of the body of the loop. -/
structure Pass (n : ℕ) where
  id : Fin (n + 1)
  node : Node
  attempt : Attempt
  /-- The functions of the node that are called, and the execution status at that time -/
  calls : List (Phase × CBStatus)
  /-- The value returned by the execution of the node, if it is not skipped -/
  ran : Option ℤ
  cgStaticError : ℤ

/-- The variables of the scheduler before the body of the loop. -/
structure Loop (n : ℕ) where
  id : Fin (n + 1)
  nbSchedule : ℕ
  debugCounter : ℕ
  cb : CbState n

variable {n : ℕ}

/-- The execution status given to a node. -/
def executionStatus (config : Configuration) (cb : CbState n) : CBStatus :=
  if config.callback then cb.running else .newExecution

/-- What the callback mode does before `CHECKERROR`. -/
def CbState.save (config : Configuration) (loop : Loop n) (cgStaticError : ℤ) (cb : CbState n) :
    CbState n :=
  if config.callback then
    if cgStaticError = cgPausedScheduler then
      { scheduleStateID := loop.id, nbSched := loop.nbSchedule, status := .paused,
        running := .resumedExecution }
    else { cb with running := .newExecution }
  else cb

/-- The part of the body which executes a node. -/
def runPass (config : Configuration) (schedule : Fin (n + 1) → Node) (loop : Loop n)
    (attempt : Attempt) (calls : List (Phase × CBStatus)) (cb : CbState n) : Pass n × CbState n :=
  let node := schedule loop.id
  let cgStaticError := runNode node attempt
  ({ id := loop.id
     node := node
     attempt := attempt
     calls := calls ++ if node.isPureNode then [] else [(.run, executionStatus config cb)]
     ran := some cgStaticError
     cgStaticError := cgStaticError }, cb.save config loop cgStaticError)

/-- The call of `prepareForRunning` in the asynchronous check. -/
def checkCalls (config : Configuration) (node : Node) (cb : CbState n) : List (Phase × CBStatus) :=
  if node.isPureNode then [] else [(.prepareForRunning, executionStatus config cb)]

/-- A pass which ends after the asynchronous check. -/
def checkPass (config : Configuration) (schedule : Fin (n + 1) → Node) (loop : Loop n)
    (attempt : Attempt) (cgStaticError : ℤ) : Pass n where
  id := loop.id
  node := schedule loop.id
  attempt := attempt
  calls := checkCalls config (schedule loop.id) loop.cb
  ran := none
  cgStaticError := cgStaticError

/-- The body of the loop. -/
def body (config : Configuration) (schedule : Fin (n + 1) → Node) (loop : Loop n)
    (attempt : Attempt) : Pass n × CbState n :=
  if config.asynchronous then
    let cgStaticError := check config (schedule loop.id) attempt
    if cgStaticError = cgSkipExecution then (checkPass config schedule loop attempt 0, loop.cb)
    else
      let cb := loop.cb.save config loop cgStaticError
      if cgStaticError < 0 then (checkPass config schedule loop attempt cgStaticError, cb)
      else
        runPass config schedule loop attempt (checkCalls config (schedule loop.id) loop.cb) cb
  else runPass config schedule loop attempt [] loop.cb

/-- The four ways to go through the body. -/
inductive BodyCase (config : Configuration) (schedule : Fin (n + 1) → Node) (loop : Loop n)
    (attempt : Attempt) : Pass n × CbState n → Prop
  | skipped (asynchronous : config.asynchronous)
      (skip : check config (schedule loop.id) attempt = cgSkipExecution) :
      BodyCase config schedule loop attempt (checkPass config schedule loop attempt 0, loop.cb)
  | refused (asynchronous : config.asynchronous)
      (notSkip : check config (schedule loop.id) attempt ≠ cgSkipExecution)
      (negative : check config (schedule loop.id) attempt < 0) :
      BodyCase config schedule loop attempt
        (checkPass config schedule loop attempt (check config (schedule loop.id) attempt),
          loop.cb.save config loop (check config (schedule loop.id) attempt))
  | accepted (asynchronous : config.asynchronous)
      (nonnegative : 0 ≤ check config (schedule loop.id) attempt) :
      BodyCase config schedule loop attempt
        (runPass config schedule loop attempt (checkCalls config (schedule loop.id) loop.cb)
          (loop.cb.save config loop (check config (schedule loop.id) attempt)))
  | synchronous (synchronous : ¬ config.asynchronous) :
      BodyCase config schedule loop attempt (runPass config schedule loop attempt [] loop.cb)

theorem bodyCase (config : Configuration) (schedule : Fin (n + 1) → Node) (loop : Loop n)
    (attempt : Attempt) : BodyCase config schedule loop attempt
      (body config schedule loop attempt) := by
  simp only [body]
  split_ifs with asynchronous skip negative
  · exact .skipped asynchronous skip
  · exact .refused asynchronous skip negative
  · exact .accepted asynchronous (not_lt.mp negative)
  · exact .synchronous asynchronous

/-- The start of an iteration of the schedule. -/
def startIteration (nbSchedule debugCounter : ℕ) (cb : CbState n) : Loop n :=
  if cb.status = .paused then
    { id := cb.scheduleStateID, nbSchedule := nbSchedule, debugCounter := debugCounter,
      cb := { cb with status := .running } }
  else { id := 0, nbSchedule := nbSchedule, debugCounter := debugCounter, cb := cb }

/-- The start of a call of the scheduler. -/
def enter (config : Configuration) (cb : CbState n) : Loop n :=
  startIteration (if cb.status = .paused then cb.nbSched else 0) config.debugLimit cb

/-- A call of the scheduler goes on, or returns an error and a number of iterations. -/
inductive Outcome (n : ℕ) where
  | inside (loop : Loop n)
  | returned (error : ℤ) (nbSchedule : ℕ) (cb : CbState n)

/-- One execution of the body, `CHECKERROR` and the conditions of the two loops. -/
def step (config : Configuration) (schedule : Fin (n + 1) → Node) (loop : Loop n)
    (attempt : Attempt) : Pass n × Outcome n :=
  let (pass, cb) := body config schedule loop attempt
  (pass,
    if pass.cgStaticError < 0 then .returned pass.cgStaticError loop.nbSchedule cb
    else if loop.id < Fin.last n then .inside { loop with id := loop.id + 1, cb := cb }
    else
      let debugCounter := loop.debugCounter - 1
      let nbSchedule := loop.nbSchedule + 1
      if pass.cgStaticError = 0 ∧ (config.debug → 0 < debugCounter) then
        .inside (startIteration nbSchedule debugCounter cb)
      else .returned pass.cgStaticError nbSchedule cb)

/-- The passes of successive calls of the scheduler, and what is finally reported. -/
structure Run (n : ℕ) where
  passes : List (Pass n)
  report : Option (ℤ × ℕ)

def Run.cons (pass : Pass n) (rest : Run n) : Run n := { rest with passes := pass :: rest.passes }

/-- The scheduler goes on as its nodes do, and is called again when it is paused in callback
mode. -/
def run (config : Configuration) (schedule : Fin (n + 1) → Node) : Loop n → List Attempt → Run n
  | _, [] => { passes := [], report := none }
  | loop, attempt :: attempts =>
      let (pass, outcome) := step config schedule loop attempt
      match outcome with
      | .inside loop => (run config schedule loop attempts).cons pass
      | .returned error nbSchedule cb =>
          if config.callback ∧ error = cgPausedScheduler then
            (run config schedule (enter config cb) attempts).cons pass
          else { passes := [pass], report := some (error, nbSchedule) }

/-- The calls of the scheduler after its initialization. -/
def scheduler (config : Configuration) (schedule : Fin (n + 1) → Node)
    (attempts : List Attempt) : Run n :=
  run config schedule (enter config initCbState) attempts

/-- An execution of a node which did not pause: its position and what it returned -/
def Pass.completed? (pass : Pass n) : Option (Fin (n + 1) × ℤ) :=
  match pass.ran with
  | some value => if value = cgPausedScheduler then none else some (pass.id, value)
  | none => none

/-- The completed executions of nodes. -/
def Run.completed (run : Run n) : List (Fin (n + 1) × ℤ) := run.passes.filterMap Pass.completed?

end CmsisStream.Generated
