import NotifyQueue.Cache.CacheSystem
import NotifyQueue.Worker.Loop
import NotifyQueue.Worker.WebhookDispatcher

/-! # One worker process

Translated from `run_worker` in `worker/main.py`, `Worker.run` and `Worker._loop` in
`worker/loop.py`, `Reaper.run` in `worker/reaper.py`, `WebhookDispatcher.run` in
`worker/webhook_dispatcher.py` and `CacheInvalidator` in `worker/common.py`: everything that one
process runs, from its start to its end, among everything that other processes do.  The stages
are the `await`s again; between two of them nothing else of the process runs.

A task that ends by an unforeseen exception, which `_process` logs, is the `crash` of a task.
The `gather` of the dispatches passes the first exception on at once, so the other dispatches of
such a batch go on without anybody waiting for them. -/

namespace NotifyQueue

open Runs

/-- Where `Worker._loop` waits.  `tasks` are the places of the batch in the list of all tasks. -/
inductive LoopStage where
  | starting
  | claiming (batch : Batch)
  | processing (tasks : List Nat)
  | sleeping
  | ended
deriving DecidableEq, Repr

inductive ReaperStage where
  | starting
  | reaping
  | sleeping
  | ended
deriving DecidableEq, Repr

/-- Where `WebhookDispatcher.run` waits.  `dispatches` are the places of the batch in the list of all
    dispatches. -/
inductive DispatcherStage where
  | starting
  | claiming
  | dispatching (dispatches : List Nat)
  | sleeping
  | ended
deriving DecidableEq, Repr

/-- Where `report` and `idle_watch` wait, which only sleep. -/
inductive WatchStage where
  | starting
  | sleeping
  | ended
deriving DecidableEq, Repr

/-- A task of the `CacheInvalidator`. -/
structure Invalidation where
  transition : Transition
  ended : Bool
deriving DecidableEq, Repr

/-- `Worker.run` and `run_worker` alike: wait for what they started, then drain the
    `CacheInvalidator`. -/
inductive GatherStage where
  | gathering
  | draining (invalidations : List Nat)
  | ended
deriving DecidableEq, Repr

/-- `owed` is what `_deliver` has still to hand to the `CacheInvalidator` when it releases the
    slot first.  There is an `idleWatch` when `exit_when_idle` is given. -/
structure Process where
  workerId : String
  world : World
  stopping : Bool
  loops : List LoopStage
  reaper : ReaperStage
  dispatcher : DispatcherStage
  dispatches : List Dispatch
  report : WatchStage
  idleWatch : Option WatchStage
  invalidations : List Invalidation
  owed : Nat → List Transition
  worker : GatherStage
  main : GatherStage

/-- What one dispatch does. -/
inductive DispatchAction where
  | endPost (result : PostResult)
  | record (began draw : Time)
  | abandon
deriving DecidableEq, Repr

inductive ProcessAction where
  | stop
  | resumeLoop (i : Nat)
  | claim (i b : Nat) (began : Time) (newToken : JobId → ClaimToken) (choices : Choices)
  | claimFailed (i : Nat)
  | task (k : Nat) (action : TaskAction)
  | resumeReaper
  | reap (began : Time) (newEvent : JobId → EventId) (choices : Choices)
  | reapFailed
  | resumeDispatcher
  | claimEvents (began : Time) (choices : OutboxChoices)
  | claimEventsFailed
  | dispatch (k : Nat) (action : DispatchAction)
  | dispatchesFailed
  | resumeReport
  | resumeIdleWatch (idle : Bool)
  | invalidated (k : Nat)
  | workerGathered
  | workerDrained
  | gathered
  | drained
  | outside (action : Action)
  | otherDispatchers (webhookOutbox : Outbox)

/-! ## What a transaction moved -/

/-- The transition that a step of a task commits, if any. -/
def Task.transitions (settings : Settings) (w : World) (task : Task) : TaskAction → List Transition
  | .returnUnsent began =>
    match task.stage with
    | .returning delaySeconds _ =>
      ((JobOp.returnToQueue task.job.id task.claimToken delaySeconds).commit began w.db).1.transitions
    | _ => []
  | .finalize began eventId draw =>
    match task.stage with
    | .committing result _ =>
      match task.recordOp settings result eventId draw with
      | some op => (op.commit began w.db).1.transitions
      | none => []
    | _ => []
  | _ => []

/-! ## Parts of the process -/

/-- `f"{self.worker_id}/{i}"`. -/
def loopId (workerId : String) (i : Nat) : String := workerId ++ "/" ++ toString i

def TaskAction.isProvider : TaskAction → Bool
  | .provider _ => true
  | _ => false

def Stage.hasEnded : Stage → Bool
  | .ended _ => true
  | _ => false

def World.hasEnded (w : World) (k : Nat) : Bool := w.tasks[k]?.any fun task => task.stage.hasEnded

def DispatchAction.toWebhook (k : Nat) : DispatchAction → WebhookAction
  | .endPost result => .endPost k result
  | .record began draw => .record k began draw
  | .abandon => .abandon k

/-- What `report` and `idle_watch` do when their sleep is over. -/
def WatchStage.next (stopping : Bool) : WatchStage := if stopping then .ended else .sleeping

namespace Process

variable (settings : Settings) (skew : String → Time) (p : Process)

/-- Whether a worker id is the one of a loop of this process. -/
def owns (worker : String) : Bool :=
  (List.range p.loops.length).any fun i => loopId p.workerId i = worker

/-- `CacheInvalidator.invalidate`; without a cache there is none to invalidate. -/
def invalidate (transitions : List Transition) : Process :=
  if settings.cacheEnabled then
    { p with invalidations := p.invalidations ++ transitions.map fun t => ⟨t, false⟩ }
  else p

/-- The invalidations that have not ended. -/
def pending : List Nat :=
  (List.range p.invalidations.length).filter fun k =>
    p.invalidations[k]?.any fun invalidation => !invalidation.ended

/-- `CacheInvalidator.drain`: wait for the tasks that there are when it is called. -/
def drain : GatherStage := if p.pending = [] then .ended else .draining p.pending

def drained (invalidations : List Nat) : Bool :=
  invalidations.all fun k => p.invalidations[k]?.all fun invalidation => invalidation.ended

/-- Whether the loop may run again: it has not started, its sleep was over or cut short, or
    every task of its batch has ended. -/
def resumable : LoopStage → Bool
  | .starting => true
  | .sleeping => true
  | .processing tasks => tasks.all p.world.hasEnded
  | _ => false

/-- `while not stop.is_set()`, and `run_batch` up to its first `await`. -/
def checkLoop (i : Nat) : Option Process :=
  if p.stopping then some { p with loops := p.loops.set i .ended }
  else
    let worker := loopId p.workerId i
    (p.world.step settings skew (.poll worker)).map fun world =>
      { p with
        world
        loops := p.loops.set i (.claiming
          ⟨worker, monotonic skew worker p.world.now + settings.leaseSeconds, p.world.now⟩) }

/-- The claim of the batch, and `_process` for each job.  A loop that claimed nothing sleeps. -/
def claimBatch (i b : Nat) (began : Time) (newToken : JobId → ClaimToken) (choices : Choices) :
    Option Process :=
  (p.world.step settings skew (.claim b began newToken choices)).map fun world =>
    let tasks := List.range' p.world.tasks.length (world.tasks.length - p.world.tasks.length)
    { p with world, loops := p.loops.set i (if tasks = [] then .sleeping else .processing tasks) }

/-- What `_deliver` tells the `CacheInvalidator`: at once when the job was put back or the result
    refunds no slot, and after the release otherwise. -/
def follow (k : Nat) (task : Task) (moved : List Transition) : TaskAction → Process
  | .returnUnsent _ => p.invalidate settings moved
  | .finalize _ _ _ =>
    match task.stage with
    | .committing result _ =>
      if result.refundSlot then { p with owed := Function.update p.owed k moved }
      else p.invalidate settings moved
    | _ => p
  | .release _ =>
    { p.invalidate settings (p.owed k) with owed := Function.update p.owed k [] }
  | _ => p

/-- What other processes, the API, the provider and the clock may do. -/
def allowsOutside : Action → Bool
  | .tick _ => true
  | .poll worker => !p.owns worker
  | .claim b _ _ _ => p.world.batches[b]?.all fun batch => !p.owns batch.worker
  | .outside _ _ => true
  | .task k action => action.isProvider || p.world.tasks[k]?.all fun task => !p.owns task.worker

/-- The statement of the reaper's pass; the buckets that the pass deletes as well are not in this
    world. -/
def reapOp (newEvent : JobId → EventId) (choices : Choices) : JobOp :=
  .reapExpiredLeases settings.reaperBatchSize settings.defaultCallbackUrl newEvent choices

/-- Dispatchers only write the outbox. -/
def writeOutbox (webhookOutbox : Outbox) : Process :=
  { p with world := { p.world with db := { p.world.db with webhookOutbox } } }

/-- The dispatches of this process, as those of a dispatcher system. -/
def webhooks : WebhookWorld := ⟨p.world.now, p.world.db, p.dispatches⟩

def withWebhooks (w : WebhookWorld) : Process :=
  { p.writeOutbox w.db.webhookOutbox with dispatches := w.dispatches }

/-- Whether the dispatcher may run again: `gather` returns when every dispatch of the batch has
    returned. -/
def dispatcherResumes : Bool :=
  match p.dispatcher with
  | .starting => true
  | .sleeping => true
  | .dispatching ks => ks.all fun k => p.dispatches[k]?.any fun dispatch => dispatch.stage = .recorded
  | _ => false

/-- The claim of `WebhookDispatcher.run_once`.  A dispatcher that claimed nothing sleeps. -/
def claimEvents (began : Time) (choices : OutboxChoices) : Option Process :=
  (p.webhooks.step settings (.claim began choices)).map fun w =>
    let new := List.range' p.dispatches.length (w.dispatches.length - p.dispatches.length)
    { p.withWebhooks w with dispatcher := if new = [] then .sleeping else .dispatching new }

/-- Everything that runs beside the loops has ended. -/
def OthersEnded : Prop :=
  p.reaper = .ended ∧ p.dispatcher = .ended ∧ p.report = .ended ∧
    ∀ stage ∈ p.idleWatch, stage = .ended

instance : Decidable p.OthersEnded := inferInstanceAs (Decidable (_ ∧ _))

def step : ProcessAction → Option Process
  | .stop => some { p with stopping := true }
  | .resumeLoop i =>
    if p.loops[i]?.any p.resumable then p.checkLoop settings skew i else none
  | .claim i b began newToken choices =>
    match p.loops[i]? with
    | some (.claiming batch) =>
      if p.world.batches[b]? = some batch then p.claimBatch settings skew i b began newToken choices
      else none
    | _ => none
  | .claimFailed i =>
    match p.loops[i]? with
    | some (.claiming _) => some { p with loops := p.loops.set i .sleeping }
    | _ => none
  | .task k action =>
    match p.world.tasks[k]? with
    | none => none
    | some task =>
      if p.owns task.worker && !action.isProvider then
        (p.world.step settings skew (.task k action)).map fun world =>
          { p with world }.follow settings k task (task.transitions settings p.world action) action
      else none
  | .resumeReaper =>
    if p.reaper = .starting ∨ p.reaper = .sleeping then
      some { p with reaper := if p.stopping then .ended else .reaping }
    else none
  | .reap began newEvent choices =>
    let op := reapOp settings newEvent choices
    if p.reaper = .reaping then
      (p.world.step settings skew (.outside op began)).map fun world =>
        { p with world, reaper := .sleeping }.invalidate settings
          (op.commit began p.world.db).1.transitions
    else none
  | .reapFailed => if p.reaper = .reaping then some { p with reaper := .sleeping } else none
  | .resumeDispatcher =>
    if p.dispatcherResumes then
      some { p with dispatcher := if p.stopping then .ended else .claiming }
    else none
  | .claimEvents began choices =>
    if p.dispatcher = .claiming then p.claimEvents settings began choices else none
  | .claimEventsFailed =>
    if p.dispatcher = .claiming then some { p with dispatcher := .sleeping } else none
  | .dispatch k action =>
    if p.dispatches[k]?.any Dispatch.underWay then
      (p.webhooks.step settings (action.toWebhook k)).map p.withWebhooks
    else none
  | .dispatchesFailed =>
    match p.dispatcher with
    | .dispatching ks =>
      if ks.any fun k => p.dispatches[k]?.any fun dispatch => dispatch.stage = .abandoned then
        some { p with dispatcher := .sleeping }
      else none
    | _ => none
  | .resumeReport =>
    if p.report ≠ .ended then some { p with report := .next p.stopping } else none
  | .resumeIdleWatch idle =>
    match p.idleWatch with
    | some stage =>
      if stage ≠ .ended then
        some { p with stopping := p.stopping || idle, idleWatch := some (.next p.stopping) }
      else none
    | none => none
  | .invalidated k =>
    match p.invalidations[k]? with
    | some ⟨transition, false⟩ =>
      some { p with invalidations := p.invalidations.set k ⟨transition, true⟩ }
    | _ => none
  | .workerGathered =>
    if p.worker = .gathering ∧ ∀ stage ∈ p.loops, stage = .ended then some { p with worker := p.drain }
    else none
  | .workerDrained =>
    match p.worker with
    | .draining ks => if p.drained ks then some { p with worker := .ended } else none
    | _ => none
  | .gathered =>
    if p.main = .gathering ∧ p.worker = .ended ∧ p.OthersEnded then some { p with main := p.drain }
    else none
  | .drained =>
    match p.main with
    | .draining ks => if p.drained ks then some { p with main := .ended } else none
    | _ => none
  | .outside action =>
    if p.allowsOutside action then
      (p.world.step settings skew action).map fun world => { p with world }
    else none
  -- whatever the dispatchers of other processes may write
  | .otherDispatchers webhookOutbox => some (p.writeOutbox webhookOutbox)

/-- The process as `run_worker` starts it, in a world that others have been at work in. -/
def initial (workerId : String) (exitWhenIdle : Bool) (world : World) : Process where
  workerId := workerId
  world := world
  stopping := false
  loops := List.replicate settings.workerConcurrency .starting
  reaper := .starting
  dispatcher := .starting
  dispatches := []
  report := .starting
  idleWatch := if exitWhenIdle then some .starting else none
  invalidations := []
  owed := fun _ => []
  worker := .gathering
  main := .gathering

/-- Nobody has used the ids of the process's loops. -/
def Unused : Prop :=
  (∀ task ∈ p.world.tasks, p.owns task.worker = false) ∧
    ∀ batch ∈ p.world.batches, p.owns batch.worker = false

end Process

section

variable (settings : Settings) (skew : String → Time)

def processSystem : System Process ProcessAction :=
  .ofStep (fun p => ∃ history workerId exitWhenIdle w,
      Run (workerSystem settings skew) history w ∧
      p = .initial settings workerId exitWhenIdle w ∧ p.Unused) (Process.step settings skew)

abbrev ProcessHistory := History Process ProcessAction

/-- For runs on given inputs: one loop, and a reaper that takes ten leases a pass. -/
def oneLoop : Settings := { Settings.default with workerConcurrency := 1, reaperBatchSize := 10 }

/-- The run of a list of actions of the first process, which watches for idleness. -/
def processRun (workerId : String) (actions : List ProcessAction) : ProcessHistory × Process :=
  runOf (Process.step settings skew) (.initial settings workerId true (.initial 0)) actions

theorem run_processRun (workerId : String) (actions : List ProcessAction) :
    Run (processSystem settings skew) (processRun settings skew workerId actions).1
      (processRun settings skew workerId actions).2 := by
  have unused : (Process.initial settings workerId true (.initial 0)).Unused := by
    constructor <;> intro _ member <;> cases member
  exact run_runOf _ ⟨[], workerId, true, .initial 0, .start ⟨0, rfl⟩, rfl, unused⟩ _

end

end NotifyQueue
