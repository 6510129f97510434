import Mathlib.Data.Rat.Floor
import NotifyQueue.Config
import NotifyQueue.Domain.Backoff
import NotifyQueue.Repositories.JobSystem
import NotifyQueue.Services.RateLimiter

/-! # The delivery workers

Translated from `worker/loop.py`: any number of `run_batch` loops, one task for each claimed
job, together with what they share — the tables, the rate limiter's keys in Redis and the
provider.  A task is `_process` running `_deliver`; its `Stage` is where it waits, and each
`TaskAction` takes it to the next `await`.

Time passes only by `tick`.  A transaction commits at the time of its action and carries the
`now()` at which it began; the provider decides on a request at any time after it was sent,
also when nobody waits for it any more. -/

namespace NotifyQueue

open Runs

/-! ## Tasks -/

/-- What the provider did with a request. -/
inductive Verdict where
  | undecided
  | accepted
  | rejected
deriving DecidableEq, Repr

/-- How `Sender.send` ended, as `_deliver` tells it apart; the last one is a timeout or any
    other exception, with the text that is stored. -/
inductive SendResult where
  | sent (providerMessageId : Option String)
  | permanentDeliveryError (message : String)
  | deliveryError (message : String)
  | exception (text : String)
deriving DecidableEq, Repr

def SendResult.error : SendResult → Option String
  | .sent _ => none
  | .permanentDeliveryError message => some ("PermanentDeliveryError: " ++ message)
  | .deliveryError message => some ("DeliveryError: " ++ message)
  | .exception text => some text

def SendResult.permanent : SendResult → Bool
  | .permanentDeliveryError _ => true
  | _ => false

def SendResult.refundSlot : SendResult → Bool
  | .permanentDeliveryError _ => true
  | .deliveryError _ => true
  | _ => false

def SendResult.providerMessageId : SendResult → Option String
  | .sent providerMessageId => providerMessageId
  | _ => none

/-- What the result says about the request: only an unexpected exception leaves it open. -/
def SendResult.agrees : SendResult → Verdict → Bool
  | .sent _, verdict => verdict = .accepted
  | .permanentDeliveryError _, verdict => verdict = .rejected
  | .deliveryError _, verdict => verdict = .rejected
  | .exception _, _ => true

inductive Ending where
  | finished
  | leaseLost
  | failed
  | crashed
deriving DecidableEq, Repr

/-- Where a task is.  `returning` has decided to put the job back unsent, after which the slot
    may be given back; `recording` waits for a connection, `committing` has one. -/
inductive Stage where
  | acquiring
  | admitted
  | returning (delaySeconds : Time) (givesBack : Bool)
  | sending (startedAt : Time)
  | recording (result : SendResult) (since : Time)
  | committing (result : SendResult) (since : Time)
  | releasing
  | ended (ending : Ending)
deriving DecidableEq, Repr

/-- `_process` for a claimed job.  `slot` is not in the code: it is the score of the slot that
    the job was admitted on. -/
structure Task where
  worker : String
  job : Job
  claimToken : ClaimToken
  leaseDeadline : Time
  stage : Stage
  request : Option Verdict
  slot : Option Int
deriving DecidableEq, Repr

/-- `run_batch` between taking its deadline and its claim. -/
structure Batch where
  worker : String
  leaseDeadline : Time
  polledAt : Time
deriving DecidableEq, Repr

abbrev Keys := String → RateKey

structure World where
  now : Time
  db : Db
  keys : Keys
  batches : List Batch
  tasks : List Task

/-! ## One task -/

/-- How a rate limiter call ends: by the script in Redis, by the fallback (which may answer
    anything), or by an exception. -/
inductive LimiterReply where
  | redis
  | fallback (retryAfter : Option Time)
  | raised
deriving DecidableEq, Repr

inductive TaskAction where
  | acquire (reply : LimiterReply)
  | checkBudget
  | returnUnsent (began : Time)
  | provider (verdict : Verdict)
  | endSend (result : SendResult)
  | connect
  | finalize (began : Time) (eventId : EventId) (draw : Time)
  | release (reachable : Bool)
  | crash

def Keys.write (keys : Keys) (recipient : String) (key : RateKey) : Keys :=
  fun other => if other = recipient then key else keys other

/-- `time.monotonic()` of a worker. -/
def monotonic (skew : String → Time) (worker : String) (now : Time) : Time := now + skew worker

def Task.to (task : Task) (stage : Stage) : Task := { task with stage }

section

variable (settings : Settings) (skew : String → Time) (w : World) (task : Task)

/-- The task and the stores after a step. -/
abbrev Effect := Task × Db × Keys

/-- The answer of the limiter: `None`, or how many seconds to wait. -/
def Task.answered (retryAfter : Option Time) : Task :=
  match retryAfter with
  | none => task.to .admitted
  | some delaySeconds => task.to (.returning delaySeconds false)

/-- `retry_after = await self._rate_limiter.acquire(job)`.  The script's error is a Redis
    error, which ends in the fallback. -/
def Task.acquire : LimiterReply → Option Effect
  | .redis =>
    let (reply, key) := acquireScript settings.windowMs settings.rateLimitPerHour.toNat
      (redisMs w.now) task.job.id (w.keys task.job.recipient)
    let keys := w.keys.write task.job.recipient key
    match reply with
    | .admitted =>
      some ({ task.answered none with slot := key.slots.score task.job.id }, w.db, keys)
    | .wait ms => some (task.answered (some ((max ms 1 : Int) / 1000)), w.db, keys)
    | .error => none
  | .fallback retryAfter => some ({ task.answered retryAfter with slot := none }, w.db, w.keys)
  | .raised => some (task.to (.ended .failed), w.db, w.keys)

/-- The budget check, and the start of the send when it passes. -/
def Task.checkBudget : Task :=
  if task.leaseDeadline - monotonic skew task.worker w.now < settings.sendBudgetSeconds then
    task.to (.returning 0 true)
  else { task.to (.sending w.now) with request := some .undecided }

/-- `_return_unsent`. -/
def Task.returnUnsent (began delaySeconds : Time) (givesBack : Bool) : Effect :=
  let (answer, db) := (JobOp.returnToQueue task.job.id task.claimToken delaySeconds).commit began w.db
  match answer with
  | .finished (some _) =>
    (task.to (if givesBack then .releasing else .ended .finished), db, w.keys)
  | _ => (task.to (.ended .leaseLost), db, w.keys)

/-- The call that records the result; `none` when `backoff_delay` raises. -/
def Task.recordOp (result : SendResult) (eventId : EventId) (draw : Time) : Option JobOp :=
  match result.error with
  | none => some (.markSent task.job.id task.claimToken (task.job.lockedBy.getD task.worker)
      result.providerMessageId settings.defaultCallbackUrl eventId)
  | some error =>
    match backoffDelay task.job.attempts settings.backoffBaseSeconds settings.backoffCapSeconds
        draw with
    | .ok retryDelay => some (.markFailed task.job.id task.claimToken
        (task.job.lockedBy.getD task.worker) error retryDelay result.permanent
        settings.defaultCallbackUrl eventId)
    | .error _ => none

/-- The transaction that records the result. -/
def Task.finalize (result : SendResult) (began : Time) (eventId : EventId) (draw : Time) : Effect :=
  match task.recordOp settings result eventId draw with
  | none => (task.to (.ended .failed), w.db, w.keys)
  | some op =>
    let (answer, db) := op.commit began w.db
    match answer with
    | .finished (some _) =>
      (task.to (if result.refundSlot then .releasing else .ended .finished), db, w.keys)
    | .finished none => (task.to (.ended .leaseLost), db, w.keys)
    | _ => (task.to (.ended .failed), db, w.keys)

/-- `await self._rate_limiter.release(job)`. -/
def Task.release (reachable : Bool) : Effect :=
  let recipient := task.job.recipient
  let key := releaseScript (redisMs w.now) task.job.id (w.keys recipient)
  (task.to (.ended .finished), w.db, if reachable then w.keys.write recipient key else w.keys)

/-- The steps of a task; `none` is an action that its stage does not allow. -/
def Task.step : TaskAction → Option Effect
  | .acquire reply => if task.stage = .acquiring then task.acquire settings w reply else none
  | .checkBudget =>
    if task.stage = .admitted then some (task.checkBudget settings skew w, w.db, w.keys) else none
  | .returnUnsent began =>
    match task.stage with
    | .returning delaySeconds givesBack =>
      if began ≤ w.now then some (task.returnUnsent w began delaySeconds givesBack) else none
    | _ => none
  | .provider verdict =>
    if task.request = some .undecided then
      some ({ task with request := some verdict }, w.db, w.keys)
    else none
  | .endSend result =>
    match task.stage with
    | .sending _ =>
      if task.request.any result.agrees then some (task.to (.recording result w.now), w.db, w.keys)
      else none
    | _ => none
  | .connect =>
    match task.stage with
    | .recording result _ => some (task.to (.committing result w.now), w.db, w.keys)
    | _ => none
  | .finalize began eventId draw =>
    match task.stage with
    | .committing result since =>
      if since ≤ began ∧ began ≤ w.now then some (task.finalize settings w result began eventId draw)
      else none
    | _ => none
  | .release reachable => if task.stage = .releasing then some (task.release w reachable) else none
  | .crash =>
    match task.stage with
    | .ended _ => none
    | _ => some (task.to (.ended .crashed), w.db, w.keys)

end

/-! ## The whole system -/

/-- What the reaper and the API call. -/
def JobOp.isOutside : JobOp → Bool
  | .createJob _ _ => true
  | .reapExpiredLeases _ _ _ _ => true
  | .requeueDeadLetter _ _ => true
  | _ => false

inductive Action where
  | tick (elapsed : Time)
  | poll (worker : String)
  | claim (batch : Nat) (began : Time) (newToken : JobId → ClaimToken) (choices : Choices)
  | outside (op : JobOp) (began : Time)
  | task (i : Nat) (action : TaskAction)

/-- One `_process` for each claimed job; `_deliver` asserts that it has a token. -/
def newTasks (worker : String) (leaseDeadline : Time) (jobs : List Job) : List Task :=
  jobs.filterMap fun job => job.claimToken.map fun claimToken =>
    { worker, job, claimToken, leaseDeadline, stage := .acquiring, request := none, slot := none }

def World.step (settings : Settings) (skew : String → Time) (w : World) : Action → Option World
  | .tick elapsed => if 0 ≤ elapsed then some { w with now := w.now + elapsed } else none
  | .poll worker =>
    some { w with batches := w.batches ++
      [⟨worker, monotonic skew worker w.now + settings.leaseSeconds, w.now⟩] }
  | .claim b began newToken choices =>
    match w.batches[b]? with
    | none => none
    | some batch =>
      if batch.polledAt ≤ began ∧ began ≤ w.now then
        let (jobs, db) := claimDueJobs began batch.worker settings.batchSize settings.leaseSeconds
          newToken choices w.db
        some { w with
          db
          batches := w.batches.eraseIdx b
          tasks := w.tasks ++ newTasks batch.worker batch.leaseDeadline jobs }
      else none
  | .outside op began =>
    if op.isOutside = true ∧ began ≤ w.now then some { w with db := (op.commit began w.db).2 }
    else none
  | .task i action =>
    match w.tasks[i]? with
    | none => none
    | some task =>
      match task.step settings skew w action with
      | none => none
      | some (task', db, keys) => some { w with db, keys, tasks := w.tasks.set i task' }

/-- Nothing has happened yet. -/
def World.initial (start : Time) : World := ⟨start, .empty, fun _ => .empty, [], []⟩

def workerSystem (settings : Settings) (skew : String → Time) : System World Action :=
  .ofStep (fun w => ∃ start, w = .initial start) (World.step settings skew)

abbrev WorkerHistory := History World Action

/-- The run of a list of actions from a start. -/
def workerRun (settings : Settings) (skew : String → Time) (start : Time) (actions : List Action) :
    WorkerHistory × World :=
  runOf (World.step settings skew) (.initial start) actions

theorem run_workerRun (settings : Settings) (skew : String → Time) (start : Time)
    (actions : List Action) :
    Run (workerSystem settings skew) (workerRun settings skew start actions).1
      (workerRun settings skew start actions).2 :=
  run_runOf _ ⟨start, rfl⟩ _

end NotifyQueue
