import NotifyQueue.Cache.JobCache
import NotifyQueue.Repositories.JobSystem

/-! # Scheduling

Translated from `JobService.schedule` and the `JobService.get` it calls, in
`services/scheduler.py`, for any number of calls at once.  The `Stage` of a call is the
`await` it waits at: a call to Redis, the `INSERT`, or a `SELECT`; the two statements of
`create_job` are two steps, since a `SELECT` sees what is committed when it starts.

The hash of a request is a parameter.  What others do meanwhile is part of the system: the
job operations of the workers, what other readers and the workers write to the job cache, and
entries that Redis drops. -/

namespace NotifyQueue

open Runs

/-- `SEND_AT_GRACE`: tolerate small client/server clock skew on `send_at`. -/
def sendAtGrace : Time := 5

/-- What a call ends with.  `raised` is any exception but the two of the service. -/
inductive ScheduleOutcome where
  | returned (job : JobOut) (created : Bool)
  | invalidSchedule
  | idempotencyConflict (jobId : JobId)
  | aborted (abort : Abort)
  | valueError (message : String)
deriving DecidableEq, Repr

namespace Scheduling

inductive Stage where
  | lookingUp (key : String)
  | reading (jobId : JobId)
  | selecting (jobId : JobId)
  | puttingRead (job : JobOut)
  | inserting
  | rereading
  | puttingKey (key : String) (job : Job) (created : Bool)
  | putting (job : JobOut) (created : Bool)
  | done (outcome : ScheduleOutcome)
deriving DecidableEq, Repr

structure Call where
  request : ScheduleJobRequest
  submittedAt : Time
  stage : Stage
deriving DecidableEq

inductive CallAction where
  | redis (reply : RedisReply)
  | insert (id : JobId) (began : Time)
  | select

structure World where
  now : Time
  db : Db
  redis : Redis
  calls : List Call

inductive Action where
  | tick (elapsed : Time)
  | submit (request : ScheduleJobRequest)
  | call (i : Nat) (action : CallAction)
  | outside (op : JobOp) (began : Time)
  | putRead (job : JobOut) (reply : RedisReply)
  | invalidate (jobId : JobId) (newVersion : Int) (reply : RedisReply)
  | dropJob (jobId : JobId)
  | dropKey (key : String)

section

variable (settings : Settings) (requestHash : ScheduleJobRequest → String)

/-- `request.max_attempts or self._settings.max_attempts`. -/
def maxAttempts (request : ScheduleJobRequest) : Int :=
  match request.maxAttempts with
  | some attempts => if attempts = 0 then settings.maxAttempts else attempts
  | none => settings.maxAttempts

def newJob (request : ScheduleJobRequest) : NewJob where
  recipient := request.recipient
  channel := request.channel
  payload := request.payload
  priority := request.priority
  maxAttempts := maxAttempts settings request
  requestHash := requestHash request
  idempotencyKey := request.idempotencyKey
  sendAt := request.sendAt
  delaySeconds := request.delaySeconds
  callbackUrl := request.callbackUrl

/-- The first check, at the time at which the call starts. -/
def tooLate (request : ScheduleJobRequest) (now : Time) : Bool :=
  request.sendAt.any fun sendAt => sendAt < now - sendAtGrace

/-- The call up to its first `await`. -/
def submit (request : ScheduleJobRequest) (now : Time) : Call where
  request := request
  submittedAt := now
  stage :=
    if tooLate request now then .done .invalidSchedule
    else
      match request.idempotencyKey with
      | some key => .lookingUp key
      | none => .inserting

/-- After `create_job`: refuse another request's key, or cache what was returned. -/
def afterCreate (request : ScheduleJobRequest) (job : Job) (created : Bool) : Stage :=
  if created = false ∧ job.requestHash ≠ requestHash request then .done (.idempotencyConflict job.id)
  else
    match request.idempotencyKey with
    | some key => .puttingKey key job created
    | none => .putting (.fromDomain job) created

/-- The stage and the stores after a step; `none` is an action that the stage does not wait for. -/
def callStep (w : World) (request : ScheduleJobRequest) :
    Stage → CallAction → Option (Stage × Db × Redis)
  | .lookingUp key, .redis reply =>
    match JobCache.getIdempotency w.now key reply w.redis with
    | .error message => some (.done (.valueError message), w.db, w.redis)
    | .ok none => some (.inserting, w.db, w.redis)
    | .ok (some (jobId, cachedHash)) =>
      if cachedHash ≠ requestHash request then
        some (.done (.idempotencyConflict jobId), w.db, w.redis)
      else some (.reading jobId, w.db, w.redis)
  | .reading jobId, .redis reply =>
    match JobCache.get w.now jobId reply w.redis with
    | some job => some (.done (.returned job false), w.db, w.redis)
    | none => some (.selecting jobId, w.db, w.redis)
  | .selecting jobId, .select =>
    match getJob w.db jobId with
    | some job => some (.puttingRead (.fromDomain job), w.db, w.redis)
    | none => some (.inserting, w.db, w.redis)
  | .puttingRead job, .redis reply =>
    some (.done (.returned job false), w.db, (JobCache.put settings w.now job reply w.redis).2)
  | .inserting, .insert id began =>
    if began ≤ w.now then
      match insertJob began id (newJob settings requestHash request) w.db with
      | .error abort => some (.done (.aborted abort), w.db, w.redis)
      | .ok (some job, db) => some (afterCreate requestHash request job true, db, w.redis)
      | .ok (none, db) => some (.rereading, db, w.redis)
    else none
  | .rereading, .select =>
    match existingJob w.db (newJob settings requestHash request) with
    | .error abort => some (.done (.aborted abort), w.db, w.redis)
    | .ok job => some (afterCreate requestHash request job false, w.db, w.redis)
  | .puttingKey key job created, .redis reply =>
    some (.putting (.fromDomain job) created, w.db,
      JobCache.putIdempotency settings w.now key job.id job.requestHash reply w.redis)
  | .putting job created, .redis reply =>
    some (.done (.returned job created), w.db, (JobCache.put settings w.now job reply w.redis).2)
  | _, _ => none

/-- The workers, the reaper and the operators never create a job. -/
def isOutside : JobOp → Bool
  | .createJob _ _ => false
  | _ => true

def World.step (w : World) : Action → Option World
  | .tick elapsed => if 0 ≤ elapsed then some { w with now := w.now + elapsed } else none
  | .submit request => some { w with calls := w.calls ++ [submit request w.now] }
  | .call i action =>
    match w.calls[i]? with
    | none => none
    | some call =>
      match callStep settings requestHash w call.request call.stage action with
      | none => none
      | some (stage, db, redis) =>
        some { w with db, redis, calls := w.calls.set i { call with stage } }
  | .outside op began =>
    if isOutside op = true ∧ began ≤ w.now then some { w with db := (op.commit began w.db).2 }
    else none
  | .putRead job reply => some { w with redis := (JobCache.put settings w.now job reply w.redis).2 }
  | .invalidate jobId newVersion reply =>
    some { w with redis := (JobCache.invalidate settings w.now jobId newVersion reply w.redis).2 }
  | .dropJob jobId => some { w with redis := w.redis.setJob jobId none }
  | .dropKey key => some { w with redis := w.redis.setIdem key none }

/-- Nothing has happened yet. -/
def World.initial (start : Time) : World := ⟨start, .empty, .empty, []⟩

def scheduling : System World Action :=
  .ofStep (fun w => ∃ start, w = .initial start) (World.step settings requestHash)

/-- The actions that are left when the cache is disabled: every call to Redis returns its
    default, and nothing reaches Redis. -/
def Action.uncached : Action → Bool
  | .call _ (.redis reply) => reply = .failed false
  | .putRead _ reply => reply = .failed false
  | .invalidate _ _ reply => reply = .failed false
  | _ => true

def uncachedStep (w : World) (action : Action) : Option World :=
  if action.uncached then w.step settings requestHash action else none

/-- The service with `cache_enabled` off. -/
def uncachedScheduling : System World Action :=
  .ofStep (fun w => ∃ start, w = .initial start) (uncachedStep settings requestHash)

abbrev ScheduleHistory := History World Action

/-- The run of a list of actions from a start. -/
def scheduleRun (start : Time) (actions : List Action) : ScheduleHistory × World :=
  runOf (World.step settings requestHash) (.initial start) actions

theorem run_scheduleRun (start : Time) (actions : List Action) :
    Run (scheduling settings requestHash) (scheduleRun settings requestHash start actions).1
      (scheduleRun settings requestHash start actions).2 :=
  run_runOf _ ⟨start, rfl⟩ _

end

end Scheduling

end NotifyQueue
