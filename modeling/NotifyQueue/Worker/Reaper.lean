import NotifyQueue.Config
import NotifyQueue.Repositories.JobSystem
import NotifyQueue.Repositories.RateLimitBuckets

/-! # The reaper

Translated from `worker/reaper.py`.  Every worker process runs one, so any number of them pass
over the tables, between the transactions of the workers and of the API. -/

namespace NotifyQueue

open Runs

/-- The tables that the reaper writes. -/
structure QueueTables where
  db : Db
  buckets : Buckets

/-- `Reaper.run_once`: one transaction.  The transitions that it returns are the ones that it
    then hands to the `CacheInvalidator`. -/
def Reaper.runOnce (settings : Settings) (now : Time) (newEvent : JobId → EventId)
    (choices : Choices) (tables : QueueTables) : Except Abort (List Transition × QueueTables) := do
  let (reaped, db) ← reapExpiredLeases now settings.reaperBatchSize settings.defaultCallbackUrl
    newEvent choices tables.db
  let (_, buckets) :=
    deleteOldRateLimitBuckets now settings.rateLimitWindowSeconds tables.buckets
  return (reaped, ⟨db, buckets⟩)

/-! ## Passes among the other transactions -/

inductive QueueAction where
  | pass (newEvent : JobId → EventId) (choices : Choices)
  | call (op : JobOp)
  | acquire (recipient : String) (limit : Int)

/-- One transaction, at its `now()`.  `Reaper.run` logs the exception of a pass and goes on. -/
structure QueueStep where
  action : QueueAction
  now : Time

def QueueStep.commit (settings : Settings) (tables : QueueTables) (step : QueueStep) :
    QueueTables :=
  match step.action with
  | .pass newEvent choices =>
    match Reaper.runOnce settings step.now newEvent choices tables with
    | .ok (_, committed) => committed
    | .error _ => tables
  | .call op => { tables with db := (op.commit step.now tables.db).2 }
  | .acquire recipient limit =>
    { tables with
      buckets := (tryAcquireRateLimit step.now recipient limit settings.rateLimitWindowSeconds
        tables.buckets).2 }

def reaperSystem (settings : Settings) : System QueueTables QueueStep :=
  .ofStep (fun tables => tables.db = .empty ∧ tables.buckets = .empty)
    fun tables step => some (step.commit settings tables)

abbrev ReaperHistory := History QueueTables QueueStep

/-- The steps, one after another, from given tables on. -/
def reaperRun (settings : Settings) (start : QueueTables) (steps : List QueueStep) :
    ReaperHistory × QueueTables :=
  runOf (fun tables step => some (step.commit settings tables)) start steps

theorem run_reaperRun (settings : Settings) (start : QueueTables) (steps : List QueueStep) :
    Run ((reaperSystem settings).startingAt start) (reaperRun settings start steps).1
      (reaperRun settings start steps).2 := by
  have initial : ((reaperSystem settings).startingAt start).init start := rfl
  exact run_runOf _ initial steps

theorem run_reaperRun_empty (settings : Settings) (steps : List QueueStep) :
    Run (reaperSystem settings) (reaperRun settings ⟨.empty, .empty⟩ steps).1
      (reaperRun settings ⟨.empty, .empty⟩ steps).2 := by
  have initial : (reaperSystem settings).init ⟨.empty, .empty⟩ := ⟨rfl, rfl⟩
  exact run_runOf _ initial steps

/-- For runs on given inputs: passes that take one lease each. -/
def oneAtATime : Settings :=
  { Settings.default with
    reaperBatchSize := 1
    rateLimitWindowSeconds := 60
    defaultCallbackUrl := "http://localhost/hooks" }

/-- A worker claims two jobs for ten seconds and is not heard of again. -/
def abandonClaims : List QueueStep :=
  [⟨.call (.createJob 1 (sampleJob 3)), 0⟩, ⟨.call (.createJob 2 (sampleJob 1)), 1⟩,
    ⟨.acquire "ada@example.com" 10, 2⟩, ⟨.call (.claimDueJobs "w1" 2 10 (fun j => j + 50) .alone), 5⟩]

end NotifyQueue
