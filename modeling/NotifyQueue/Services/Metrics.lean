import NotifyQueue.Cache.MetricsCache
import NotifyQueue.Repositories.JobSystem
import NotifyQueue.Repositories.Queries

/-! # The metrics endpoint

Translated from `services/metrics.py`: `snapshot` is a call of `MetricsCache.get_or_compute` whose
`compute` runs `job_counts`.  In `MetricsService.system` any number of snapshots are taken while
the job operations go on; a count sees the tables that are committed when it starts, and its
result takes any time to come back and to be cached. -/

namespace NotifyQueue

open Runs

/-- The JSON of the endpoint.  `failed` is the count of jobs that wait to retry. -/
structure Metrics where
  pending : Nat
  pendingDue : Nat
  scheduled : Nat
  failed : Nat
  processing : Nat
  sent : Nat
  failedAttemptsTotal : Nat
  deadLettered : Nat
  webhooksPending : Nat
  generatedAt : Time
deriving DecidableEq, Repr

namespace MetricsService

/-- `_compute`: `now` is the database's, `generatedAt` the clock of the API process. -/
def compute (now generatedAt : Time) (db : Db) : Metrics :=
  let counts := jobCounts now db
  { pending := counts.pending
    pendingDue := counts.pendingDue
    scheduled := counts.scheduled
    failed := counts.retrying
    processing := counts.processing
    sent := counts.sent
    failedAttemptsTotal := counts.failedAttempts
    deadLettered := counts.deadLettered
    webhooksPending := counts.webhooksPending
    generatedAt := generatedAt }

structure World where
  caches : MetricsCache.World Metrics
  db : Db

/-- `count i` is the `SELECT` of the snapshot `i`; `began` is the `now()` of a transaction that
    commits now. -/
inductive Action where
  | operate (op : JobOp) (began : Time)
  | count (i : Nat) (generatedAt : Time)
  | cache (action : MetricsCache.Action Metrics)

/-- What `compute` returns is what it counted. -/
def isComputed : MetricsCache.Action Metrics → Bool
  | .caller _ (.computed _) => true
  | _ => false

def World.step (settings : Settings) (w : World) : Action → Option World
  | .operate op began =>
    if began ≤ w.caches.now then some { w with db := (op.commit began w.db).2 } else none
  | .count i generatedAt =>
    (w.caches.step settings (.caller i (.computed (compute w.caches.now generatedAt w.db)))).map
      fun caches => { w with caches }
  | .cache action =>
    if isComputed action then none
    else (w.caches.step settings action).map fun caches => { w with caches }

/-- Nothing has happened yet. -/
def World.initial (start : Time) : World := ⟨.initial start, .empty⟩

def system (settings : Settings) : System World Action :=
  .ofStep (fun w => ∃ start, w = .initial start) (World.step settings)

/-- The run of a list of actions from a start. -/
def run (settings : Settings) (start : Time) (actions : List Action) :
    History World Action × World :=
  runOf (World.step settings) (.initial start) actions

theorem run_run (settings : Settings) (start : Time) (actions : List Action) :
    Run (system settings) (run settings start actions).1 (run settings start actions).2 :=
  run_runOf _ ⟨start, rfl⟩ _

end MetricsService

end NotifyQueue
