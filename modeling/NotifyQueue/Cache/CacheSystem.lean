import NotifyQueue.Cache.JobTexts
import NotifyQueue.Repositories.JobSystem

/-! # The read cache among its readers and writers

`JobService.get` and `schedule` put what they read from Postgres, and whatever moved a job hands
its transition to `JobCache.invalidate` after the commit, the workers and the reaper through the
background tasks of `CacheInvalidator`.  Each of these calls may come at any time after the read
or the commit that it is about, more than once, or never: a process may die before it, and
`Cache.call` swallows an error of Redis.  Redis may drop a key at any time.

The `SELECT` of a `create_job` that lost a race for a key is a `read`, which may see commits that
came after the lost insert. -/

namespace NotifyQueue

open Runs

structure CacheWorld where
  now : Time
  db : Db
  texts : JobTexts
  reads : List JobOut
  transitions : List Transition

inductive CacheAction where
  | tick (elapsed : Time)
  | job (op : JobOp) (began : Time)
  | read (jobId : JobId)
  | put (job : JobOut) (reply : RedisReply)
  | invalidate (transition : Transition) (reply : RedisReply)
  | dropJob (jobId : JobId)

/-- The state changes that a call returns, each to be invalidated. -/
def Answer.transitions : Answer → List Transition
  | .finished result => result.toList
  | .reaped transitions => transitions
  | _ => []

/-- What `schedule` puts: the job that `create_job` returned. -/
def Answer.reads : Answer → List JobOut
  | .created job _ => [.fromDomain job]
  | _ => []

section

variable (json : JobJson) (settings : Settings)

def CacheWorld.step (w : CacheWorld) : CacheAction → Option CacheWorld
  | .tick elapsed => if 0 ≤ elapsed then some { w with now := w.now + elapsed } else none
  | .job op began =>
    if began ≤ w.now then
      let (answer, db) := op.commit began w.db
      some { w with
        db
        reads := w.reads ++ answer.reads
        transitions := w.transitions ++ answer.transitions }
    else none
  | .read jobId =>
    match getJob w.db jobId with
    | some job => some { w with reads := w.reads ++ [.fromDomain job] }
    | none => some w
  | .put job reply =>
    if job ∈ w.reads then some { w with texts := (w.texts.put json settings w.now job reply).2 }
    else none
  | .invalidate transition reply =>
    if transition ∈ w.transitions then
      some { w with
        texts := (w.texts.invalidate settings w.now transition.jobId transition.version reply).2 }
    else none
  | .dropJob jobId => some { w with texts := w.texts.write jobId none }

/-- Nothing has happened yet. -/
def CacheWorld.initial (start : Time) : CacheWorld := ⟨start, .empty, fun _ => none, [], []⟩

def cacheSystem : System CacheWorld CacheAction :=
  .ofStep (fun w => ∃ start, w = .initial start) (CacheWorld.step json settings)

abbrev CacheHistory := History CacheWorld CacheAction

/-- The run of a list of actions from a start. -/
def cacheRun (start : Time) (actions : List CacheAction) : CacheHistory × CacheWorld :=
  runOf (CacheWorld.step json settings) (.initial start) actions

theorem run_cacheRun (start : Time) (actions : List CacheAction) :
    Run (cacheSystem json settings) (cacheRun json settings start actions).1
      (cacheRun json settings start actions).2 :=
  run_runOf _ ⟨start, rfl⟩ _

end

end NotifyQueue
