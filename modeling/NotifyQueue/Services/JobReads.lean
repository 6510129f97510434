import NotifyQueue.Domain.Schemas
import NotifyQueue.Repositories.Queries

/-! # Reading a job with its history

Translated from `JobService.get` in `services/scheduler.py`.  Its two `SELECT`s run in one READ
COMMITTED transaction, in which each sees the tables that are committed when it starts. -/

namespace NotifyQueue

/-- A `JobOut` together with its `attempt_history`. -/
structure JobRead where
  job : JobOut
  attemptHistory : Option (List JobAttemptOut)
deriving DecidableEq, Repr

/-- `cached` is the answer of the cache, `first` and `second` are the tables that the two
    `SELECT`s see.  The second component is the job that is put into the cache. -/
def JobService.get (jobId : JobId) (includeAttempts : Bool) (cached : Option JobOut)
    (first second : Db) : Option JobRead × Option JobOut :=
  match if includeAttempts then none else cached with
  | some job => (some ⟨job, none⟩, none)
  | none =>
    match getJob first jobId with
    | none => (none, none)
    | some job =>
      let attempts := if includeAttempts then some (getJobAttempts second jobId) else none
      let out := JobOut.fromDomain job
      (some ⟨out, attempts.map fun attempts => attempts.map .fromDomain⟩, some out)

end NotifyQueue
