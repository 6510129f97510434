import NotifyQueue.Domain.Models
import NotifyQueue.Lib.Tables

/-! # The tables of the job queue

Translated from `migrations/versions/0001_initial.py`.  Every table carries its
primary key and its unique constraint, so a state that violates one cannot be built;
an insert that would violate one aborts its transaction.

The `CHECK` on `jobs.max_attempts` is tested by the statements that write the column.
The foreign keys to `jobs` are left out: no statement deletes a job, and every id written
to a satellite table comes from a row that the same transaction updated. -/

namespace NotifyQueue

open Tables (Table Violation)

structure Delivery where
  jobId : JobId
  workerId : String
  providerMessageId : Option String
  deliveredAt : Time
deriving DecidableEq, Repr

structure DeadLetter where
  jobId : JobId
  reason : String
  attempts : Int
  lastError : Option String
  deadLetteredAt : Time
deriving DecidableEq, Repr

/-- The JSON of a webhook event; a key that an event does not have is `none`. -/
structure WebhookPayload where
  eventId : EventId
  jobId : JobId
  event : WebhookEvent
  status : String
  recipient : String
  channel : Channel
  attempts : Int
  maxAttempts : Option Int
  error : Option String
  reason : Option String
  nextAttemptAt : Option Time
  sentAt : Option Time
deriving DecidableEq, Repr

inductive OutboxStatus where
  | pending
  | delivered
  | failed
deriving DecidableEq, Repr

structure OutboxRow where
  id : EventId
  jobId : JobId
  event : WebhookEvent
  payload : WebhookPayload
  targetUrl : String
  status : OutboxStatus
  attempts : Int
  nextAttemptAt : Time
  lastError : Option String
  createdAt : Time
  deliveredAt : Option Time
deriving DecidableEq, Repr

/-- A table without a unique constraint besides its primary key. -/
def noUniqueColumn {ρ : Type} (_ : ρ) : Option Unit := none

theorem noUniqueColumn_keeps {ρ : Type} (set : ρ → ρ) (row : ρ) :
    noUniqueColumn (set row) = noUniqueColumn row := rfl

def JobAttempt.key (attempt : JobAttempt) : JobId × Int := (attempt.jobId, attempt.attemptNo)

/-- The tables that the job operations read and write. -/
@[ext] structure Db where
  jobs : Table Job.id Job.idempotencyKey
  deliveries : Table Delivery.jobId noUniqueColumn
  deadLetters : Table DeadLetter.jobId noUniqueColumn
  jobAttempts : Table JobAttempt.key noUniqueColumn
  webhookOutbox : Table OutboxRow.id noUniqueColumn
deriving DecidableEq

def Db.empty : Db := ⟨.empty, .empty, .empty, .empty, .empty⟩

inductive TableName where
  | jobs
  | deliveries
  | deadLetters
  | jobAttempts
  | webhookOutbox
deriving DecidableEq, Repr

/-- The exceptions that roll a transaction back. -/
inductive Abort where
  | conflict (table : TableName) (violation : Violation)
  | maxAttemptsCheck
  | runtimeError (message : String)
deriving DecidableEq, Repr

/-- What Postgres chooses in a statement that locks rows: which rows other transactions
    hold (`SKIP LOCKED` passes over them), the order in which it scans, which decides
    ties of `ORDER BY`, and the order in which `RETURNING` yields rows. -/
structure Choices where
  locked : JobId → Bool
  scan : Tables.RowOrder Job
  returned : Tables.RowOrder Job

/-- No other transaction, and every order as stored. -/
def Choices.alone : Choices := ⟨fun _ => false, .stored, .stored⟩

/-- A `SET` clause that writes neither the primary key nor the unique column. -/
def KeepsKeys (set : Job → Job) : Prop :=
  ∀ row, (set row).id = row.id ∧ (set row).idempotencyKey = row.idempotencyKey

namespace Db

def insertJob (db : Db) (row : Job) : Except Violation Db :=
  match db.jobs.insert row with
  | .ok jobs => .ok { db with jobs }
  | .error violation => .error violation

def insertDelivery (db : Db) (row : Delivery) : Except Abort Db :=
  match db.deliveries.insert row with
  | .ok deliveries => .ok { db with deliveries }
  | .error violation => .error (.conflict .deliveries violation)

def insertDeadLetter (db : Db) (row : DeadLetter) : Except Abort Db :=
  match db.deadLetters.insert row with
  | .ok deadLetters => .ok { db with deadLetters }
  | .error violation => .error (.conflict .deadLetters violation)

def insertJobAttempt (db : Db) (row : JobAttempt) : Except Abort Db :=
  match db.jobAttempts.insert row with
  | .ok jobAttempts => .ok { db with jobAttempts }
  | .error violation => .error (.conflict .jobAttempts violation)

def insertOutboxRow (db : Db) (row : OutboxRow) : Except Abort Db :=
  match db.webhookOutbox.insert row with
  | .ok webhookOutbox => .ok { db with webhookOutbox }
  | .error violation => .error (.conflict .webhookOutbox violation)

/-- `UPDATE jobs SET set WHERE matches`. -/
def updateJobs (db : Db) (rows : Job → Bool) (set : Job → Job) (keeps : KeepsKeys set) : Db :=
  { db with jobs := db.jobs.update rows set (fun row => (keeps row).1) (fun row => (keeps row).2) }

/-- `DELETE FROM dead_letters WHERE job_id = :id`. -/
def deleteDeadLetter (db : Db) (jobId : JobId) : Db :=
  { db with deadLetters := db.deadLetters.delete fun row => row.jobId = jobId }

end Db

end NotifyQueue
