import NotifyQueue.Repositories.Jobs

/-! # The queries of the API

The reading half of `repositories/jobs.py`: the history of a job, the counts of the metrics
endpoint and the pages of the dead letter queue.  A query sees the tables that were committed
when it starts. -/

namespace NotifyQueue

open Tables (RowOrder pageRows)

/-- `SELECT ... FROM job_attempts WHERE job_id = :id ORDER BY attempt_no`. -/
def getJobAttempts (db : Db) (jobId : JobId) : List JobAttempt :=
  (db.jobAttempts.select fun attempt => attempt.jobId = jobId).insertionSort fun a b =>
    a.attemptNo ≤ b.attemptNo

/-! ## Metrics -/

structure JobCounts where
  pending : Nat
  pendingDue : Nat
  scheduled : Nat
  retrying : Nat
  processing : Nat
  sent : Nat
  deadLettered : Nat
  failedAttempts : Nat
  webhooksPending : Nat
deriving DecidableEq, Repr

/-- One pass over `jobs` for the metrics endpoint. -/
def jobCounts (now : Time) (db : Db) : JobCounts where
  pending := db.jobs.rows.countP fun row => row.status = .pending
  pendingDue := db.jobs.rows.countP fun row => row.status = .pending && row.runAt ≤ now
  scheduled := db.jobs.rows.countP fun row =>
    row.status = .pending && now < row.runAt && row.lastError.isNone
  retrying := db.jobs.rows.countP fun row => row.status = .pending && row.lastError.isSome
  processing := db.jobs.rows.countP fun row => row.status = .processing
  sent := db.jobs.rows.countP fun row => row.status = .sent
  deadLettered := db.jobs.rows.countP fun row => row.status = .deadLettered
  failedAttempts := db.jobAttempts.rows.countP fun attempt => attempt.outcome ≠ .sent
  webhooksPending := db.webhookOutbox.rows.countP fun event => event.status = .pending

/-! ## Dead letters -/

/-- A row of the list: the dead letter and the columns of its job. -/
structure DeadLetterOut where
  jobId : JobId
  reason : String
  attempts : Int
  lastError : Option String
  deadLetteredAt : Time
  recipient : String
  channel : Channel
  priority : Priority
  payload : String
deriving DecidableEq, Repr

def DeadLetter.out (letter : DeadLetter) (job : Job) : DeadLetterOut where
  jobId := letter.jobId
  reason := letter.reason
  attempts := letter.attempts
  lastError := letter.lastError
  deadLetteredAt := letter.deadLetteredAt
  recipient := job.recipient
  channel := job.channel
  priority := job.priority
  payload := job.payload

/-- `FROM dead_letters d JOIN jobs j ON j.id = d.job_id`. -/
def deadLetterRows (db : Db) : List DeadLetterOut :=
  db.deadLetters.rows.filterMap fun letter => (db.jobs.lookup letter.jobId).map letter.out

/-- `ORDER BY d.dead_lettered_at DESC`. -/
def newestFirst (a b : DeadLetterOut) : Prop := b.deadLetteredAt ≤ a.deadLetteredAt

instance : DecidableRel newestFirst := fun _ _ => inferInstanceAs (Decidable (_ ≤ _))

/-- `scan` is the order in which the rows come to the sort, which decides ties. -/
def listDeadLetters (limit offset : Nat) (scan : RowOrder DeadLetterOut) (db : Db) :
    List DeadLetterOut :=
  pageRows scan newestFirst limit offset (deadLetterRows db)

end NotifyQueue
