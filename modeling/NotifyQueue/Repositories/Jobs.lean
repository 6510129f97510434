import NotifyQueue.Repositories.Schema

/-! # The SQL of the job queue

Translated from `repositories/jobs.py`.  Each function is one transaction body: it takes
the tables and returns its result with the new tables, or the exception that rolls
it back.  `now` is the transaction's `now()`.  What the database draws is a parameter: the
UUIDs, and the `Choices` of the statements that lock rows. -/

namespace NotifyQueue

open Tables (topRows)

/-- A committed state change: which job moved and its new version. -/
structure Transition where
  jobId : JobId
  version : Int
  status : JobStatus
deriving DecidableEq, Repr

def transition (row : Job) : Transition := ⟨row.id, row.version, row.status⟩

/-- Python's `callback_url or default_callback_url`: an empty string counts as missing. -/
def targetUrl (callbackUrl : Option String) (defaultCallbackUrl : String) : String :=
  match callbackUrl with
  | some url => if url = "" then defaultCallbackUrl else url
  | none => defaultCallbackUrl

/-! ## Creating and reading jobs -/

/-- `COALESCE(:send_at, now() + make_interval(secs => COALESCE(:delay_seconds, 0)))`. -/
def NewJob.firstRunAt (new : NewJob) (now : Time) : Time :=
  new.sendAt.getD (now + new.delaySeconds.getD 0)

/-- The row that `_INSERT_JOB` builds; the other columns take their defaults. -/
def NewJob.row (new : NewJob) (id : JobId) (now : Time) : Job where
  id := id
  idempotencyKey := new.idempotencyKey
  requestHash := new.requestHash
  recipient := new.recipient
  channel := new.channel
  payload := new.payload
  priority := new.priority
  status := .pending
  runAt := new.firstRunAt now
  attempts := 0
  maxAttempts := new.maxAttempts
  lastError := none
  claimToken := none
  lockedBy := none
  claimedAt := none
  leaseExpiresAt := none
  callbackUrl := new.callbackUrl
  version := 1
  createdAt := now
  updatedAt := now
  sentAt := none

/-- `_INSERT_JOB`: `none` is `ON CONFLICT (idempotency_key) DO NOTHING`.  The `CHECK` is
    tested before the conflict is looked for. -/
def insertJob (now : Time) (id : JobId) (new : NewJob) (db : Db) : Except Abort (Option Job × Db) :=
  if new.maxAttempts < 1 then .error .maxAttemptsCheck
  else
    match db.insertJob (new.row id now) with
    | .ok db => .ok (some (new.row id now), db)
    | .error .uniqueKey => .ok (none, db)
    | .error .primaryKey => .error (.conflict .jobs .primaryKey)

def getJob (db : Db) (jobId : JobId) : Option Job := db.jobs.lookup jobId

def getJobByIdempotencyKey (db : Db) : Option String → Option Job
  | none => none
  | some key => db.jobs.rows.find? fun row => row.idempotencyKey = some key

/-- The `SELECT` that follows a conflicting insert in `create_job`. -/
def existingJob (db : Db) (new : NewJob) : Except Abort Job :=
  match getJobByIdempotencyKey db new.idempotencyKey with
  | some job => .ok job
  | none => .error (.runtimeError "idempotency conflict but no existing job found")

/-- Insert a job, or return the existing one for a repeated idempotency key. -/
def createJob (now : Time) (id : JobId) (new : NewJob) (db : Db) :
    Except Abort ((Job × Bool) × Db) := do
  let (row, db) ← insertJob now id new db
  match row with
  | some job => return ((job, true), db)
  | none =>
    let existing ← existingJob db new
    return ((existing, false), db)

/-! ## Claiming -/

def isDue (now : Time) (row : Job) : Bool := row.status = .pending && row.runAt ≤ now

/-- `ORDER BY priority DESC, run_at ASC`. -/
def claimOrder (a b : Job) : Prop :=
  b.priority.value < a.priority.value ∨ a.priority.value = b.priority.value ∧ a.runAt ≤ b.runAt

instance : DecidableRel claimOrder := fun _ _ => inferInstanceAs (Decidable (_ ∨ _))

/-- The CTE `due`. -/
def dueJobs (now : Time) (batchSize : Nat) (choices : Choices) (db : Db) : List Job :=
  topRows choices.scan claimOrder batchSize
    (db.jobs.select fun row => isDue now row && !choices.locked row.id)

/-- The `SET` of `_CLAIM_DUE_JOBS`. -/
def claimedRow (now : Time) (workerId : String) (leaseSeconds : Time)
    (newToken : JobId → ClaimToken) (row : Job) : Job :=
  { row with
    status := .processing
    claimToken := some (newToken row.id)
    lockedBy := some workerId
    claimedAt := some now
    leaseExpiresAt := some (now + leaseSeconds)
    attempts := row.attempts + 1
    version := row.version + 1
    updatedAt := now }

theorem claimedRow_keeps (now : Time) (workerId : String) (leaseSeconds : Time)
    (newToken : JobId → ClaimToken) : KeepsKeys (claimedRow now workerId leaseSeconds newToken) :=
  fun _ => ⟨rfl, rfl⟩

/-- The key of Python's `jobs.sort`: `(-job.priority, job.run_at)`, compared as tuples. -/
def sortsBefore (a b : Job) : Prop :=
  -a.priority.value < -b.priority.value ∨
    -a.priority.value = -b.priority.value ∧ a.runAt ≤ b.runAt

instance : DecidableRel sortsBefore := fun _ _ => inferInstanceAs (Decidable (_ ∨ _))

/-- Whether a row is one of the rows that the CTE of the statement selected. -/
def selected (rows : List Job) (row : Job) : Bool := rows.any fun other => other.id = row.id

/-- Atomically claim up to `batchSize` due jobs, highest priority first. -/
def claimDueJobs (now : Time) (workerId : String) (batchSize : Nat) (leaseSeconds : Time)
    (newToken : JobId → ClaimToken) (choices : Choices) (db : Db) : List Job × Db :=
  let due := dueJobs now batchSize choices db
  let claim := claimedRow now workerId leaseSeconds newToken
  let jobs := choices.returned.arrange (db.jobs.returning (selected due) claim)
  -- UPDATE ... RETURNING does not preserve the CTE's order
  (jobs.insertionSort sortsBefore, db.updateJobs (selected due) claim (claimedRow_keeps _ _ _ _))

/-! ## Attempts and webhook events -/

def recordAttempt (db : Db) (now : Time) (jobId : JobId) (attemptNo : Int)
    (workerId : Option String) (outcome : AttemptOutcome) (error : Option String)
    (startedAt : Option Time) : Except Abort Db :=
  db.insertJobAttempt ⟨jobId, attemptNo, workerId, outcome, error, startedAt, now⟩

/-- The row that `enqueue_webhook` inserts; the delivery columns take their defaults. -/
def outboxRow (now : Time) (targetUrl : String) (payload : WebhookPayload) : OutboxRow where
  id := payload.eventId
  jobId := payload.jobId
  event := payload.event
  payload := payload
  targetUrl := targetUrl
  status := .pending
  attempts := 0
  nextAttemptAt := now
  lastError := none
  createdAt := now
  deliveredAt := none

/-- Add a status-change event to the transactional outbox. -/
def enqueueWebhook (db : Db) (now : Time) (targetUrl : String) (payload : WebhookPayload) :
    Except Abort Db :=
  db.insertOutboxRow (outboxRow now targetUrl payload)

def sentPayload (eventId : EventId) (row : Job) : WebhookPayload :=
  { eventId := eventId, jobId := row.id, event := .sent, status := "sent"
    recipient := row.recipient, channel := row.channel, attempts := row.attempts
    maxAttempts := none, error := none, reason := none, nextAttemptAt := none
    sentAt := row.sentAt }

def deadLetteredPayload (eventId : EventId) (row : Job) (error reason : String) : WebhookPayload :=
  { eventId := eventId, jobId := row.id, event := .deadLettered, status := "dead_lettered"
    recipient := row.recipient, channel := row.channel, attempts := row.attempts
    maxAttempts := some row.maxAttempts, error := some error, reason := some reason
    nextAttemptAt := none, sentAt := none }

def retryingPayload (eventId : EventId) (row : Job) (error : String) : WebhookPayload :=
  { eventId := eventId, jobId := row.id, event := .failed, status := "retrying"
    recipient := row.recipient, channel := row.channel, attempts := row.attempts
    maxAttempts := some row.maxAttempts, error := some error, reason := none
    nextAttemptAt := some row.runAt, sentAt := none }

/-- Dead-letter bookkeeping and the matching webhook event for a failed attempt. -/
def afterFailure (db : Db) (now : Time) (row : Job) (error reason defaultCallbackUrl : String)
    (eventId : EventId) : Except Abort Db :=
  let url := targetUrl row.callbackUrl defaultCallbackUrl
  if row.status = .deadLettered then do
    let db ← db.insertDeadLetter ⟨row.id, reason, row.attempts, some error, now⟩
    enqueueWebhook db now url (deadLetteredPayload eventId row error reason)
  else
    enqueueWebhook db now url (retryingPayload eventId row error)

/-! ## Finishing a claim -/

/-- `WHERE id = :job_id AND claim_token = :claim_token AND status = 'processing'`. -/
def fenced (jobId : JobId) (claimToken : ClaimToken) (row : Job) : Bool :=
  row.id = jobId && row.claimToken = some claimToken && row.status = .processing

/-- The `SET` of `_MARK_SENT`. -/
def sentRow (now : Time) (row : Job) : Job :=
  { row with
    status := .sent
    sentAt := some now
    lastError := none
    claimToken := none
    lockedBy := none
    leaseExpiresAt := none
    version := row.version + 1
    updatedAt := now }

theorem sentRow_keeps (now : Time) : KeepsKeys (sentRow now) := fun _ => ⟨rfl, rfl⟩

/-- Finalize a successful delivery. -/
def markSent (now : Time) (jobId : JobId) (claimToken : ClaimToken) (workerId : String)
    (providerMessageId : Option String) (defaultCallbackUrl : String) (eventId : EventId)
    (db : Db) : Except Abort (Option Transition × Db) := do
  let rows := db.jobs.returning (fenced jobId claimToken) (sentRow now)
  let db := db.updateJobs (fenced jobId claimToken) (sentRow now) (sentRow_keeps now)
  match rows.head? with
  | none => return (none, db)
  | some row =>
    let db ← db.insertDelivery ⟨jobId, workerId, providerMessageId, now⟩
    let db ← recordAttempt db now jobId row.attempts (some workerId) .sent none row.claimedAt
    let db ← enqueueWebhook db now (targetUrl row.callbackUrl defaultCallbackUrl)
      (sentPayload eventId row)
    return (some (transition row), db)

/-- The `SET` of `_MARK_FAILED`. -/
def failedRow (now : Time) (error : String) (retryDelay : Time) (permanent : Bool) (row : Job) :
    Job :=
  { row with
    status := if permanent || row.attempts ≥ row.maxAttempts then .deadLettered else .pending
    runAt := if permanent || row.attempts ≥ row.maxAttempts then row.runAt else now + retryDelay
    lastError := some error
    claimToken := none
    lockedBy := none
    leaseExpiresAt := none
    version := row.version + 1
    updatedAt := now }

theorem failedRow_keeps (now : Time) (error : String) (retryDelay : Time) (permanent : Bool) :
    KeepsKeys (failedRow now error retryDelay permanent) := fun _ => ⟨rfl, rfl⟩

def permanentReason : String := "permanent error"

def maxAttemptsReason : String := "max attempts exceeded"

/-- Record a failed delivery attempt. -/
def markFailed (now : Time) (jobId : JobId) (claimToken : ClaimToken) (workerId error : String)
    (retryDelay : Time) (permanent : Bool) (defaultCallbackUrl : String) (eventId : EventId)
    (db : Db) : Except Abort (Option Transition × Db) := do
  let set := failedRow now error retryDelay permanent
  let rows := db.jobs.returning (fenced jobId claimToken) set
  let db := db.updateJobs (fenced jobId claimToken) set (failedRow_keeps _ _ _ _)
  match rows.head? with
  | none => return (none, db)
  | some row =>
    let db ← recordAttempt db now jobId row.attempts (some workerId) .failed (some error)
      row.claimedAt
    let reason := if permanent then permanentReason else maxAttemptsReason
    let db ← afterFailure db now row error reason defaultCallbackUrl eventId
    return (some (transition row), db)

/-- The `SET` of `return_to_queue`. -/
def returnedRow (now delaySeconds : Time) (row : Job) : Job :=
  { row with
    status := .pending
    runAt := now + delaySeconds
    attempts := row.attempts - 1
    claimToken := none
    lockedBy := none
    claimedAt := none
    leaseExpiresAt := none
    version := row.version + 1
    updatedAt := now }

theorem returnedRow_keeps (now delaySeconds : Time) : KeepsKeys (returnedRow now delaySeconds) :=
  fun _ => ⟨rfl, rfl⟩

/-- Put a claimed job back in the queue without counting an attempt. -/
def returnToQueue (now : Time) (jobId : JobId) (claimToken : ClaimToken) (delaySeconds : Time)
    (db : Db) : Option Transition × Db :=
  let rows := db.jobs.returning (fenced jobId claimToken) (returnedRow now delaySeconds)
  (rows.head?.map transition,
    db.updateJobs (fenced jobId claimToken) (returnedRow now delaySeconds) (returnedRow_keeps _ _))

/-! ## Reaping -/

def leaseExpiredError : String := "lease expired: worker crashed or exceeded its lease"

/-- `lease_expires_at < now()`, which is not true of a NULL. -/
def leaseExpired (now : Time) (row : Job) : Bool :=
  match row.leaseExpiresAt with
  | some expiresAt => expiresAt < now
  | none => false

/-- The order of a nullable column, NULLs last. -/
def nullsLast : Option Time → Option Time → Bool
  | some x, some y => x ≤ y
  | none, some _ => false
  | _, none => true

/-- `ORDER BY lease_expires_at`. -/
def expiryOrder (a b : Job) : Prop := nullsLast a.leaseExpiresAt b.leaseExpiresAt = true

instance : DecidableRel expiryOrder := fun _ _ => inferInstanceAs (Decidable (_ = true))

/-- The CTE `expired`. -/
def expiredJobs (now : Time) (limit : Nat) (choices : Choices) (db : Db) : List Job :=
  topRows choices.scan expiryOrder limit
    (db.jobs.select fun row =>
      row.status = .processing && leaseExpired now row && !choices.locked row.id)

/-- The `SET` of `_REAP_EXPIRED`. -/
def reapedRow (now : Time) (row : Job) : Job :=
  { row with
    status := if row.attempts ≥ row.maxAttempts then .deadLettered else .pending
    runAt := now
    lastError := some leaseExpiredError
    claimToken := none
    lockedBy := none
    leaseExpiresAt := none
    version := row.version + 1
    updatedAt := now }

theorem reapedRow_keeps (now : Time) : KeepsKeys (reapedRow now) := fun _ => ⟨rfl, rfl⟩

/-- The body of the reaper's loop, for the row that was `old` before the update. -/
def recordReaped (now : Time) (defaultCallbackUrl : String) (newEvent : JobId → EventId)
    (db : Db) (old : Job) : Except Abort Db := do
  let row := reapedRow now old
  let db ← recordAttempt db now row.id row.attempts old.lockedBy .leaseExpired
    (some leaseExpiredError) old.claimedAt
  afterFailure db now row leaseExpiredError maxAttemptsReason defaultCallbackUrl (newEvent row.id)

/-- Return jobs whose worker vanished (lease expired) to the queue.  `RETURNING` joins
    each updated row with the `locked_by` and `claimed_at` that the CTE read. -/
def reapExpiredLeases (now : Time) (limit : Nat) (defaultCallbackUrl : String)
    (newEvent : JobId → EventId) (choices : Choices) (db : Db) :
    Except Abort (List Transition × Db) := do
  let expired := expiredJobs now limit choices db
  let rows := choices.returned.arrange (db.jobs.select (selected expired))
  let db := db.updateJobs (selected expired) (reapedRow now) (reapedRow_keeps now)
  let db ← rows.foldlM (recordReaped now defaultCallbackUrl newEvent) db
  return (rows.map fun old => transition (reapedRow now old), db)

/-! ## Requeueing a dead letter -/

/-- The `SET` of `requeue_dead_letter`. -/
def requeuedRow (now : Time) (extraAttempts : Int) (row : Job) : Job :=
  { row with
    status := .pending
    runAt := now
    maxAttempts := row.attempts + extraAttempts
    lastError := none
    version := row.version + 1
    updatedAt := now }

theorem requeuedRow_keeps (now : Time) (extraAttempts : Int) :
    KeepsKeys (requeuedRow now extraAttempts) := fun _ => ⟨rfl, rfl⟩

def isDeadLettered (jobId : JobId) (row : Job) : Bool :=
  row.id = jobId && row.status = .deadLettered

/-- Move a dead-lettered job back to the queue with `extraAttempts` more tries. -/
def requeueDeadLetter (now : Time) (jobId : JobId) (extraAttempts : Int) (db : Db) :
    Except Abort (Option Transition × Db) :=
  let rows := db.jobs.returning (isDeadLettered jobId) (requeuedRow now extraAttempts)
  if rows.any fun row => row.maxAttempts < 1 then .error .maxAttemptsCheck
  else
    let db := db.updateJobs (isDeadLettered jobId) (requeuedRow now extraAttempts)
      (requeuedRow_keeps _ _)
    match rows.head? with
    | none => .ok (none, db)
    | some row => .ok (some (transition row), db.deleteDeadLetter jobId)

end NotifyQueue
