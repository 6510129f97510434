import NotifyQueue.Repositories.Schema

/-! # The SQL of the webhook outbox

Translated from `repositories/webhooks.py`: what the dispatchers do to `webhook_outbox`.
`now` is the transaction's `now()`. -/

namespace NotifyQueue

open Tables (RowOrder Table topRows)

abbrev Outbox := Table OutboxRow.id noUniqueColumn

structure OutboxEvent where
  id : EventId
  jobId : JobId
  event : WebhookEvent
  payload : WebhookPayload
  targetUrl : String
  attempts : Int
deriving DecidableEq, Repr

/-- What Postgres chooses in the claim, as in `Choices`. -/
structure OutboxChoices where
  locked : EventId → Bool
  scan : RowOrder OutboxRow
  returned : RowOrder OutboxRow

def OutboxChoices.alone : OutboxChoices := ⟨fun _ => false, .stored, .stored⟩

/-- `RETURNING o.id, o.job_id, o.event, o.payload, o.target_url, o.attempts`. -/
def OutboxRow.toEvent (row : OutboxRow) : OutboxEvent :=
  ⟨row.id, row.jobId, row.event, row.payload, row.targetUrl, row.attempts⟩

section

variable (now : Time)

def isDueEvent (row : OutboxRow) : Bool := row.status = .pending && row.nextAttemptAt ≤ now

/-- `ORDER BY next_attempt_at`. -/
def nextAttemptOrder (a b : OutboxRow) : Prop := a.nextAttemptAt ≤ b.nextAttemptAt

instance : DecidableRel nextAttemptOrder := fun _ _ => inferInstanceAs (Decidable (_ ≤ _))

/-- The CTE `due`. -/
def dueEvents (limit : Nat) (choices : OutboxChoices) (outbox : Outbox) : List OutboxRow :=
  topRows choices.scan nextAttemptOrder limit
    (outbox.select fun row => isDueEvent now row && !choices.locked row.id)

/-- `WHERE o.id = due.id`. -/
def isAmong (due : List OutboxRow) (row : OutboxRow) : Bool := due.any fun other => other.id = row.id

/-- The `SET` of `_CLAIM_OUTBOX`. -/
def claimedEvent (leaseSeconds : Time) (row : OutboxRow) : OutboxRow :=
  { row with nextAttemptAt := now + leaseSeconds, attempts := row.attempts + 1 }

theorem claimedEvent_id (leaseSeconds : Time) (row : OutboxRow) :
    (claimedEvent now leaseSeconds row).id = row.id := rfl

/-- `claim_outbox_events`. -/
def claimOutboxEvents (limit : Nat) (leaseSeconds : Time) (choices : OutboxChoices)
    (outbox : Outbox) : List OutboxEvent × Outbox :=
  let due := dueEvents now limit choices outbox
  let claim := claimedEvent now leaseSeconds
  ((choices.returned.arrange (outbox.returning (isAmong due) claim)).map OutboxRow.toEvent,
    outbox.update (isAmong due) claim (claimedEvent_id now leaseSeconds)
      (noUniqueColumn_keeps claim))

/-- The `SET` of `mark_delivered`. -/
def deliveredEvent (row : OutboxRow) : OutboxRow :=
  { row with status := .delivered, deliveredAt := some now, lastError := none }

theorem deliveredEvent_id (row : OutboxRow) : (deliveredEvent now row).id = row.id := rfl

/-- `mark_delivered`. -/
def markDelivered (eventId : EventId) (outbox : Outbox) : Outbox :=
  outbox.update (fun row => row.id = eventId) (deliveredEvent now) (deliveredEvent_id now)
    (noUniqueColumn_keeps (deliveredEvent now))

/-- The `SET` of `mark_attempt_failed`; `none` is giving up. -/
def attemptFailedEvent (error : String) (retryDelay : Option Time) (row : OutboxRow) : OutboxRow :=
  { row with
    status := if retryDelay.isNone then .failed else .pending
    nextAttemptAt := now + retryDelay.getD 0
    lastError := some error }

theorem attemptFailedEvent_id (error : String) (retryDelay : Option Time) (row : OutboxRow) :
    (attemptFailedEvent now error retryDelay row).id = row.id := rfl

/-- `mark_attempt_failed`. -/
def markAttemptFailed (eventId : EventId) (error : String) (retryDelay : Option Time)
    (outbox : Outbox) : Outbox :=
  outbox.update (fun row => row.id = eventId) (attemptFailedEvent now error retryDelay)
    (attemptFailedEvent_id now error retryDelay)
    (noUniqueColumn_keeps (attemptFailedEvent now error retryDelay))

end

end NotifyQueue
