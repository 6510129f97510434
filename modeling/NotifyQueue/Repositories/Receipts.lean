import NotifyQueue.Domain.Fingerprint
import NotifyQueue.Lib.Texts
import NotifyQueue.Repositories.Schema

/-! # The SQL of the mock webhook receiver

Translated from `record_receipt` in `repositories/webhooks.py`, the table
`mock_webhook_receipts`, and the JSON object that `enqueue_webhook` builds. -/

namespace NotifyQueue

open Json (Member Value)
open Tables (Table)

def WebhookEvent.text : WebhookEvent → String
  | .sent => "sent"
  | .failed => "failed"
  | .deadLettered => "dead_lettered"

/-- The object that `enqueue_webhook` stores; `isoformat` writes a time. -/
def WebhookPayload.members (isoformat : Time → String) (payload : WebhookPayload) : List Member :=
  let optional (key : String) (value : Option Value) : List Member :=
    (value.map fun v => (key, v)).toList
  [("event_id", .string payload.eventId.repr), ("job_id", .string payload.jobId.repr),
    ("event", .string payload.event.text), ("status", .string payload.status)] ++
  optional "reason" (payload.reason.map .string) ++
  optional "next_attempt_at" (payload.nextAttemptAt.map fun t => .string (isoformat t)) ++
  [("recipient", .string payload.recipient), ("channel", .string payload.channel.text),
    ("attempts", .number (.ofInt payload.attempts))] ++
  optional "max_attempts" (payload.maxAttempts.map fun n => .number (.ofInt n)) ++
  optional "error" (payload.error.map .string) ++
  optional "sent_at" (payload.sentAt.map fun t => .string (isoformat t))

/-- A row of `mock_webhook_receipts`. -/
structure Receipt where
  id : Nat
  eventId : EventId
  jobId : JobId
  event : String
  payload : List Member
  receivedAt : Time

def Receipt.key (receipt : Receipt) : Option EventId := some receipt.eventId

abbrev Receipts := Table Receipt.id Receipt.key

/-- `UUID(value)`; `none` when it raises. -/
def uuid? : Value → Option Nat
  | .string text => Texts.digits? text
  | _ => none

/-- `payload[key]`. -/
def field? (payload : List Member) (key : String) : Option Value := payload.lookup key

/-- The row that `record_receipt` inserts under the next number of the sequence; `none` when the
    payload's fields raise before the statement, or in it. -/
def receiptOf (id : Nat) (now : Time) (payload : List Member) : Option Receipt := do
  let eventId ← (field? payload "event_id").bind uuid?
  let jobId ← (field? payload "job_id").bind uuid?
  match field? payload "event" with
  | some (.string event) => some ⟨id, eventId, jobId, event, payload, now⟩
  | _ => none

/-- `record_receipt`: whether the event is new; `none` is any exception. -/
def recordReceipt (id : Nat) (now : Time) (payload : List Member) (receipts : Receipts) :
    Option (Bool × Receipts) :=
  match receiptOf id now payload with
  | none => none
  | some receipt =>
    match receipts.insert receipt with
    | .ok receipts => some (true, receipts)
    | .error .uniqueKey => some (false, receipts)
    | .error .primaryKey => none

end NotifyQueue
