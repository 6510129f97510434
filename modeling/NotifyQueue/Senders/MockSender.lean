import NotifyQueue.Worker.Loop

/-! # The stub provider

Translated from `senders/mock.py` and the table `mock_provider_log`.  A request carries the
job's id as its idempotency key; the first one is recorded, and a repeated one is counted in
its record.

`sendingSystem` is the worker system with this provider behind it: a request is decided by
`MockSender.send`, and `send` can hand its task no other result than the provider's, except
for an exception, which a timeout raises at any time. -/

namespace NotifyQueue

open Runs Tables

/-- A row of `mock_provider_log`. -/
structure ProviderRecord where
  id : Nat
  providerIdempotencyKey : String
  jobId : JobId
  channel : Channel
  recipient : String
  receivedAt : Time
  duplicateRequests : Nat
deriving DecidableEq, Repr

def ProviderRecord.key (record : ProviderRecord) : Option String := some record.providerIdempotencyKey

abbrev ProviderLog := Table ProviderRecord.id ProviderRecord.key

namespace MockSender

/-- The row that `_RECORD` inserts under the next number of the sequence. -/
def newRecord (id : Nat) (now : Time) (job : Job) : ProviderRecord where
  id := id
  providerIdempotencyKey := job.id.repr
  jobId := job.id
  channel := job.channel
  recipient := job.recipient
  receivedAt := now
  duplicateRequests := 0

/-- `DO UPDATE SET duplicate_requests = duplicate_requests + 1`. -/
def absorb (record : ProviderRecord) : ProviderRecord :=
  { record with duplicateRequests := record.duplicateRequests + 1 }

def sameKey (job : Job) (record : ProviderRecord) : Bool :=
  record.providerIdempotencyKey = job.id.repr

/-- `_RECORD`: the record of the job's key, and whether it was there before. -/
def record (id : Nat) (now : Time) (job : Job) (log : ProviderLog) :
    Except Violation ((Nat × Bool) × ProviderLog) :=
  match log.insert (newRecord id now job) with
  | .ok log => .ok ((id, false), log)
  | .error .uniqueKey =>
    match (log.returning (sameKey job) absorb).head? with
    | some row => .ok ((row.id, 0 < row.duplicateRequests),
        log.update (sameKey job) absorb (fun _ => rfl) (fun _ => rfl))
    | none => .error .uniqueKey
  | .error .primaryKey => .error .primaryKey

def messageId (id : Nat) : String := "mock-" ++ id.repr

/-- `send` after its latency: `simulate` is that key of the job's payload and `draw` is
    `random()`.  The second component is `deduplicated`. -/
def send (failureRate : ℚ) (simulate : Option String) (draw : ℚ) (id : Nat) (now : Time) (job : Job)
    (log : ProviderLog) : (SendResult × Bool) × ProviderLog :=
  if simulate = some "poison" then ((.exception "ValueError: unparseable payload", false), log)
  else if simulate = some "permanent_failure" then
    ((.permanentDeliveryError ("recipient " ++ job.recipient ++ " rejected by provider"), false), log)
  else if draw < failureRate then ((.deliveryError "simulated provider failure (503)", false), log)
  else
    match record id now job log with
    | .ok ((id, deduplicated), log) => ((.sent (some (messageId id)), deduplicated), log)
    | .error _ => ((.exception "IntegrityError", false), log)

end MockSender

/-! ## Workers that send through it -/

/-- Whether the request reached the provider. -/
def SendResult.verdict : SendResult → Verdict
  | .sent _ => .accepted
  | _ => .rejected

/-- The workers, the provider's log and what the provider answered to each task. -/
structure SendingWorld where
  world : World
  log : ProviderLog
  replies : Nat → Option SendResult

inductive SendingAction where
  | worker (action : Action)
  | provider (i : Nat) (draw : ℚ) (id : Nat)

/-- `wait_for` returns what the provider answered, or raises. -/
def SendingWorld.allows (s : SendingWorld) : Action → Bool
  | .task _ (.provider _) => false
  | .task _ (.endSend (.exception _)) => true
  | .task i (.endSend result) => s.replies i = some result
  | _ => true

section

variable (settings : Settings) (skew : String → Time) (failureRate : ℚ)
  (simulate : String → Option String)

def SendingWorld.step (s : SendingWorld) : SendingAction → Option SendingWorld
  | .worker action =>
    if s.allows action = true then
      (s.world.step settings skew action).map fun world => { s with world }
    else none
  | .provider i draw id =>
    match s.world.tasks[i]? with
    | none => none
    | some task =>
      let ((result, _), log) := MockSender.send failureRate (simulate task.job.payload) draw id
        s.world.now task.job s.log
      (s.world.step settings skew (.task i (.provider result.verdict))).map fun world =>
        { world, log, replies := fun k => if k = i then some result else s.replies k }

def SendingWorld.initial (start : Time) : SendingWorld := ⟨.initial start, .empty, fun _ => none⟩

def sendingSystem : System SendingWorld SendingAction :=
  .ofStep (fun s => ∃ start, s = .initial start) (SendingWorld.step settings skew failureRate simulate)

end

abbrev SendingHistory := History SendingWorld SendingAction

end NotifyQueue
