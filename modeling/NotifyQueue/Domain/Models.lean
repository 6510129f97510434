import Mathlib.Data.Rat.Defs
import Mathlib.Algebra.Order.Ring.Rat
import Mathlib.Tactic.Common

/-! # Enumerations and row-level domain objects

Translated from `domain/enums.py` and `domain/models.py`.  A UUID is a number, since
only equality of ids and tokens matters; a point in time and a length of time are
rationals in seconds; a JSON payload is held as its canonical text. -/

namespace NotifyQueue

abbrev JobId := Nat
abbrev ClaimToken := Nat
abbrev EventId := Nat

/-- Seconds: of an instant since the epoch, or of a duration. -/
abbrev Time := ℚ

/-! ## Enumerations -/

inductive Channel where
  | email
  | sms
  | push
deriving DecidableEq, Repr

inductive JobStatus where
  | pending
  | processing
  | sent
  | deadLettered
deriving DecidableEq, Repr

def JobStatus.isTerminal (status : JobStatus) : Bool :=
  status = .sent || status = .deadLettered

/-- Stored as a smallint; higher values are claimed first. -/
inductive Priority where
  | low
  | normal
  | high
  | critical
deriving DecidableEq, Repr

def Priority.value : Priority → Int
  | .low => 0
  | .normal => 1
  | .high => 2
  | .critical => 3

inductive WebhookEvent where
  | sent
  | failed
  | deadLettered
deriving DecidableEq, Repr

/-- The `CHECK` on `job_attempts.outcome`. -/
inductive AttemptOutcome where
  | sent
  | failed
  | leaseExpired
deriving DecidableEq, Repr

/-! ## Domain objects -/

structure NewJob where
  recipient : String
  channel : Channel
  payload : String
  priority : Priority
  maxAttempts : Int
  requestHash : String
  idempotencyKey : Option String
  sendAt : Option Time
  delaySeconds : Option Time
  callbackUrl : Option String
deriving DecidableEq, Repr

/-- A row of `jobs`. -/
structure Job where
  id : JobId
  idempotencyKey : Option String
  requestHash : String
  recipient : String
  channel : Channel
  payload : String
  priority : Priority
  status : JobStatus
  runAt : Time
  attempts : Int
  maxAttempts : Int
  lastError : Option String
  claimToken : Option ClaimToken
  lockedBy : Option String
  claimedAt : Option Time
  leaseExpiresAt : Option Time
  callbackUrl : Option String
  version : Int
  createdAt : Time
  updatedAt : Time
  sentAt : Option Time
deriving DecidableEq, Repr

/-- `Job.is_retrying`: pending, tried before, and with a non-empty error. -/
def Job.isRetrying (job : Job) : Bool :=
  job.status = .pending && 0 < job.attempts && (job.lastError.getD "" != "")

/-- A row of `job_attempts`. -/
structure JobAttempt where
  jobId : JobId
  attemptNo : Int
  workerId : Option String
  outcome : AttemptOutcome
  error : Option String
  startedAt : Option Time
  finishedAt : Time
deriving DecidableEq, Repr

end NotifyQueue
