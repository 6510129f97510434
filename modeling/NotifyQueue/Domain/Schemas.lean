import NotifyQueue.Domain.Models

/-! # Request and response models

Translated from `domain/schemas.py`.  The validators that the scheduling service relies on
are fields of the request, so a request without them cannot be built. -/

namespace NotifyQueue

def maxDelaySeconds : Time := 365 * 24 * 3600

structure ScheduleJobRequest where
  recipient : String
  channel : Channel
  payload : String
  priority : Priority
  sendAt : Option Time
  delaySeconds : Option Time
  maxAttempts : Option Int
  callbackUrl : Option String
  idempotencyKey : Option String
  delayInRange : ∀ delay ∈ delaySeconds, 0 ≤ delay ∧ delay ≤ maxDelaySeconds
  attemptsInRange : ∀ attempts ∈ maxAttempts, 1 ≤ attempts ∧ attempts ≤ 20
  oneScheduleMode : sendAt = none ∨ delaySeconds = none
deriving DecidableEq

structure JobAttemptOut where
  attemptNo : Int
  workerId : Option String
  outcome : AttemptOutcome
  error : Option String
  startedAt : Option Time
  finishedAt : Time
deriving DecidableEq, Repr

def JobAttemptOut.fromDomain (attempt : JobAttempt) : JobAttemptOut where
  attemptNo := attempt.attemptNo
  workerId := attempt.workerId
  outcome := attempt.outcome
  error := attempt.error
  startedAt := attempt.startedAt
  finishedAt := attempt.finishedAt

structure JobOut where
  id : JobId
  idempotencyKey : Option String
  recipient : String
  channel : Channel
  payload : String
  priority : Priority
  status : JobStatus
  retrying : Bool
  runAt : Time
  attempts : Int
  maxAttempts : Int
  lastError : Option String
  callbackUrl : Option String
  version : Int
  createdAt : Time
  updatedAt : Time
  sentAt : Option Time
deriving DecidableEq, Repr

def JobOut.fromDomain (job : Job) : JobOut where
  id := job.id
  idempotencyKey := job.idempotencyKey
  recipient := job.recipient
  channel := job.channel
  payload := job.payload
  priority := job.priority
  status := job.status
  retrying := job.isRetrying
  runAt := job.runAt
  attempts := job.attempts
  maxAttempts := job.maxAttempts
  lastError := job.lastError
  callbackUrl := job.callbackUrl
  version := job.version
  createdAt := job.createdAt
  updatedAt := job.updatedAt
  sentAt := job.sentAt

end NotifyQueue
