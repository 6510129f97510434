import NotifyQueue.Lib.Runs
import NotifyQueue.Repositories.Jobs

/-! # The job operations as one transition system

Any number of workers, reapers and API processes call the job operations.  Each call is
one transaction, so a run is a sequence of calls; a call whose transaction rolls back
leaves the tables as they were.  Arguments are arbitrary: in particular a finalizing
call may present any token, issued or not, at any time. -/

namespace NotifyQueue

open Runs

inductive JobOp where
  | createJob (id : JobId) (new : NewJob)
  | claimDueJobs (workerId : String) (batchSize : Nat) (leaseSeconds : Time)
      (newToken : JobId → ClaimToken) (choices : Choices)
  | markSent (jobId : JobId) (claimToken : ClaimToken) (workerId : String)
      (providerMessageId : Option String) (defaultCallbackUrl : String) (eventId : EventId)
  | markFailed (jobId : JobId) (claimToken : ClaimToken) (workerId error : String)
      (retryDelay : Time) (permanent : Bool) (defaultCallbackUrl : String) (eventId : EventId)
  | returnToQueue (jobId : JobId) (claimToken : ClaimToken) (delaySeconds : Time)
  | reapExpiredLeases (limit : Nat) (defaultCallbackUrl : String) (newEvent : JobId → EventId)
      (choices : Choices)
  | requeueDeadLetter (jobId : JobId) (extraAttempts : Int)

/-- What a call hands back; `raised` is the exception that rolled it back. -/
inductive Answer where
  | created (job : Job) (isNew : Bool)
  | claimed (jobs : List Job)
  | finished (transition : Option Transition)
  | reaped (transitions : List Transition)
  | raised (abort : Abort)
deriving DecidableEq, Repr

def JobOp.body (now : Time) (db : Db) : JobOp → Except Abort (Answer × Db)
  | .createJob id new => do
    let ((job, isNew), db) ← NotifyQueue.createJob now id new db
    return (.created job isNew, db)
  | .claimDueJobs workerId batchSize leaseSeconds newToken choices =>
    let (jobs, db) :=
      NotifyQueue.claimDueJobs now workerId batchSize leaseSeconds newToken choices db
    .ok (.claimed jobs, db)
  | .markSent jobId claimToken workerId providerMessageId defaultCallbackUrl eventId => do
    let (result, db) ← NotifyQueue.markSent now jobId claimToken workerId providerMessageId
      defaultCallbackUrl eventId db
    return (.finished result, db)
  | .markFailed jobId claimToken workerId error retryDelay permanent defaultCallbackUrl
      eventId => do
    let (result, db) ← NotifyQueue.markFailed now jobId claimToken workerId error retryDelay
      permanent defaultCallbackUrl eventId db
    return (.finished result, db)
  | .returnToQueue jobId claimToken delaySeconds =>
    let (result, db) := NotifyQueue.returnToQueue now jobId claimToken delaySeconds db
    .ok (.finished result, db)
  | .reapExpiredLeases limit defaultCallbackUrl newEvent choices => do
    let (transitions, db) ←
      NotifyQueue.reapExpiredLeases now limit defaultCallbackUrl newEvent choices db
    return (.reaped transitions, db)
  | .requeueDeadLetter jobId extraAttempts => do
    let (result, db) ← NotifyQueue.requeueDeadLetter now jobId extraAttempts db
    return (.finished result, db)

/-- Run the transaction: commit its tables, or keep the old ones when it raises. -/
def JobOp.commit (op : JobOp) (now : Time) (db : Db) : Answer × Db :=
  match op.body now db with
  | .ok committed => committed
  | .error abort => (.raised abort, db)

section

variable (now : Time) (db : Db)

theorem commit_createJob (id : JobId) (new : NewJob) :
    (JobOp.createJob id new).commit now db =
      match NotifyQueue.createJob now id new db with
      | .ok ((job, isNew), db') => (.created job isNew, db')
      | .error abort => (.raised abort, db) := by
  simp only [JobOp.commit, JobOp.body]
  cases NotifyQueue.createJob now id new db <;> rfl

theorem commit_claimDueJobs (workerId : String) (batchSize : Nat) (leaseSeconds : Time)
    (newToken : JobId → ClaimToken) (choices : Choices) :
    (JobOp.claimDueJobs workerId batchSize leaseSeconds newToken choices).commit now db =
      ((.claimed (NotifyQueue.claimDueJobs now workerId batchSize leaseSeconds newToken choices db).1),
        (NotifyQueue.claimDueJobs now workerId batchSize leaseSeconds newToken choices db).2) := rfl

theorem commit_markSent (jobId : JobId) (claimToken : ClaimToken) (workerId : String)
    (providerMessageId : Option String) (defaultCallbackUrl : String) (eventId : EventId) :
    (JobOp.markSent jobId claimToken workerId providerMessageId defaultCallbackUrl eventId).commit
        now db =
      match NotifyQueue.markSent now jobId claimToken workerId providerMessageId
        defaultCallbackUrl eventId db with
      | .ok (result, db') => (.finished result, db')
      | .error abort => (.raised abort, db) := by
  simp only [JobOp.commit, JobOp.body]
  cases NotifyQueue.markSent now jobId claimToken workerId providerMessageId defaultCallbackUrl
    eventId db <;> rfl

theorem commit_markFailed (jobId : JobId) (claimToken : ClaimToken) (workerId error : String)
    (retryDelay : Time) (permanent : Bool) (defaultCallbackUrl : String) (eventId : EventId) :
    (JobOp.markFailed jobId claimToken workerId error retryDelay permanent defaultCallbackUrl
        eventId).commit now db =
      match NotifyQueue.markFailed now jobId claimToken workerId error retryDelay permanent
        defaultCallbackUrl eventId db with
      | .ok (result, db') => (.finished result, db')
      | .error abort => (.raised abort, db) := by
  simp only [JobOp.commit, JobOp.body]
  cases NotifyQueue.markFailed now jobId claimToken workerId error retryDelay permanent
    defaultCallbackUrl eventId db <;> rfl

theorem commit_returnToQueue (jobId : JobId) (claimToken : ClaimToken) (delaySeconds : Time) :
    (JobOp.returnToQueue jobId claimToken delaySeconds).commit now db =
      (.finished (NotifyQueue.returnToQueue now jobId claimToken delaySeconds db).1,
        (NotifyQueue.returnToQueue now jobId claimToken delaySeconds db).2) := rfl

theorem commit_reapExpiredLeases (limit : Nat) (defaultCallbackUrl : String)
    (newEvent : JobId → EventId) (choices : Choices) :
    (JobOp.reapExpiredLeases limit defaultCallbackUrl newEvent choices).commit now db =
      match NotifyQueue.reapExpiredLeases now limit defaultCallbackUrl newEvent choices db with
      | .ok (transitions, db') => (.reaped transitions, db')
      | .error abort => (.raised abort, db) := by
  simp only [JobOp.commit, JobOp.body]
  cases NotifyQueue.reapExpiredLeases now limit defaultCallbackUrl newEvent choices db <;> rfl

theorem commit_requeueDeadLetter (jobId : JobId) (extraAttempts : Int) :
    (JobOp.requeueDeadLetter jobId extraAttempts).commit now db =
      match NotifyQueue.requeueDeadLetter now jobId extraAttempts db with
      | .ok (result, db') => (.finished result, db')
      | .error abort => (.raised abort, db) := by
  simp only [JobOp.commit, JobOp.body]
  cases NotifyQueue.requeueDeadLetter now jobId extraAttempts db <;> rfl

end

/-- A finished call: its operation, its transaction's `now()`, and what it returned. -/
structure Call where
  op : JobOp
  now : Time
  answer : Answer

def jobSystem : System Db Call where
  init db := db = .empty
  step db call db' := call.op.commit call.now db = (call.answer, db')

abbrev JobHistory := History Db Call

/-- Make the calls one after another, each at its time. -/
def makeCalls : JobHistory × Db → List (JobOp × Time) → JobHistory × Db
  | (history, db), [] => (history, db)
  | (history, db), (op, now) :: calls =>
    let (answer, db') := op.commit now db
    makeCalls (⟨db, ⟨op, now, answer⟩, db'⟩ :: history, db') calls

theorem run_makeCalls {init : Db → Prop} {history : JobHistory} {db : Db}
    (run : Run ⟨init, jobSystem.step⟩ history db) (calls : List (JobOp × Time)) :
    Run ⟨init, jobSystem.step⟩ (makeCalls (history, db) calls).1
      (makeCalls (history, db) calls).2 := by
  induction calls generalizing history db with
  | nil => exact run
  | cons call calls inductionHypothesis =>
    have step : jobSystem.step db ⟨call.1, call.2, (call.1.commit call.2 db).1⟩
      (call.1.commit call.2 db).2 := rfl
    exact inductionHypothesis (.next run step)

/-- The run of a list of calls on empty tables. -/
def jobRun (calls : List (JobOp × Time)) : JobHistory × Db := makeCalls ([], .empty) calls

theorem makeCalls_append (reached : JobHistory × Db) (calls : List (JobOp × Time)) (op : JobOp)
    (now : Time) :
    makeCalls reached (calls ++ [(op, now)]) =
      (⟨(makeCalls reached calls).2, ⟨op, now, (op.commit now (makeCalls reached calls).2).1⟩,
          (op.commit now (makeCalls reached calls).2).2⟩ :: (makeCalls reached calls).1,
        (op.commit now (makeCalls reached calls).2).2) := by
  induction calls generalizing reached with
  | nil => rfl
  | cons call calls inductionHypothesis => exact inductionHypothesis _

theorem run_jobRun (calls : List (JobOp × Time)) :
    Run jobSystem (jobRun calls).1 (jobRun calls).2 := by
  have nothing : Run jobSystem [] .empty := .start rfl
  exact run_makeCalls nothing calls

/-- Only the given operations are called. -/
theorem op_of_makeCalls {reached : JobHistory × Db} {calls : List (JobOp × Time)} {taken : Taken Db Call}
    (member : taken ∈ (makeCalls reached calls).1) :
    taken ∈ reached.1 ∨ taken.label.op ∈ calls.map Prod.fst := by
  induction calls generalizing reached with
  | nil => exact .inl member
  | cons call calls inductionHypothesis =>
    cases inductionHypothesis member with
    | inl before =>
      cases before with
      | head => exact .inr (by simp)
      | tail _ before => exact .inl before
    | inr called => exact .inr (by simp [called])

theorem op_of_jobRun {calls : List (JobOp × Time)} {taken : Taken Db Call}
    (member : taken ∈ (jobRun calls).1) : taken.label.op ∈ calls.map Prod.fst := by
  cases op_of_makeCalls member with
  | inl before => cases before
  | inr called => exact called

/-- A job for runs on given inputs: an e-mail, due at once. -/
def sampleJob (maxAttempts : Int) : NewJob where
  recipient := "ada@example.com"
  channel := .email
  payload := "{}"
  priority := .normal
  maxAttempts := maxAttempts
  requestHash := "hash"
  idempotencyKey := none
  sendAt := none
  delaySeconds := none
  callbackUrl := none

end NotifyQueue
