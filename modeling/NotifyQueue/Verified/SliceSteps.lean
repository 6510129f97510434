import NotifyQueue.Repositories.JobSystem
import NotifyQueue.Verified.Slices

/-! # What a job operation does to one job

`SliceStep` lists the steps that an operation can make on the slice of one job, with the
guards under which the code makes them, and `OpStep` says which operation makes which with
which arguments.  `commit_op` shows that every call makes one of them on every job: the one
that `Call.eventFor` reads off the call's answer. -/

namespace NotifyQueue

open Tables Aborts

/-- What a call's answer says happened to a job. -/
inductive JobEvent where
  | created (maxAttempts : Int)
  | claimed
  | ended (outcome : AttemptOutcome) (status : JobStatus)
  | returned
  | requeued (extraAttempts : Int)
deriving DecidableEq, Repr

/-- The event of a finalizing call that returned `result`. -/
def finishedEvent (event : JobStatus → JobEvent) (result : Option Transition) (j : JobId) :
    Option JobEvent :=
  match result with
  | some t => if t.jobId = j then some (event t.status) else none
  | none => none

theorem finishedEvent_eq_some {event : JobStatus → JobEvent} {result : Option Transition} {j : JobId}
    {e : JobEvent} :
    finishedEvent event result j = some e ↔ ∃ t, result = some t ∧ t.jobId = j ∧ event t.status = e := by
  cases result with
  | none => simp [finishedEvent]
  | some t => simp [finishedEvent]

def Call.eventFor (call : Call) (j : JobId) : Option JobEvent :=
  match call.op, call.answer with
  | .createJob _ new, .created job true =>
    if job.id = j then some (.created new.maxAttempts) else none
  | .claimDueJobs _ _ _ _ _, .claimed jobs =>
    if jobs.any fun job => job.id = j then some .claimed else none
  | .markSent _ _ _ _ _ _, .finished result => finishedEvent (.ended .sent) result j
  | .markFailed _ _ _ _ _ _ _ _, .finished result => finishedEvent (.ended .failed) result j
  | .returnToQueue _ _ _, .finished result => finishedEvent (fun _ => .returned) result j
  | .reapExpiredLeases _ _ _ _, .reaped ts =>
    finishedEvent (.ended .leaseExpired) (ts.find? fun t => t.jobId = j) j
  | .requeueDeadLetter _ extraAttempts, .finished result =>
    finishedEvent (fun _ => .requeued extraAttempts) result j
  | _, _ => none

/-- The events that an operation can make. -/
def JobOp.causes : JobOp → JobEvent → Bool
  | .createJob _ _, .created _ => true
  | .claimDueJobs _ _ _ _ _, .claimed => true
  | .markSent _ _ _ _ _ _, .ended .sent _ => true
  | .markFailed _ _ _ _ _ _ _ _, .ended .failed _ => true
  | .returnToQueue _ _ _, .returned => true
  | .reapExpiredLeases _ _ _ _, .ended .leaseExpired _ => true
  | .requeueDeadLetter _ extraAttempts, .requeued granted => granted = extraAttempts
  | _, _ => false

theorem causes_of_eventFor {call : Call} {j : JobId} {event : JobEvent}
    (happened : call.eventFor j = some event) : call.op.causes event = true := by
  obtain ⟨op, now, answer⟩ := call
  cases op
  case createJob =>
    cases answer with
    | created job isNew =>
      cases isNew with
      | false => cases happened
      | true =>
        simp only [Call.eventFor, Option.ite_none_right_eq_some, Option.some.injEq] at happened
        simp [← happened.2, JobOp.causes]
    | _ => cases happened
  case claimDueJobs =>
    cases answer with
    | claimed jobs =>
      simp only [Call.eventFor, Option.ite_none_right_eq_some, Option.some.injEq] at happened
      simp [← happened.2, JobOp.causes]
    | _ => cases happened
  case reapExpiredLeases =>
    cases answer with
    | reaped ts =>
      obtain ⟨_, _, _, rfl⟩ := finishedEvent_eq_some.mp happened
      rfl
    | _ => cases happened
  all_goals
    cases answer with
    | finished result =>
      simp only [Call.eventFor, finishedEvent_eq_some] at happened
      obtain ⟨_, _, _, rfl⟩ := happened
      simp [JobOp.causes]
    | _ => cases happened

/-- The insert into `job_attempts` has no row in its way. -/
def Slice.FreshAttempt (s : Slice) (attemptNo : Int) : Prop :=
  ∀ attempt ∈ s.attempts, attempt.attemptNo ≠ attemptNo

/-- `_record_attempt` and `_after_failure` for the row that the update returned. -/
def Slice.finishFailed (s : Slice) (now : Time) (row : Job) (workerId : Option String)
    (outcome : AttemptOutcome) (error reason url : String) (eventId : EventId)
    (startedAt : Option Time) : Slice where
  row := some row
  delivery := s.delivery
  deadLetter :=
    if row.status = .deadLettered then some ⟨row.id, reason, row.attempts, some error, now⟩
    else s.deadLetter
  attempts := s.attempts ++ [⟨row.id, row.attempts, workerId, outcome, some error, startedAt, now⟩]
  events := s.events ++ [outboxRow now url
    (if row.status = .deadLettered then deadLetteredPayload eventId row error reason
      else retryingPayload eventId row error)]

/-- `mark_sent` after its update. -/
def Slice.finishSent (s : Slice) (now : Time) (row : Job) (workerId : String)
    (providerMessageId : Option String) (url : String) (eventId : EventId) : Slice where
  row := some row
  delivery := some ⟨row.id, workerId, providerMessageId, now⟩
  deadLetter := s.deadLetter
  attempts := s.attempts ++
    [⟨row.id, row.attempts, some workerId, .sent, none, row.claimedAt, now⟩]
  events := s.events ++ [outboxRow now url (sentPayload eventId row)]

def failureReason (permanent : Bool) : String :=
  if permanent then permanentReason else maxAttemptsReason

/-- The steps of one job. -/
inductive SliceStep (now : Time) (j : JobId) : Slice → Option JobEvent → Slice → Prop where
  | idle (s : Slice) : SliceStep now j s none s
  | created {s : Slice} {new : NewJob} (absent : s.row = none) (cap : 1 ≤ new.maxAttempts) :
      SliceStep now j s (some (.created new.maxAttempts)) { s with row := some (new.row j now) }
  | claimed {s : Slice} {row : Job} (workerId : String) (leaseSeconds : Time)
      (newToken : JobId → ClaimToken) (present : s.row = some row) (due : isDue now row = true) :
      SliceStep now j s (some .claimed)
        { s with row := some (claimedRow now workerId leaseSeconds newToken row) }
  | sent {s : Slice} {row : Job} (claimToken : ClaimToken) (workerId : String)
      (providerMessageId : Option String) (url : String) (eventId : EventId)
      (present : s.row = some row) (owned : fenced j claimToken row = true)
      (undelivered : s.delivery = none) (fresh : s.FreshAttempt row.attempts) :
      SliceStep now j s (some (.ended .sent .sent))
        (s.finishSent now (sentRow now row) workerId providerMessageId url eventId)
  | failed {s : Slice} {row : Job} (claimToken : ClaimToken) (workerId error : String)
      (retryDelay : Time) (permanent : Bool) (url : String) (eventId : EventId)
      (present : s.row = some row) (owned : fenced j claimToken row = true)
      (fresh : s.FreshAttempt row.attempts)
      (unburied : (failedRow now error retryDelay permanent row).status = .deadLettered →
        s.deadLetter = none) :
      SliceStep now j s
        (some (.ended .failed (failedRow now error retryDelay permanent row).status))
        (s.finishFailed now (failedRow now error retryDelay permanent row) (some workerId) .failed
          error (failureReason permanent) url eventId row.claimedAt)
  | reaped {s : Slice} {row : Job} (url : String) (eventId : EventId)
      (present : s.row = some row) (processing : row.status = .processing)
      (expired : leaseExpired now row = true) (fresh : s.FreshAttempt row.attempts)
      (unburied : (reapedRow now row).status = .deadLettered → s.deadLetter = none) :
      SliceStep now j s (some (.ended .leaseExpired (reapedRow now row).status))
        (s.finishFailed now (reapedRow now row) row.lockedBy .leaseExpired leaseExpiredError
          maxAttemptsReason url eventId row.claimedAt)
  | returned {s : Slice} {row : Job} (claimToken : ClaimToken) (delaySeconds : Time)
      (present : s.row = some row) (owned : fenced j claimToken row = true) :
      SliceStep now j s (some .returned) { s with row := some (returnedRow now delaySeconds row) }
  | requeued {s : Slice} {row : Job} (extraAttempts : Int) (present : s.row = some row)
      (dead : row.status = .deadLettered) (cap : 1 ≤ row.attempts + extraAttempts) :
      SliceStep now j s (some (.requeued extraAttempts))
        { s with row := some (requeuedRow now extraAttempts row), deadLetter := none }

theorem SliceStep.idle_eq {now : Time} {j : JobId} {s s' : Slice} (step : SliceStep now j s none s') :
    s' = s := by
  cases step
  rfl

/-- The steps that one operation makes on a job: `SliceStep` with the operation's own
    arguments in what it writes. -/
inductive OpStep (now : Time) (j : JobId) (s : Slice) : JobOp → Option JobEvent → Slice → Prop where
  | idle (op : JobOp) : OpStep now j s op none s
  | created {new : NewJob} (absent : s.row = none) (cap : 1 ≤ new.maxAttempts) :
      OpStep now j s (.createJob j new) (some (.created new.maxAttempts))
        { s with row := some (new.row j now) }
  | claimed {row : Job} {workerId : String} {batchSize : Nat} {leaseSeconds : Time}
      {newToken : JobId → ClaimToken} {choices : Choices} (room : 1 ≤ batchSize)
      (unlocked : choices.locked j = false) (present : s.row = some row)
      (due : isDue now row = true) :
      OpStep now j s (.claimDueJobs workerId batchSize leaseSeconds newToken choices) (some .claimed)
        { s with row := some (claimedRow now workerId leaseSeconds newToken row) }
  | sent {row : Job} {claimToken : ClaimToken} {workerId : String} {providerMessageId : Option String}
      {defaultCallbackUrl : String} {eventId : EventId} (present : s.row = some row)
      (owned : fenced j claimToken row = true) (undelivered : s.delivery = none)
      (fresh : s.FreshAttempt row.attempts) :
      OpStep now j s (.markSent j claimToken workerId providerMessageId defaultCallbackUrl eventId)
        (some (.ended .sent .sent))
        (s.finishSent now (sentRow now row) workerId providerMessageId
          (targetUrl row.callbackUrl defaultCallbackUrl) eventId)
  | failed {row : Job} {claimToken : ClaimToken} {workerId error : String} {retryDelay : Time}
      {permanent : Bool} {defaultCallbackUrl : String} {eventId : EventId}
      (present : s.row = some row) (owned : fenced j claimToken row = true)
      (fresh : s.FreshAttempt row.attempts)
      (unburied : (failedRow now error retryDelay permanent row).status = .deadLettered →
        s.deadLetter = none) :
      OpStep now j s
        (.markFailed j claimToken workerId error retryDelay permanent defaultCallbackUrl eventId)
        (some (.ended .failed (failedRow now error retryDelay permanent row).status))
        (s.finishFailed now (failedRow now error retryDelay permanent row) (some workerId) .failed
          error (failureReason permanent) (targetUrl row.callbackUrl defaultCallbackUrl) eventId
          row.claimedAt)
  | reaped {row : Job} {limit : Nat} {defaultCallbackUrl : String} {newEvent : JobId → EventId}
      {choices : Choices} (room : 1 ≤ limit) (unlocked : choices.locked j = false)
      (present : s.row = some row) (processing : row.status = .processing)
      (expired : leaseExpired now row = true) (fresh : s.FreshAttempt row.attempts)
      (unburied : (reapedRow now row).status = .deadLettered → s.deadLetter = none) :
      OpStep now j s (.reapExpiredLeases limit defaultCallbackUrl newEvent choices)
        (some (.ended .leaseExpired (reapedRow now row).status))
        (s.finishFailed now (reapedRow now row) row.lockedBy .leaseExpired leaseExpiredError
          maxAttemptsReason (targetUrl row.callbackUrl defaultCallbackUrl) (newEvent j) row.claimedAt)
  | returned {row : Job} {claimToken : ClaimToken} {delaySeconds : Time} (present : s.row = some row)
      (owned : fenced j claimToken row = true) :
      OpStep now j s (.returnToQueue j claimToken delaySeconds) (some .returned)
        { s with row := some (returnedRow now delaySeconds row) }
  | requeued {row : Job} {extraAttempts : Int} (present : s.row = some row)
      (dead : row.status = .deadLettered) (cap : 1 ≤ row.attempts + extraAttempts) :
      OpStep now j s (.requeueDeadLetter j extraAttempts) (some (.requeued extraAttempts))
        { s with row := some (requeuedRow now extraAttempts row), deadLetter := none }

theorem OpStep.slice {now : Time} {j : JobId} {s s' : Slice} {op : JobOp} {event : Option JobEvent}
    (step : OpStep now j s op event s') : SliceStep now j s event s' := by
  cases step with
  | idle => exact .idle s
  | created absent cap => exact .created absent cap
  | claimed _ _ present due => exact .claimed _ _ _ present due
  | sent present owned undelivered fresh => exact .sent _ _ _ _ _ present owned undelivered fresh
  | failed present owned fresh unburied => exact .failed _ _ _ _ _ _ _ present owned fresh unburied
  | reaped _ _ present processing expired fresh unburied =>
    exact .reaped _ _ present processing expired fresh unburied
  | returned present owned => exact .returned _ _ present owned
  | requeued present dead cap => exact .requeued _ present dead cap

/-! ## The rows that the operations write -/

section

variable {now : Time} {row : Job}

@[simp] theorem failedRow_dead {error : String} {retryDelay : Time} {permanent : Bool} :
    (failedRow now error retryDelay permanent row).status = .deadLettered ↔
      permanent = true ∨ row.maxAttempts ≤ row.attempts := by
  cases permanent <;> simp [failedRow]

@[simp] theorem reapedRow_dead :
    (reapedRow now row).status = .deadLettered ↔ row.maxAttempts ≤ row.attempts := by
  simp [reapedRow]

theorem failedRow_status (error : String) (retryDelay : Time) (permanent : Bool) :
    (failedRow now error retryDelay permanent row).status = .pending ∨
      (failedRow now error retryDelay permanent row).status = .deadLettered := by
  simp only [failedRow]
  split <;> simp

theorem failedRow_status_ne {error : String} {retryDelay : Time} {permanent : Bool} :
    (failedRow now error retryDelay permanent row).status ≠ .processing := by
  intro same
  have status : (failedRow now error retryDelay permanent row).status = .pending ∨ _ :=
    failedRow_status error retryDelay permanent
  simp [same] at status

theorem reapedRow_status :
    (reapedRow now row).status = .pending ∨ (reapedRow now row).status = .deadLettered := by
  simp only [reapedRow]
  split <;> simp

theorem reapedRow_status_ne : (reapedRow now row).status ≠ .processing := by
  intro same
  have status : (reapedRow now row).status = .pending ∨ _ := reapedRow_status
  simp [same] at status

end

/-! ## Updates of one row -/

theorem isDue_iff {now : Time} {row : Job} :
    isDue now row = true ↔ row.status = .pending ∧ row.runAt ≤ now := by
  simp [isDue]

theorem fenced_iff {jobId : JobId} {claimToken : ClaimToken} {row : Job} :
    fenced jobId claimToken row = true ↔
      row.id = jobId ∧ row.claimToken = some claimToken ∧ row.status = .processing := by
  simp [fenced, and_assoc]

/-- A statement whose condition names an id changes the row of that id only. -/
theorem slice_updateJobs_named {db : Db} {i : JobId} {p : Job → Bool} {set : Job → Job}
    (keeps : KeepsKeys set) (named : ∀ row, p row = true → row.id = i) {row : Job}
    (found : db.jobs.lookup i = some row) (matched : p row = true) (j : JobId) :
    (db.updateJobs p set keeps).slice j =
      if i = j then { db.slice j with row := some (set row) } else db.slice j := by
  rw [Db.slice_updateJobs]
  split
  · next same =>
    subst same
    simp [Db.slice, found, matched]
  · next different =>
    cases other : db.jobs.lookup j with
    | none => simp [Db.slice, other]
    | some row' =>
      -- the condition names the id, and this row has another one
      have unmatched : ¬ p row' = true := fun matched' =>
        different ((named row' matched').symm.trans (Table.pk_of_lookup other))
      simp [Db.slice, other, unmatched]

theorem slice_enqueueWebhook {db db' : Db} {now : Time} {url : String} {payload : WebhookPayload}
    (enqueued : enqueueWebhook db now url payload = .ok db') (j : JobId) :
    db'.slice j =
      if payload.jobId = j then
        { db.slice j with events := (db.slice j).events ++ [outboxRow now url payload] }
      else db.slice j :=
  Db.slice_insertOutboxRow enqueued j

theorem updateJobs_of_unmatched {db : Db} {p : Job → Bool} {set : Job → Job}
    (keeps : KeepsKeys set) (unmatched : (db.jobs.returning p set).head? = none) :
    db.updateJobs p set keeps = db := by
  simp only [Db.updateJobs, Table.update_of_returning_nil _ _ unmatched]

theorem slice_afterFailure {db db' : Db} {now : Time} {row : Job}
    {error reason defaultCallbackUrl : String} {eventId : EventId}
    (recorded : afterFailure db now row error reason defaultCallbackUrl eventId = .ok db')
    (j : JobId) :
    (row.status = .deadLettered → (db.slice row.id).deadLetter = none) ∧
      db'.slice j =
        if row.id = j then
          { db.slice j with
            deadLetter :=
              if row.status = .deadLettered then
                some ⟨row.id, reason, row.attempts, some error, now⟩
              else (db.slice j).deadLetter
            events := (db.slice j).events ++
              [outboxRow now (targetUrl row.callbackUrl defaultCallbackUrl)
                (if row.status = .deadLettered then deadLetteredPayload eventId row error reason
                  else retryingPayload eventId row error)] }
        else db.slice j := by
  simp only [afterFailure] at recorded
  split at recorded
  · next dead =>
    obtain ⟨db₁, buried, enqueued⟩ := bind_eq_ok.mp recorded
    refine ⟨fun _ => Db.fresh_insertDeadLetter buried, ?_⟩
    rw [slice_enqueueWebhook enqueued j, Db.slice_insertDeadLetter buried j]
    by_cases same : row.id = j <;> simp [same, dead, deadLetteredPayload]
  · next alive =>
    refine ⟨fun dead => absurd dead alive, ?_⟩
    rw [slice_enqueueWebhook recorded j]
    by_cases same : row.id = j <;> simp [same, alive, retryingPayload]

/-- The two inserts of a failed attempt, for the row that the update has just written. -/
theorem slice_finishFailed {db db₁ db₂ : Db} {now : Time} {row : Job} {workerId : Option String}
    {outcome : AttemptOutcome} {error reason defaultCallbackUrl : String} {eventId : EventId}
    {startedAt : Option Time} (written : (db.slice row.id).row = some row)
    (attempted : recordAttempt db now row.id row.attempts workerId outcome (some error) startedAt =
      .ok db₁)
    (followed : afterFailure db₁ now row error reason defaultCallbackUrl eventId = .ok db₂)
    (j : JobId) :
    (db.slice row.id).FreshAttempt row.attempts ∧
      (row.status = .deadLettered → (db.slice row.id).deadLetter = none) ∧
      db₂.slice j =
        if row.id = j then
          (db.slice j).finishFailed now row workerId outcome error reason
            (targetUrl row.callbackUrl defaultCallbackUrl) eventId startedAt
        else db.slice j := by
  obtain ⟨unburied, final⟩ := slice_afterFailure followed j
  rw [Db.slice_insertJobAttempt attempted] at unburied final
  simp only [if_true] at unburied
  refine ⟨Db.fresh_insertJobAttempt attempted, unburied, ?_⟩
  rw [final]
  split
  · next same =>
    subst same
    simp [Slice.finishFailed, written]
  · rfl

/-! ## Finishing -/

section finishing

variable {now : Time} {jobId : JobId} {claimToken : ClaimToken} {workerId : String}
  {defaultCallbackUrl : String} {eventId : EventId} {db db' : Db} {result : Option Transition}

theorem markSent_slice {providerMessageId : Option String}
    (returned : markSent now jobId claimToken workerId providerMessageId defaultCallbackUrl eventId
      db = .ok (result, db')) (j : JobId) :
    OpStep now j (db.slice j)
      (.markSent jobId claimToken workerId providerMessageId defaultCallbackUrl eventId)
      (finishedEvent (.ended .sent) result j) (db'.slice j) := by
  simp only [markSent] at returned
  split at returned
  · next unmatched =>
    rw [updateJobs_of_unmatched _ unmatched, pure_eq_ok] at returned
    cases returned
    exact .idle _
  · next row matched =>
    obtain ⟨old, member, owned, rfl⟩ := Table.mem_of_returning_head matched
    have named := (fenced_iff.mp owned).1
    have found : db.jobs.lookup jobId = some old := Table.lookup_eq_some.mpr ⟨member, named⟩
    have updated := slice_updateJobs_named (sentRow_keeps now)
      (fun row matched => (fenced_iff.mp matched).1) found owned
    simp only [bind_eq_ok] at returned
    obtain ⟨db₁, delivered, db₂, recorded, db₃, enqueued, returned⟩ := returned
    rw [pure_eq_ok] at returned
    cases returned
    -- each insert succeeded, so it found no row in its way
    have noDelivery := Db.fresh_insertDelivery delivered
    have noAttempt := Db.fresh_insertJobAttempt recorded
    have final := slice_enqueueWebhook enqueued j
    rw [Db.slice_insertJobAttempt recorded, Db.slice_insertDelivery delivered, updated] at final
    rw [Db.slice_insertDelivery delivered, updated] at noAttempt
    rw [updated] at noDelivery
    simp only [finishedEvent, transition, sentPayload, sentRow, named] at final ⊢
    by_cases same : jobId = j
    · subst same
      simp only [if_true] at final noAttempt noDelivery ⊢
      rw [final]
      have step : OpStep now jobId (db.slice jobId)
          (.markSent jobId claimToken workerId providerMessageId defaultCallbackUrl eventId) _ _ :=
        .sent found owned noDelivery noAttempt
      simpa only [Slice.finishSent, sentRow, sentPayload, named] using step
    · simp only [if_neg same] at final ⊢
      rw [final]
      exact .idle _

theorem markFailed_slice {error : String} {retryDelay : Time} {permanent : Bool}
    (returned : markFailed now jobId claimToken workerId error retryDelay permanent
      defaultCallbackUrl eventId db = .ok (result, db')) (j : JobId) :
    OpStep now j (db.slice j)
      (.markFailed jobId claimToken workerId error retryDelay permanent defaultCallbackUrl eventId)
      (finishedEvent (.ended .failed) result j) (db'.slice j) := by
  simp only [markFailed] at returned
  split at returned
  · next unmatched =>
    rw [updateJobs_of_unmatched _ unmatched, pure_eq_ok] at returned
    cases returned
    exact .idle _
  · next row matched =>
    obtain ⟨old, member, owned, rfl⟩ := Table.mem_of_returning_head matched
    have named := (fenced_iff.mp owned).1
    subst named
    have found : db.jobs.lookup old.id = some old := Table.lookup_of_mem member
    have updated := slice_updateJobs_named (failedRow_keeps now error retryDelay permanent)
      (fun row matched => (fenced_iff.mp matched).1) found owned
    simp only [bind_eq_ok] at returned
    obtain ⟨db₁, recorded, db₂, followed, returned⟩ := returned
    rw [pure_eq_ok] at returned
    cases returned
    have written : ((db.updateJobs (fenced old.id claimToken)
        (failedRow now error retryDelay permanent) (failedRow_keeps _ _ _ _)).slice
          (failedRow now error retryDelay permanent old).id).row =
        some (failedRow now error retryDelay permanent old) := by
      rw [updated]
      simp [failedRow]
    obtain ⟨fresh, unburied, final⟩ := slice_finishFailed written recorded followed j
    rw [updated] at fresh unburied final
    by_cases same : old.id = j
    · subst same
      simp only [failedRow, if_true] at fresh unburied
      have step : OpStep now old.id (db.slice old.id) (.markFailed old.id claimToken workerId error
          retryDelay permanent defaultCallbackUrl eventId) _ _ := .failed found owned fresh unburied
      simpa [final, finishedEvent, transition, failedRow, Slice.finishFailed, failureReason]
        using step
    · have untouched : db'.slice j = db.slice j := by
        simpa [failedRow, same] using final
      rw [untouched]
      simpa [finishedEvent, transition, failedRow, same] using OpStep.idle _

theorem returnToQueue_slice {delaySeconds : Time}
    (returned : returnToQueue now jobId claimToken delaySeconds db = (result, db')) (j : JobId) :
    OpStep now j (db.slice j) (.returnToQueue jobId claimToken delaySeconds)
      (finishedEvent (fun _ => .returned) result j) (db'.slice j) := by
  simp only [returnToQueue, Prod.mk.injEq] at returned
  obtain ⟨rfl, rfl⟩ := returned
  cases matched : (db.jobs.returning (fenced jobId claimToken)
      (returnedRow now delaySeconds)).head? with
  | none =>
    rw [updateJobs_of_unmatched _ matched]
    exact .idle _
  | some row =>
    obtain ⟨old, member, owned, rfl⟩ := Table.mem_of_returning_head matched
    have named := (fenced_iff.mp owned).1
    subst named
    have found : db.jobs.lookup old.id = some old := Table.lookup_of_mem member
    have updated := slice_updateJobs_named (returnedRow_keeps now delaySeconds)
      (fun row matched => (fenced_iff.mp matched).1) found owned
    rw [updated]
    by_cases same : old.id = j
    · subst same
      simpa [finishedEvent, transition, returnedRow] using
        OpStep.returned found owned
    · simpa [finishedEvent, transition, returnedRow, same] using OpStep.idle _

end finishing

/-! ## Creating and requeueing -/

theorem createJob_slice {now : Time} {id : JobId} {new : NewJob} {db db' : Db} {job : Job}
    {isNew : Bool} (returned : createJob now id new db = .ok ((job, isNew), db')) (j : JobId) :
    OpStep now j (db.slice j) (.createJob id new)
      (if isNew && job.id = j then some (.created new.maxAttempts) else none) (db'.slice j) := by
  obtain ⟨⟨row, db₁⟩, inserted, returned⟩ := bind_eq_ok.mp returned
  cases row with
  | none =>
    -- the key is taken: nothing is written
    obtain ⟨existing, _, returned⟩ := bind_eq_ok.mp returned
    rw [pure_eq_ok] at returned
    cases returned
    have unchanged : db' = db := by
      unfold insertJob at inserted
      split at inserted
      · contradiction
      · split at inserted <;> cases inserted
        rfl
    rw [unchanged]
    exact .idle _
  | some row =>
    rw [pure_eq_ok] at returned
    cases returned
    unfold insertJob at inserted
    split at inserted
    · contradiction
    · next cap =>
      split at inserted
      · next db₂ ok =>
        cases inserted
        have absent := Db.fresh_insertJob ok
        rw [Db.slice_insertJob ok]
        by_cases same : id = j
        · subst same
          simpa [NewJob.row] using OpStep.created absent (not_lt.mp cap)
        · simpa [NewJob.row, same] using OpStep.idle _
      · cases inserted
      · cases inserted

theorem requeueDeadLetter_slice {now : Time} {jobId : JobId} {extraAttempts : Int} {db db' : Db}
    {result : Option Transition}
    (returned : requeueDeadLetter now jobId extraAttempts db = .ok (result, db')) (j : JobId) :
    OpStep now j (db.slice j) (.requeueDeadLetter jobId extraAttempts)
      (finishedEvent (fun _ => .requeued extraAttempts) result j) (db'.slice j) := by
  simp only [requeueDeadLetter] at returned
  split at returned
  · contradiction
  · next cap =>
    split at returned
    · next unmatched =>
      rw [updateJobs_of_unmatched _ unmatched] at returned
      cases returned
      exact .idle _
    · next row matched =>
      obtain ⟨old, member, dead, rfl⟩ := Table.mem_of_returning_head matched
      cases returned
      have inReturning := List.mem_of_head? matched
      -- the guard looks at every row that the update returned
      have capped : 1 ≤ old.attempts + extraAttempts := by
        simp only [List.any_eq_true, not_exists, not_and, decide_eq_true_eq, not_lt] at cap
        exact cap _ inReturning
      have named : old.id = jobId ∧ old.status = .deadLettered := by
        simpa [isDeadLettered] using dead
      obtain ⟨rfl, isDead⟩ := named
      have found : db.jobs.lookup old.id = some old := Table.lookup_of_mem member
      have updated := slice_updateJobs_named (requeuedRow_keeps now extraAttempts)
        (fun row matched => by simpa using (by simpa [isDeadLettered] using matched :
          row.id = old.id ∧ row.status = .deadLettered).1) found dead
      rw [Db.slice_deleteDeadLetter, updated]
      by_cases same : old.id = j
      · subst same
        simpa [finishedEvent, transition, requeuedRow] using
          OpStep.requeued found isDead capped
      · simpa [finishedEvent, transition, requeuedRow, same] using OpStep.idle _

/-! ## Claiming and reaping -/

theorem selected_iff {db : Db} {rows : List Job} (subset : ∀ row ∈ rows, row ∈ db.jobs.rows)
    {row : Job} (member : row ∈ db.jobs.rows) : selected rows row = true ↔ row ∈ rows := by
  simp only [selected, List.any_eq_true, decide_eq_true_eq]
  constructor
  · rintro ⟨other, inRows, same⟩
    rw [← List.inj_on_of_nodup_map db.jobs.pk_nodup (subset other inRows) member same]
    exact inRows
  · intro inRows
    exact ⟨row, inRows, rfl⟩

theorem mem_dueJobs {now : Time} {batchSize : Nat} {choices : Choices} {db : Db} {row : Job}
    (member : row ∈ dueJobs now batchSize choices db) :
    row ∈ db.jobs.rows ∧ isDue now row = true ∧ choices.locked row.id = false := by
  simpa [Table.select] using mem_of_mem_topRows member

theorem mem_expiredJobs {now : Time} {limit : Nat} {choices : Choices} {db : Db} {row : Job}
    (member : row ∈ expiredJobs now limit choices db) :
    row ∈ db.jobs.rows ∧ row.status = .processing ∧ leaseExpired now row = true ∧
      choices.locked row.id = false := by
  simpa [Table.select, and_assoc] using mem_of_mem_topRows member

/-- What an update of selected rows does to a slice. -/
theorem slice_updateJobs_selected {db : Db} {rows : List Job} {set : Job → Job}
    (keeps : KeepsKeys set) (subset : ∀ row ∈ rows, row ∈ db.jobs.rows) (j : JobId) :
    (∃ row ∈ rows, row.id = j ∧ db.jobs.lookup j = some row ∧
        (db.updateJobs (selected rows) set keeps).slice j =
          { db.slice j with row := some (set row) }) ∨
      (∀ row ∈ rows, row.id ≠ j) ∧ (db.updateJobs (selected rows) set keeps).slice j = db.slice j := by
  rw [Db.slice_updateJobs]
  by_cases chosen : ∃ row ∈ rows, row.id = j
  · obtain ⟨row, inRows, rfl⟩ := chosen
    have member := subset row inRows
    have found : db.jobs.lookup row.id = some row := Table.lookup_of_mem member
    refine .inl ⟨row, inRows, rfl, found, ?_⟩
    simp [Db.slice, found, (selected_iff subset member).mpr inRows]
  · simp only [not_exists, not_and] at chosen
    refine .inr ⟨chosen, ?_⟩
    cases found : db.jobs.lookup j with
    | none => simp [Db.slice, found]
    | some row =>
      have member := Table.mem_of_lookup found
      have unselected : ¬ selected rows row = true := fun chosenRow =>
        chosen row ((selected_iff subset member).mp chosenRow) (Table.pk_of_lookup found)
      simp [Db.slice, found, unselected]

theorem slice_of_selected {db : Db} {rows : List Job} {set : Job → Job} (keeps : KeepsKeys set)
    (subset : ∀ row ∈ rows, row ∈ db.jobs.rows) {row : Job} (member : row ∈ rows) :
    (db.updateJobs (selected rows) set keeps).slice row.id =
      { db.slice row.id with row := some (set row) } := by
  have found : db.jobs.lookup row.id = some row := Table.lookup_of_mem (subset row member)
  have chosen := (selected_iff subset (subset row member)).mpr member
  rw [Db.slice_updateJobs]
  simp [Db.slice, found, chosen]

theorem mem_arrange_selected (choices : Choices) {db : Db} {rows : List Job}
    (subset : ∀ row ∈ rows, row ∈ db.jobs.rows) {row : Job} :
    row ∈ choices.returned.arrange (db.jobs.select (selected rows)) ↔ row ∈ rows := by
  rw [RowOrder.mem_arrange, Table.select, List.mem_filter]
  constructor
  · rintro ⟨member, chosen⟩
    exact (selected_iff subset member).mp chosen
  · intro member
    exact ⟨subset row member, (selected_iff subset (subset row member)).mpr member⟩

/-- The jobs that a claim returns are the selected rows after the update. -/
theorem mem_claimDueJobs {now : Time} {workerId : String} {batchSize : Nat} {leaseSeconds : Time}
    {newToken : JobId → ClaimToken} {choices : Choices} {db : Db} {job : Job} :
    job ∈ (claimDueJobs now workerId batchSize leaseSeconds newToken choices db).1 ↔
      ∃ row ∈ dueJobs now batchSize choices db,
        claimedRow now workerId leaseSeconds newToken row = job := by
  simp only [claimDueJobs, List.mem_insertionSort, RowOrder.mem_arrange, Table.mem_returning]
  constructor
  · rintro ⟨row, member, chosen, rfl⟩
    exact ⟨row, (selected_iff (fun row inDue => (mem_dueJobs inDue).1) member).mp chosen, rfl⟩
  · rintro ⟨row, inDue, rfl⟩
    have member := (mem_dueJobs inDue).1
    exact ⟨row, member,
      (selected_iff (fun row inDue => (mem_dueJobs inDue).1) member).mpr inDue, rfl⟩

/-- A claimed job is a due row before the claim, and the returned row after it. -/
theorem lookup_of_claimed {now : Time} {workerId : String} {batchSize : Nat} {leaseSeconds : Time}
    {newToken : JobId → ClaimToken} {choices : Choices} {db db' : Db} {jobs : List Job} {job : Job}
    (returned : claimDueJobs now workerId batchSize leaseSeconds newToken choices db = (jobs, db'))
    (member : job ∈ jobs) :
    ∃ row, db.jobs.lookup job.id = some row ∧ isDue now row = true ∧
      claimedRow now workerId leaseSeconds newToken row = job ∧ db'.jobs.lookup job.id = some job := by
  have tables : db' = db.updateJobs (selected (dueJobs now batchSize choices db))
      (claimedRow now workerId leaseSeconds newToken) (claimedRow_keeps _ _ _ _) :=
    (congrArg Prod.snd returned).symm
  have same : (claimDueJobs now workerId batchSize leaseSeconds newToken choices db).1 = jobs :=
    congrArg Prod.fst returned
  obtain ⟨row, inDue, rfl⟩ := mem_claimDueJobs.mp (same ▸ member)
  have ⟨inTable, due, _⟩ := mem_dueJobs inDue
  have found : db.jobs.lookup row.id = some row := Table.lookup_of_mem inTable
  have chosen := (selected_iff (fun row inDue => (mem_dueJobs inDue).1) inTable).mpr inDue
  refine ⟨row, found, due, rfl, ?_⟩
  rw [tables, Db.updateJobs, Table.lookup_update]
  simp [claimedRow, found, chosen]

theorem claimDueJobs_slice {now : Time} {workerId : String} {batchSize : Nat} {leaseSeconds : Time}
    {newToken : JobId → ClaimToken} {choices : Choices} {db db' : Db} {jobs : List Job}
    (returned : claimDueJobs now workerId batchSize leaseSeconds newToken choices db = (jobs, db'))
    (j : JobId) :
    OpStep now j (db.slice j) (.claimDueJobs workerId batchSize leaseSeconds newToken choices)
      (if jobs.any fun job => job.id = j then some .claimed else none) (db'.slice j) := by
  have members : ∀ job, job ∈ jobs ↔ ∃ row ∈ dueJobs now batchSize choices db,
      claimedRow now workerId leaseSeconds newToken row = job := by
    intro job
    rw [← mem_claimDueJobs, returned]
  -- the rows of the batch are those the statement selected
  have tables : db' = db.updateJobs (selected (dueJobs now batchSize choices db))
      (claimedRow now workerId leaseSeconds newToken) (claimedRow_keeps _ _ _ _) :=
    (congrArg Prod.snd returned).symm
  subst tables
  rcases slice_updateJobs_selected (claimedRow_keeps now workerId leaseSeconds newToken)
      (fun row inDue => (mem_dueJobs inDue).1) j with
    ⟨row, inDue, named, found, updated⟩ | ⟨unnamed, unchanged⟩
  · have claimed : (jobs.any fun job => job.id = j) = true := by
      simp only [List.any_eq_true, decide_eq_true_eq]
      exact ⟨_, (members _).mpr ⟨row, inDue, rfl⟩, named⟩
    have unlocked : choices.locked j = false := by
      rw [← named]
      exact (mem_dueJobs inDue).2.2
    rw [updated, if_pos claimed]
    exact .claimed (limit_of_mem_topRows inDue) unlocked found (mem_dueJobs inDue).2.1
  · have unclaimed : ¬ (jobs.any fun job => job.id = j) = true := by
      simp only [List.any_eq_true, decide_eq_true_eq, not_exists, not_and]
      intro job member
      obtain ⟨row, inDue, rfl⟩ := (members job).mp member
      exact unnamed row inDue
    rw [unchanged, if_neg unclaimed]
    exact .idle _

/-- One round of the reaper's loop, on the row that the update before the loop wrote. -/
theorem recordReaped_slice {now : Time} {defaultCallbackUrl : String} {newEvent : JobId → EventId}
    {db db' : Db} {old : Job} (written : (db.slice old.id).row = some (reapedRow now old))
    (recorded : recordReaped now defaultCallbackUrl newEvent db old = .ok db') (j : JobId) :
    (db.slice old.id).FreshAttempt old.attempts ∧
      ((reapedRow now old).status = .deadLettered → (db.slice old.id).deadLetter = none) ∧
      db'.slice j =
        if old.id = j then
          (db.slice j).finishFailed now (reapedRow now old) old.lockedBy .leaseExpired
            leaseExpiredError maxAttemptsReason (targetUrl old.callbackUrl defaultCallbackUrl)
            (newEvent old.id) old.claimedAt
        else db.slice j := by
  obtain ⟨db₁, attempted, followed⟩ := bind_eq_ok.mp recorded
  have attempted : recordAttempt db now (reapedRow now old).id (reapedRow now old).attempts
    old.lockedBy .leaseExpired (some leaseExpiredError) old.claimedAt = .ok db₁ := attempted
  exact slice_finishFailed written attempted followed j

/-- What the reaper's loop has done to the job `j` after the rows `done`, starting from the
    tables `db` that the update left. -/
def ReapedSoFar (now : Time) (defaultCallbackUrl : String) (newEvent : JobId → EventId) (db : Db)
    (j : JobId) (done : List Job) (db' : Db) : Prop :=
  (∃ old ∈ done, old.id = j ∧ (db.slice j).FreshAttempt old.attempts ∧
      ((reapedRow now old).status = .deadLettered → (db.slice j).deadLetter = none) ∧
      db'.slice j =
        (db.slice j).finishFailed now (reapedRow now old) old.lockedBy .leaseExpired
          leaseExpiredError maxAttemptsReason (targetUrl old.callbackUrl defaultCallbackUrl)
          (newEvent old.id) old.claimedAt) ∨
    (∀ old ∈ done, old.id ≠ j) ∧ db'.slice j = db.slice j

theorem reapLoop_slice {now : Time} {defaultCallbackUrl : String} {newEvent : JobId → EventId}
    {db db' : Db} {rows : List Job} (nodup : (rows.map Job.id).Nodup)
    (written : ∀ old ∈ rows, (db.slice old.id).row = some (reapedRow now old))
    (looped : rows.foldlM (recordReaped now defaultCallbackUrl newEvent) db = .ok db') (j : JobId) :
    ReapedSoFar now defaultCallbackUrl newEvent db j rows db' := by
  -- the rows that are still to come have not been touched: their ids do not repeat
  let P : List Job → Db → Prop := fun done b =>
    (done.map Job.id).Nodup → (∀ old ∈ done, old ∈ rows) →
      ∀ j, ReapedSoFar now defaultCallbackUrl newEvent db j done b
  have step : ∀ done old b b', P done b →
      recordReaped now defaultCallbackUrl newEvent b old = .ok b' → P (done ++ [old]) b' := by
    intro done old b b' holds recorded nodup subset j
    have fresh : ∀ other ∈ done, other.id ≠ old.id := by
      intro other member same
      rw [List.map_append, List.nodup_append] at nodup
      exact nodup.2.2 other.id (List.mem_map_of_mem member) old.id (by simp) same
    have holds := holds (nodup.sublist ((List.sublist_append_left done [old]).map Job.id))
      (fun other member => subset other (List.mem_append_left _ member))
    -- the rounds before had other ids, so this row is as the update left it
    have untouched : b.slice old.id = db.slice old.id := by
      rcases holds old.id with ⟨other, member, same, _⟩ | ⟨_, unchanged⟩
      · exact absurd same (fresh other member)
      · exact unchanged
    have isWritten : (b.slice old.id).row = some (reapedRow now old) := by
      rw [untouched]
      exact written old (subset old (by simp))
    obtain ⟨freshAttempt, unburied, final⟩ := recordReaped_slice isWritten recorded j
    rw [untouched] at freshAttempt unburied
    by_cases same : old.id = j
    · subst same
      rw [if_pos rfl, untouched] at final
      exact .inl ⟨old, by simp, rfl, freshAttempt, unburied, final⟩
    -- a round on another job keeps what was done to `j`
    · rw [if_neg same] at final
      rcases holds j with ⟨other, member, rest⟩ | ⟨others, unchanged⟩
      · rw [← final] at rest
        exact .inl ⟨other, List.mem_append_left _ member, rest⟩
      · refine .inr ⟨?_, final.trans unchanged⟩
        intro other member
        rcases List.mem_append.mp member with inDone | last
        · exact others other inDone
        · rw [List.mem_singleton.mp last]
          exact same
  have start : P [] db := fun _ _ _ => .inr ⟨by simp, rfl⟩
  exact foldlM_ok step start looped nodup (fun _ member => member) j

theorem reapLoop_untouched {now : Time} {defaultCallbackUrl : String} {newEvent : JobId → EventId}
    {db db' : Db} {rows : List Job} (nodup : (rows.map Job.id).Nodup)
    (written : ∀ old ∈ rows, (db.slice old.id).row = some (reapedRow now old))
    (looped : rows.foldlM (recordReaped now defaultCallbackUrl newEvent) db = .ok db') {j : JobId}
    (unnamed : ∀ old ∈ rows, old.id ≠ j) : db'.slice j = db.slice j := by
  cases reapLoop_slice nodup written looped j with
  | inl touched =>
    obtain ⟨old, member, named, _⟩ := touched
    exact absurd named (unnamed old member)
  | inr untouched => exact untouched.2

theorem arrange_select_nodup (choices : Choices) (db : Db) (p : Job → Bool) :
    ((choices.returned.arrange (db.jobs.select p)).map Job.id).Nodup :=
  ((choices.returned.perm _).map Job.id).nodup_iff.mpr
    (db.jobs.pk_nodup.sublist (List.filter_sublist.map Job.id))

/-- The reaper returns one transition for each job. -/
theorem reaped_nodup {now : Time} {limit : Nat} {defaultCallbackUrl : String}
    {newEvent : JobId → EventId} {choices : Choices} {db db' : Db} {ts : List Transition}
    (returned : reapExpiredLeases now limit defaultCallbackUrl newEvent choices db = .ok (ts, db')) :
    (ts.map Transition.jobId).Nodup := by
  obtain ⟨_, _, returned⟩ := bind_eq_ok.mp returned
  rw [pure_eq_ok] at returned
  obtain ⟨rfl, _⟩ := Prod.mk.inj returned
  rw [List.map_map]
  exact arrange_select_nodup choices db _

theorem reapExpiredLeases_slice {now : Time} {limit : Nat} {defaultCallbackUrl : String}
    {newEvent : JobId → EventId} {choices : Choices} {db db' : Db} {ts : List Transition}
    (returned : reapExpiredLeases now limit defaultCallbackUrl newEvent choices db = .ok (ts, db'))
    (j : JobId) :
    OpStep now j (db.slice j) (.reapExpiredLeases limit defaultCallbackUrl newEvent choices)
      (finishedEvent (.ended .leaseExpired) (ts.find? fun t => t.jobId = j) j) (db'.slice j) := by
  obtain ⟨db₁, looped, returned⟩ := bind_eq_ok.mp returned
  rw [pure_eq_ok] at returned
  obtain ⟨rfl, rfl⟩ := Prod.mk.inj returned
  have inTable : ∀ row ∈ expiredJobs now limit choices db, row ∈ db.jobs.rows :=
    fun row member => (mem_expiredJobs member).1
  have members : ∀ row, row ∈ choices.returned.arrange
      (db.jobs.select (selected (expiredJobs now limit choices db))) ↔
        row ∈ expiredJobs now limit choices db := fun _ => mem_arrange_selected choices inTable
  have nodup := arrange_select_nodup choices db (selected (expiredJobs now limit choices db))
  generalize choices.returned.arrange
    (db.jobs.select (selected (expiredJobs now limit choices db))) = rows at *
  have updated : ∀ old ∈ rows, (db.updateJobs (selected (expiredJobs now limit choices db))
      (reapedRow now) (reapedRow_keeps now)).slice old.id =
        { db.slice old.id with row := some (reapedRow now old) } := fun old member =>
    slice_of_selected (reapedRow_keeps now) inTable ((members old).mp member)
  have written : ∀ old ∈ rows, ((db.updateJobs (selected (expiredJobs now limit choices db))
      (reapedRow now) (reapedRow_keeps now)).slice old.id).row = some (reapedRow now old) := by
    intro old member
    rw [updated old member]
  rcases reapLoop_slice nodup written looped j with
    ⟨old, member, rfl, fresh, unburied, final⟩ | ⟨others, final⟩
  -- the job is among the rows: its round finished it
  · have inExpired := (members old).mp member
    have ⟨_, processing, expired, unlocked⟩ := mem_expiredJobs inExpired
    have found : db.jobs.lookup old.id = some old := Table.lookup_of_mem (inTable old inExpired)
    have first : (rows.map fun old => transition (reapedRow now old)).find?
        (fun t => t.jobId = old.id) = some (transition (reapedRow now old)) := by
      rw [List.find?_map]
      exact congrArg (Option.map _) (Table.find?_key nodup member)
    rw [updated old member] at fresh unburied final
    rw [first, final]
    have step : OpStep now old.id (db.slice old.id)
        (.reapExpiredLeases limit defaultCallbackUrl newEvent choices) _ _ :=
      .reaped (limit_of_mem_topRows inExpired) unlocked found processing expired fresh unburied
    simpa [finishedEvent, transition, reapedRow, Slice.finishFailed] using step
  -- the job is not among the rows: nothing names it
  · have none : (rows.map fun old => transition (reapedRow now old)).find?
        (fun t => t.jobId = j) = none := by
      rw [List.find?_eq_none]
      intro t inTs
      obtain ⟨old, member, rfl⟩ := List.mem_map.mp inTs
      simpa [transition, reapedRow] using others old member
    have unchanged : (db.updateJobs (selected (expiredJobs now limit choices db))
        (reapedRow now) (reapedRow_keeps now)).slice j = db.slice j := by
      rcases slice_updateJobs_selected (reapedRow_keeps now) inTable j with
        ⟨row, inRows, same, _⟩ | ⟨_, unchanged⟩
      · exact absurd same (others row ((members row).mpr inRows))
      · exact unchanged
    rw [none, final, unchanged]
    exact .idle _

/-! ## Every call -/

/-- The spec of the operations, for one job. -/
theorem commit_op {op : JobOp} {now : Time} {db db' : Db} {answer : Answer}
    (committed : op.commit now db = (answer, db')) (j : JobId) :
    OpStep now j (db.slice j) op (Call.eventFor ⟨op, now, answer⟩ j) (db'.slice j) := by
  -- a call that raised left the tables alone; the others have their own lemma
  have raised : ∀ abort, answer = .raised abort → db' = db →
      OpStep now j (db.slice j) op (Call.eventFor ⟨op, now, answer⟩ j) (db'.slice j) := by
    rintro abort rfl rfl
    cases op <;> exact .idle _
  cases op with
  | createJob id new =>
    rw [commit_createJob] at committed
    split at committed <;> obtain ⟨rfl, rfl⟩ := Prod.mk.inj committed
    · next job isNew _ created =>
      have step := createJob_slice created j
      cases isNew <;> simpa [Call.eventFor] using step
    · exact raised _ rfl rfl
  | claimDueJobs workerId batchSize leaseSeconds newToken choices =>
    rw [commit_claimDueJobs] at committed
    obtain ⟨rfl, rfl⟩ := Prod.mk.inj committed
    exact claimDueJobs_slice rfl j
  | markSent jobId claimToken workerId providerMessageId defaultCallbackUrl eventId =>
    rw [commit_markSent] at committed
    split at committed <;> obtain ⟨rfl, rfl⟩ := Prod.mk.inj committed
    · next finished => exact markSent_slice finished j
    · exact raised _ rfl rfl
  | markFailed jobId claimToken workerId error retryDelay permanent defaultCallbackUrl eventId =>
    rw [commit_markFailed] at committed
    split at committed <;> obtain ⟨rfl, rfl⟩ := Prod.mk.inj committed
    · next finished => exact markFailed_slice finished j
    · exact raised _ rfl rfl
  | returnToQueue jobId claimToken delaySeconds =>
    rw [commit_returnToQueue] at committed
    obtain ⟨rfl, rfl⟩ := Prod.mk.inj committed
    exact returnToQueue_slice rfl j
  | reapExpiredLeases limit defaultCallbackUrl newEvent choices =>
    rw [commit_reapExpiredLeases] at committed
    split at committed <;> obtain ⟨rfl, rfl⟩ := Prod.mk.inj committed
    · next reaped => exact reapExpiredLeases_slice reaped j
    · exact raised _ rfl rfl
  | requeueDeadLetter jobId extraAttempts =>
    rw [commit_requeueDeadLetter] at committed
    split at committed <;> obtain ⟨rfl, rfl⟩ := Prod.mk.inj committed
    · next finished => exact requeueDeadLetter_slice finished j
    · exact raised _ rfl rfl

theorem commit_slice {op : JobOp} {now : Time} {db db' : Db} {answer : Answer}
    (committed : op.commit now db = (answer, db')) (j : JobId) :
    SliceStep now j (db.slice j) (Call.eventFor ⟨op, now, answer⟩ j) (db'.slice j) :=
  (commit_op committed j).slice

/-! ## Terminal jobs -/

section

variable {now : Time} {j : JobId} {s s' : Slice} {op : JobOp} {event : Option JobEvent} {row : Job}

/-- A job that was sent or dead-lettered is moved by a requeue only. -/
theorem OpStep.terminal_cases (step : OpStep now j s op event s') (present : s.row = some row)
    (terminal : row.status.isTerminal = true) :
    s' = s ∨ ∃ extraAttempts, op = .requeueDeadLetter j extraAttempts ∧
      row.status = .deadLettered ∧ 1 ≤ row.attempts + extraAttempts := by
  -- neither open status is terminal
  have notPending : row.status ≠ .pending := by
    intro pending
    simp [pending, JobStatus.isTerminal] at terminal
  have notProcessing : row.status ≠ .processing := by
    intro processing
    simp [processing, JobStatus.isTerminal] at terminal
  -- a claim takes a pending job, and every way to end a claim a processing one
  cases step with
  | idle => exact .inl rfl
  | created absent _ => cases absent.symm.trans present
  | claimed _ _ found due =>
    cases found.symm.trans present
    exact absurd (isDue_iff.mp due).1 notPending
  | sent found owned _ _ =>
    cases found.symm.trans present
    exact absurd (fenced_iff.mp owned).2.2 notProcessing
  | failed found owned _ _ =>
    cases found.symm.trans present
    exact absurd (fenced_iff.mp owned).2.2 notProcessing
  | reaped _ _ found processing _ _ _ =>
    cases found.symm.trans present
    exact absurd processing notProcessing
  | returned found owned =>
    cases found.symm.trans present
    exact absurd (fenced_iff.mp owned).2.2 notProcessing
  | @requeued _ extraAttempts found dead cap =>
    cases found.symm.trans present
    exact .inr ⟨extraAttempts, rfl, dead, cap⟩

/-- A sent job never moves again. -/
theorem OpStep.idle_of_sent (step : OpStep now j s op event s') (present : s.row = some row)
    (sent : row.status = .sent) : s' = s := by
  have terminal : row.status.isTerminal = true := by simp [sent, JobStatus.isTerminal]
  cases step.terminal_cases present terminal with
  | inl same => exact same
  | inr requeued =>
    obtain ⟨_, _, dead, _⟩ := requeued
    rw [sent] at dead
    contradiction

end

/-- The induction rule for one job: what holds of an absent job and survives every step
    of a slice holds of every job in every run. -/
theorem slice_invariant {I : Slice → Prop} (start : I ⟨none, none, none, [], []⟩)
    (step : ∀ now j s event s', I s → SliceStep now j s event s' → I s')
    {history : JobHistory} {db : Db} (run : Runs.Run jobSystem history db) (j : JobId) :
    I (db.slice j) := by
  have holds : ∀ j, I (db.slice j) := by
    refine Runs.Run.state_invariant (I := fun db => ∀ j, I (db.slice j)) ?_ ?_ run
    · rintro _ rfl j
      rw [Db.slice_empty]
      exact start
    · intro db call db' holds committed j
      exact step _ j _ _ _ (holds j) (commit_slice committed j)
  exact holds j

end NotifyQueue
