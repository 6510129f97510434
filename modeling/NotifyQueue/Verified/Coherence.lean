import NotifyQueue.Verified.SliceSteps

/-! # The tables agree about a job

What the status of a job says about its claim columns (`ClaimColumns`), about the rows of
the satellite tables (`Filed`), about its attempts (`Counted`) and about its webhook events
(`Announces`).  `Coherent` is all of it, and every step of a slice keeps it, whatever the
arguments of the operation are.

`Capped` is about `max_attempts`.  It needs requeues that grant at least one attempt: with
fewer, a requeued job would be pending without a try left. -/

namespace NotifyQueue

open Runs Tables

structure ClaimColumns (row : Job) : Prop where
  claimToken : row.claimToken.isSome = true ↔ row.status = .processing
  lockedBy : row.lockedBy.isSome = true ↔ row.status = .processing
  leaseExpiresAt : row.leaseExpiresAt.isSome = true ↔ row.status = .processing

structure Filed (s : Slice) (row : Job) : Prop where
  sentAt : row.sentAt.isSome = true ↔ row.status = .sent
  delivery : s.delivery.isSome = true ↔ row.status = .sent
  deadLetter : s.deadLetter.isSome = true ↔ row.status = .deadLettered
  sentClean : row.status = .sent → row.lastError = none
  buried : ∀ letter, s.deadLetter = some letter →
    letter.attempts = row.attempts ∧ letter.lastError = row.lastError ∧
      (letter.reason = maxAttemptsReason → row.maxAttempts ≤ row.attempts)

/-- The number of the last attempt that is over. -/
def Job.lastClosed (row : Job) : Int :=
  if row.status = .processing then row.attempts - 1 else row.attempts

structure Counted (s : Slice) (row : Job) : Prop where
  nonneg : 0 ≤ row.attempts
  started : row.status ≠ .pending → 1 ≤ row.attempts
  numbered : ∀ n, (∃ attempt ∈ s.attempts, attempt.attemptNo = n) ↔ 1 ≤ n ∧ n ≤ row.lastClosed
  sentAttempt : ∀ attempt ∈ s.attempts,
    attempt.outcome = .sent ↔ row.status = .sent ∧ attempt.attemptNo = row.attempts

/-- The event that was written together with an attempt. -/
structure Announces (event : OutboxRow) (attempt : JobAttempt) : Prop where
  attempts : event.payload.attempts = attempt.attemptNo
  sent : event.event = .sent ↔ attempt.outcome = .sent

structure RowCoherent (s : Slice) (row : Job) : Prop extends
  ClaimColumns row, Filed s row, Counted s row

structure Coherent (s : Slice) : Prop where
  absent : s.row = none → s = ⟨none, none, none, [], []⟩
  present : ∀ row, s.row = some row → RowCoherent s row
  announced : List.Forall₂ Announces s.events s.attempts

/-! ## Parts of the invariant -/

/-- A row without claim columns is not processing. -/
theorem ClaimColumns.of_clear {row : Job} (idle : row.status ≠ .processing)
    (claimToken : row.claimToken = none) (lockedBy : row.lockedBy = none)
    (leaseExpiresAt : row.leaseExpiresAt = none) : ClaimColumns row where
  claimToken := by simp [claimToken, idle]
  lockedBy := by simp [lockedBy, idle]
  leaseExpiresAt := by simp [leaseExpiresAt, idle]

theorem ClaimColumns.clear {row : Job} (columns : ClaimColumns row) (idle : row.status ≠ .processing) :
    row.claimToken = none ∧ row.lockedBy = none ∧ row.leaseExpiresAt = none := by
  refine ⟨?_, ?_, ?_⟩
  · simpa [idle] using columns.claimToken
  · simpa [idle] using columns.lockedBy
  · simpa [idle] using columns.leaseExpiresAt

/-- A job that is neither sent nor given up has no row in the satellite tables. -/
theorem Filed.of_open {s : Slice} {row : Job} (unsent : row.status ≠ .sent)
    (alive : row.status ≠ .deadLettered) (sentAt : row.sentAt = none) (delivery : s.delivery = none)
    (deadLetter : s.deadLetter = none) : Filed s row where
  sentAt := by simp [sentAt, unsent]
  delivery := by simp [delivery, unsent]
  deadLetter := by simp [deadLetter, alive]
  sentClean := fun sent => absurd sent unsent
  buried := by simp [deadLetter]

theorem Filed.open {s : Slice} {row : Job} (filed : Filed s row) (unsent : row.status ≠ .sent)
    (alive : row.status ≠ .deadLettered) :
    row.sentAt = none ∧ s.delivery = none ∧ s.deadLetter = none := by
  refine ⟨?_, ?_, ?_⟩
  · simpa [unsent] using filed.sentAt
  · simpa [unsent] using filed.delivery
  · simpa [alive] using filed.deadLetter

/-- Recording the attempt of a processing job closes it. -/
theorem numbered_append {attempts : List JobAttempt} {attempt : JobAttempt} {count : Int}
    (started : 1 ≤ count) (named : attempt.attemptNo = count)
    (numbered : ∀ n, (∃ other ∈ attempts, other.attemptNo = n) ↔ 1 ≤ n ∧ n ≤ count - 1) (n : Int) :
    (∃ other ∈ attempts ++ [attempt], other.attemptNo = n) ↔ 1 ≤ n ∧ n ≤ count := by
  have split : (∃ other ∈ attempts ++ [attempt], other.attemptNo = n) ↔
      (∃ other ∈ attempts, other.attemptNo = n) ∨ n = count := by
    simp only [List.mem_append, List.mem_singleton, or_and_right, exists_or, exists_eq_left, named]
    rw [eq_comm (a := count)]
  rw [split, numbered n]
  omega

/-! ## One failed attempt -/

/-- What `mark_failed` and the reaper leave behind, for the row `row'` that their update
    wrote in place of the processing row `row`. -/
theorem RowCoherent.finishFailed {s : Slice} {now : Time} {row row' : Job} {workerId : Option String}
    {outcome : AttemptOutcome} {error reason url : String} {eventId : EventId}
    {startedAt : Option Time} (coherent : RowCoherent s row) (processing : row.status = .processing)
    (status : row'.status = .pending ∨ row'.status = .deadLettered)
    (cleared : row'.claimToken = none ∧ row'.lockedBy = none ∧ row'.leaseExpiresAt = none)
    (attempts : row'.attempts = row.attempts) (sentAt : row'.sentAt = row.sentAt)
    (lastError : row'.lastError = some error) (notSent : outcome ≠ .sent)
    (exhausted : row'.status = .deadLettered → reason = maxAttemptsReason →
      row'.maxAttempts ≤ row'.attempts) :
    RowCoherent (s.finishFailed now row' workerId outcome error reason url eventId startedAt) row' := by
  have idle : row'.status ≠ .processing := by
    intro same
    simp [same] at status
  have unsent : row'.status ≠ .sent := by
    intro same
    simp [same] at status
  obtain ⟨neverSent, noDelivery, noLetter⟩ :=
    coherent.toFiled.open (by simp [processing]) (by simp [processing])
  have count : 1 ≤ row.attempts := coherent.started (by simp [processing])
  have numbered := coherent.numbered
  simp only [Job.lastClosed, processing, if_true] at numbered
  have columns := ClaimColumns.of_clear idle cleared.1 cleared.2.1 cleared.2.2
  -- the dead letter is written just when the job is dead now
  have filed : Filed (s.finishFailed now row' workerId outcome error reason url eventId startedAt)
      row' :=
    { sentAt := by simp [sentAt, neverSent, unsent]
      delivery := by simp [Slice.finishFailed, noDelivery, unsent]
      deadLetter := by
        by_cases dead : row'.status = .deadLettered <;> simp [Slice.finishFailed, noLetter, dead]
      sentClean := fun same => absurd same unsent
      buried := by
        intro letter present
        by_cases dead : row'.status = .deadLettered
        · simp only [Slice.finishFailed, dead, if_true, Option.some.injEq] at present
          subst present
          exact ⟨rfl, lastError.symm, exhausted dead⟩
        · simp [Slice.finishFailed, dead, noLetter] at present }
  -- the attempt that was open is now the last one closed
  have counted : Counted (s.finishFailed now row' workerId outcome error reason url eventId startedAt)
      row' :=
    { nonneg := by omega
      started := fun _ => by omega
      numbered := by
        simp only [Job.lastClosed, idle, if_false, attempts]
        exact numbered_append count attempts numbered
      sentAttempt := by
        intro attempt member
        simp only [Slice.finishFailed, List.mem_append, List.mem_singleton] at member
        rcases member with earlier | rfl
        · simp [coherent.sentAttempt attempt earlier, processing, unsent]
        · simp [notSent, unsent] }
  exact ⟨columns, filed, counted⟩

/-- The attempt and the event of a failure go together. -/
theorem announces_finishFailed {s : Slice} {now : Time} {row : Job} {workerId : Option String}
    {outcome : AttemptOutcome} {error reason url : String} {eventId : EventId}
    {startedAt : Option Time} (announced : List.Forall₂ Announces s.events s.attempts)
    (notSent : outcome ≠ .sent) :
    List.Forall₂ Announces
      (s.finishFailed now row workerId outcome error reason url eventId startedAt).events
      (s.finishFailed now row workerId outcome error reason url eventId startedAt).attempts := by
  refine List.rel_append announced (.cons ?_ .nil)
  by_cases dead : row.status = .deadLettered
  · exact ⟨by simp [dead, outboxRow, deadLetteredPayload],
      by simp [dead, outboxRow, deadLetteredPayload, notSent]⟩
  · exact ⟨by simp [dead, outboxRow, retryingPayload],
      by simp [dead, outboxRow, retryingPayload, notSent]⟩

/-! ## The other steps -/

section

variable {now : Time} {j : JobId} {s : Slice} {row : Job}

theorem RowCoherent.create (now : Time) (j : JobId) (new : NewJob) :
    RowCoherent ⟨some (new.row j now), none, none, [], []⟩ (new.row j now) := by
  have columns : ClaimColumns (new.row j now) := .of_clear (by simp [NewJob.row]) rfl rfl rfl
  have filed : Filed ⟨some (new.row j now), none, none, [], []⟩ (new.row j now) :=
    .of_open (by simp [NewJob.row]) (by simp [NewJob.row]) rfl rfl rfl
  have counted : Counted ⟨some (new.row j now), none, none, [], []⟩ (new.row j now) :=
    { nonneg := by simp [NewJob.row]
      started := by simp [NewJob.row]
      numbered := by
        intro n
        simp only [List.not_mem_nil, false_and, exists_false, Job.lastClosed, NewJob.row, false_iff,
          reduceCtorEq, if_false]
        omega
      sentAttempt := by simp }
  exact ⟨columns, filed, counted⟩

/-- A claim opens an attempt, which is not closed yet. -/
theorem RowCoherent.claim (old : RowCoherent s row) (pending : row.status = .pending)
    (workerId : String) (leaseSeconds : Time) (newToken : JobId → ClaimToken) :
    RowCoherent { s with row := some (claimedRow now workerId leaseSeconds newToken row) }
      (claimedRow now workerId leaseSeconds newToken row) := by
  obtain ⟨neverSent, noDelivery, noLetter⟩ := old.toFiled.open (by simp [pending]) (by simp [pending])
  have nonneg := old.nonneg
  have numbered := old.numbered
  simp only [Job.lastClosed, pending, reduceCtorEq, if_false] at numbered
  have columns : ClaimColumns (claimedRow now workerId leaseSeconds newToken row) :=
    ⟨by simp [claimedRow], by simp [claimedRow], by simp [claimedRow]⟩
  have filed : Filed { s with row := some (claimedRow now workerId leaseSeconds newToken row) }
      (claimedRow now workerId leaseSeconds newToken row) :=
    .of_open (by simp [claimedRow]) (by simp [claimedRow]) neverSent noDelivery noLetter
  have counted : Counted { s with row := some (claimedRow now workerId leaseSeconds newToken row) }
      (claimedRow now workerId leaseSeconds newToken row) :=
    { nonneg := by
        simp only [claimedRow]
        omega
      started := by
        intro _
        simp only [claimedRow]
        omega
      numbered := by
        intro n
        rw [numbered n]
        simp only [Job.lastClosed, claimedRow, if_true]
        omega
      sentAttempt := by
        intro attempt member
        simp [old.sentAttempt attempt member, pending, claimedRow] }
  exact ⟨columns, filed, counted⟩

theorem RowCoherent.finishSent (old : RowCoherent s row) (processing : row.status = .processing)
    (workerId : String) (providerMessageId : Option String) (url : String) (eventId : EventId) :
    RowCoherent (s.finishSent now (sentRow now row) workerId providerMessageId url eventId)
      (sentRow now row) := by
  have noLetter : s.deadLetter = none := by simpa [processing] using old.deadLetter
  have count : 1 ≤ row.attempts := old.started (by simp [processing])
  have numbered := old.numbered
  simp only [Job.lastClosed, processing, if_true] at numbered
  have columns : ClaimColumns (sentRow now row) := .of_clear (by simp [sentRow]) rfl rfl rfl
  have filed : Filed (s.finishSent now (sentRow now row) workerId providerMessageId url eventId)
      (sentRow now row) :=
    ⟨by simp [sentRow], by simp [sentRow, Slice.finishSent],
      by simp [sentRow, Slice.finishSent, noLetter], by simp [sentRow],
      by simp [Slice.finishSent, noLetter]⟩
  have counted : Counted (s.finishSent now (sentRow now row) workerId providerMessageId url eventId)
      (sentRow now row) :=
    { nonneg := by
        simp only [sentRow]
        omega
      started := fun _ => count
      numbered := numbered_append count rfl numbered
      sentAttempt := by
        intro attempt member
        simp only [Slice.finishSent, List.mem_append, List.mem_singleton] at member
        rcases member with earlier | rfl
        · -- the attempts before were numbered lower and did not send
          have below := (numbered attempt.attemptNo).mp ⟨attempt, earlier, rfl⟩
          have unsent := old.sentAttempt attempt earlier
          simp only [processing, reduceCtorEq, false_and, iff_false] at unsent
          simp only [unsent, sentRow, true_and, false_iff]
          omega
        · simp [sentRow] }
  exact ⟨columns, filed, counted⟩

/-- A returned claim takes its attempt back before it is closed. -/
theorem RowCoherent.returnToQueue (old : RowCoherent s row) (processing : row.status = .processing)
    (delaySeconds : Time) :
    RowCoherent { s with row := some (returnedRow now delaySeconds row) }
      (returnedRow now delaySeconds row) := by
  obtain ⟨neverSent, noDelivery, noLetter⟩ :=
    old.toFiled.open (by simp [processing]) (by simp [processing])
  have count : 1 ≤ row.attempts := old.started (by simp [processing])
  have numbered := old.numbered
  simp only [Job.lastClosed, processing, if_true] at numbered
  have columns : ClaimColumns (returnedRow now delaySeconds row) :=
    .of_clear (by simp [returnedRow]) rfl rfl rfl
  have filed : Filed { s with row := some (returnedRow now delaySeconds row) }
      (returnedRow now delaySeconds row) :=
    .of_open (by simp [returnedRow]) (by simp [returnedRow]) neverSent noDelivery noLetter
  have counted : Counted { s with row := some (returnedRow now delaySeconds row) }
      (returnedRow now delaySeconds row) :=
    { nonneg := by
        simp only [returnedRow]
        omega
      started := by simp [returnedRow]
      numbered := numbered
      sentAttempt := by
        intro attempt member
        simp [old.sentAttempt attempt member, processing, returnedRow] }
  exact ⟨columns, filed, counted⟩

theorem RowCoherent.requeue (old : RowCoherent s row) (dead : row.status = .deadLettered)
    (extraAttempts : Int) :
    RowCoherent { s with row := some (requeuedRow now extraAttempts row), deadLetter := none }
      (requeuedRow now extraAttempts row) := by
  have clear := old.toClaimColumns.clear (by simp [dead])
  have neverSent : row.sentAt = none := by simpa [dead] using old.sentAt
  have noDelivery : s.delivery = none := by simpa [dead] using old.delivery
  have numbered := old.numbered
  simp only [Job.lastClosed, dead, reduceCtorEq, if_false] at numbered
  have columns : ClaimColumns (requeuedRow now extraAttempts row) :=
    .of_clear (by simp [requeuedRow]) clear.1 clear.2.1 clear.2.2
  have filed : Filed { s with row := some (requeuedRow now extraAttempts row), deadLetter := none }
      (requeuedRow now extraAttempts row) :=
    .of_open (by simp [requeuedRow]) (by simp [requeuedRow]) neverSent noDelivery rfl
  have counted : Counted
      { s with row := some (requeuedRow now extraAttempts row), deadLetter := none }
      (requeuedRow now extraAttempts row) :=
    { nonneg := old.nonneg
      started := by simp [requeuedRow]
      numbered := numbered
      sentAttempt := by
        intro attempt member
        simp [old.sentAttempt attempt member, dead, requeuedRow] }
  exact ⟨columns, filed, counted⟩

end

/-! ## Every step -/

/-- A step that leaves this row, and events that still match the attempts. -/
theorem Coherent.of_row {s : Slice} {row : Job} (present : s.row = some row)
    (coherent : RowCoherent s row) (announced : List.Forall₂ Announces s.events s.attempts) :
    Coherent s := by
  refine ⟨by simp [present], ?_, announced⟩
  intro row' present'
  obtain rfl : row = row' := Option.some.inj (present.symm.trans present')
  exact coherent

theorem Coherent.step {now : Time} {j : JobId} {s s' : Slice} {event : Option JobEvent}
    (coherent : Coherent s) (step : SliceStep now j s event s') : Coherent s' := by
  cases step with
  | idle => exact coherent
  | @created new absent _ =>
    obtain rfl := coherent.absent absent
    exact .of_row rfl (.create now j new) .nil
  | @claimed row workerId leaseSeconds newToken present due =>
    have pending : row.status = .pending := (isDue_iff.mp due).1
    exact .of_row rfl ((coherent.present row present).claim pending _ _ _) coherent.announced
  | @sent row claimToken workerId providerMessageId url eventId present owned _ _ =>
    have processing := (fenced_iff.mp owned).2.2
    refine .of_row rfl ((coherent.present row present).finishSent processing _ _ _ _) ?_
    -- the attempt and the event of a delivery go together
    refine List.rel_append coherent.announced (.cons ?_ .nil)
    exact ⟨rfl, by simp [outboxRow, sentPayload]⟩
  | @failed row claimToken workerId error retryDelay permanent url eventId present owned _ _ =>
    have processing := (fenced_iff.mp owned).2.2
    refine .of_row rfl ?_ (announces_finishFailed coherent.announced (by simp))
    apply (coherent.present row present).finishFailed processing (failedRow_status _ _ _)
      ⟨rfl, rfl, rfl⟩ rfl rfl rfl (by simp)
    intro dead reason
    cases permanent with
    | true => simp [failureReason, permanentReason, maxAttemptsReason] at reason
    | false =>
      show row.maxAttempts ≤ row.attempts
      simpa using dead
  | @reaped row url eventId present processing _ _ _ =>
    refine .of_row rfl ?_ (announces_finishFailed coherent.announced (by simp))
    apply (coherent.present row present).finishFailed processing reapedRow_status ⟨rfl, rfl, rfl⟩ rfl
      rfl rfl (by simp)
    intro dead _
    show row.maxAttempts ≤ row.attempts
    simpa using dead
  | @returned row claimToken delaySeconds present owned =>
    have processing := (fenced_iff.mp owned).2.2
    exact .of_row rfl ((coherent.present row present).returnToQueue processing _) coherent.announced
  | @requeued row extraAttempts present dead _ =>
    exact .of_row rfl ((coherent.present row present).requeue dead _) coherent.announced

/-- The tables agree about every job in every run. -/
theorem coherent_slice {history : JobHistory} {db : Db} (run : Run jobSystem history db)
    (j : JobId) : Coherent (db.slice j) := by
  refine slice_invariant ?_ ?_ run j
  · exact ⟨fun _ => rfl, by simp, .nil⟩
  · intro now j s event s' coherent step
    exact coherent.step step

/-! ## The retry cap -/

/-- A requeue grants at least one more attempt. -/
def JobOp.grantsAttempt : JobOp → Bool
  | .requeueDeadLetter _ extraAttempts => 1 ≤ extraAttempts
  | _ => true

structure Capped (row : Job) : Prop where
  atMost : row.attempts ≤ row.maxAttempts
  roomLeft : row.status = .pending → row.attempts < row.maxAttempts

theorem Capped.of_exhausted {row : Job} (atMost : row.attempts ≤ row.maxAttempts)
    (exhausted : row.maxAttempts ≤ row.attempts → row.status ≠ .pending) : Capped row := by
  refine ⟨atMost, ?_⟩
  intro pending
  by_contra full
  exact exhausted (not_lt.mp full) pending

/-- Every step keeps the attempts of a job within its cap. -/
theorem Capped.step {now : Time} {j : JobId} {s s' : Slice} {event : Option JobEvent}
    (capped : ∀ row, s.row = some row → Capped row)
    (grants : ∀ extraAttempts, event = some (.requeued extraAttempts) → 1 ≤ extraAttempts)
    (step : SliceStep now j s event s') : ∀ row, s'.row = some row → Capped row := by
  cases step with
  | idle => exact capped
  | @created new absent cap =>
    rintro _ ⟨⟩
    constructor
    · simp only [NewJob.row]
      omega
    · intro _
      simp only [NewJob.row]
      omega
  | @claimed row workerId leaseSeconds newToken present due =>
    have old := capped row present
    have pending : row.status = .pending := (isDue_iff.mp due).1
    have room := old.roomLeft pending
    rintro _ ⟨⟩
    refine ⟨?_, by simp [claimedRow]⟩
    simp only [claimedRow]
    omega
  | @sent row _ _ _ _ _ present _ _ _ =>
    rintro _ ⟨⟩
    exact ⟨(capped row present).atMost, by simp [sentRow]⟩
  | @failed row _ _ error retryDelay permanent _ _ present _ _ _ =>
    rintro _ ⟨⟩
    -- a job without attempts left does not go back to pending
    refine .of_exhausted (capped row present).atMost ?_
    intro full
    have dead : (failedRow now error retryDelay permanent row).status = .deadLettered :=
      failedRow_dead.mpr (.inr full)
    simp [dead]
  | @reaped row _ _ present _ _ _ _ =>
    rintro _ ⟨⟩
    refine .of_exhausted (capped row present).atMost ?_
    intro full
    have dead : (reapedRow now row).status = .deadLettered := reapedRow_dead.mpr full
    simp [dead]
  | @returned row _ _ present owned =>
    have old := (capped row present).atMost
    rintro _ ⟨⟩
    constructor
    · simp only [returnedRow]
      omega
    · intro _
      simp only [returnedRow]
      omega
  | @requeued row extraAttempts present dead cap =>
    have granted := grants extraAttempts rfl
    rintro _ ⟨⟩
    constructor
    · simp only [requeuedRow]
      omega
    · intro _
      simp only [requeuedRow]
      omega

theorem capped_slice {history : JobHistory} {db : Db} (run : Run jobSystem history db)
    (grants : ∀ taken ∈ history, taken.label.op.grantsAttempt = true) :
    ∀ j row, (db.slice j).row = some row → Capped row := by
  refine Run.invariant (I := fun _ db => ∀ j row, (db.slice j).row = some row → Capped row) ?_ ?_
    run (Along.of_forall grants)
  · rintro _ rfl j row present
    cases present
  · intro _ db call db' _ _ capped granted committed j
    refine Capped.step (capped j) ?_ (commit_slice committed j)
    intro extraAttempts happened
    have caused := causes_of_eventFor happened
    obtain ⟨op, now, answer⟩ := call
    cases op <;> simp only [JobOp.causes, Bool.false_eq_true, decide_eq_true_eq] at caused
    subst caused
    simpa [JobOp.grantsAttempt] using granted

end NotifyQueue
