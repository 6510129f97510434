import NotifyQueue.Repositories.Queries
import NotifyQueue.Verified.Lifecycle
import NotifyQueue.Verified.Outbox
import NotifyQueue.Verified.TornReads

/-! # How a job ended, in every table

A claim that ends for good is written down in five places: in the job, in `deliveries` or
`dead_letters`, in `job_attempts` and in the payload of a webhook event.  They tell the same story
for as long as it lasts: a requeue takes the dead letter away, and nothing else moves a job that
has ended. -/

namespace NotifyQueue

open Runs Tables

/-- The attempt and the event that were written with a dead letter. -/
structure Buried (s : Slice) (letter : DeadLetter) : Prop where
  attempt : ∃ attempt ∈ s.attempts, attempt.attemptNo = letter.attempts ∧
    attempt.outcome ≠ .sent ∧ attempt.error = letter.lastError ∧
    attempt.finishedAt = letter.deadLetteredAt
  event : ∃ event ∈ s.events, event.event = .deadLettered ∧
    event.payload.attempts = letter.attempts ∧ event.payload.error = letter.lastError ∧
    event.payload.reason = some letter.reason ∧ event.createdAt = letter.deadLetteredAt

/-- The job, the attempt and the event that were written with a delivery. -/
structure Delivered (s : Slice) (delivery : Delivery) : Prop where
  row : ∀ row, s.row = some row → row.sentAt = some delivery.deliveredAt
  attempt : ∃ attempt ∈ s.attempts, attempt.outcome = .sent ∧
    attempt.workerId = some delivery.workerId ∧ attempt.finishedAt = delivery.deliveredAt
  event : ∃ event ∈ s.events, event.event = .sent ∧
    event.payload.sentAt = some delivery.deliveredAt ∧ event.createdAt = delivery.deliveredAt

structure Endings (s : Slice) : Prop where
  buried : ∀ letter, s.deadLetter = some letter → Buried s letter
  delivered : ∀ delivery, s.delivery = some delivery → Delivered s delivery

section

variable {now : Time} {j : JobId} {s s' : Slice} {event : Option JobEvent}

/-- Rows that are added later do not change what is written. -/
theorem Buried.append {letter : DeadLetter} (buried : Buried s letter) {attempts : List JobAttempt}
    {events : List OutboxRow} (attemptsGrow : s'.attempts = s.attempts ++ attempts)
    (eventsGrow : s'.events = s.events ++ events) : Buried s' letter := by
  obtain ⟨⟨attempt, inAttempts, attemptAgrees⟩, ⟨event, inEvents, eventAgrees⟩⟩ := buried
  constructor
  · exact ⟨attempt, by simp [attemptsGrow, inAttempts], attemptAgrees⟩
  · exact ⟨event, by simp [eventsGrow, inEvents], eventAgrees⟩

/-- A job that is not sent has no delivery to agree with. -/
theorem Endings.of_unsent (coherent : Coherent s') {row : Job} (present : s'.row = some row)
    (unsent : row.status ≠ .sent)
    (buried : ∀ letter, s'.deadLetter = some letter → Buried s' letter) : Endings s' := by
  refine ⟨buried, ?_⟩
  intro delivery delivered
  have sent := (coherent.present row present).delivery.mp (by simp [delivered])
  exact absurd sent unsent

theorem Endings.finishFailed (endings : Endings s) {row : Job} {workerId : Option String}
    {outcome : AttemptOutcome} {error reason url : String} {eventId : EventId}
    {startedAt : Option Time} (unsent : outcome ≠ .sent) :
    ∀ letter,
      (s.finishFailed now row workerId outcome error reason url eventId startedAt).deadLetter =
        some letter →
      Buried (s.finishFailed now row workerId outcome error reason url eventId startedAt) letter := by
  intro letter found
  by_cases dead : row.status = .deadLettered
  · -- the letter is the one that this step files
    simp only [Slice.finishFailed, if_pos dead, Option.some.injEq] at found
    subst found
    constructor
    · exact ⟨_, List.mem_append_right _ (List.mem_singleton_self _), rfl, unsent, rfl, rfl⟩
    · refine ⟨_, List.mem_append_right _ (List.mem_singleton_self _), ?_⟩
      simp [dead, outboxRow, deadLetteredPayload]
  · simp only [Slice.finishFailed, if_neg dead] at found
    exact (endings.buried letter found).append rfl rfl

theorem Endings.step (endings : Endings s) (coherent : Coherent s)
    (step : SliceStep now j s event s') : Endings s' := by
  have coherent' := coherent.step step
  cases step with
  | idle => exact endings
  | created absent _ =>
    obtain rfl := coherent.absent absent
    exact ⟨fun _ found => (by cases found), fun _ found => (by cases found)⟩
  | @claimed row _ _ _ present due =>
    refine .of_unsent coherent' rfl (by simp [claimedRow]) ?_
    intro letter found
    exact (endings.buried letter found).append (List.append_nil _).symm (List.append_nil _).symm
  | @sent row claimToken workerId providerMessageId url eventId present owned _ _ =>
    constructor
    · intro letter found
      exact (endings.buried letter found).append rfl rfl
    · rintro _ ⟨⟩
      constructor
      · rintro _ ⟨⟩
        rfl
      · exact ⟨_, List.mem_append_right _ (List.mem_singleton_self _), rfl, rfl, rfl⟩
      · exact ⟨_, List.mem_append_right _ (List.mem_singleton_self _), rfl, rfl, rfl⟩
  | @failed row claimToken workerId error retryDelay permanent url eventId present owned _ _ =>
    have ended : (failedRow now error retryDelay permanent row).status = .pending ∨ _ :=
      failedRow_status error retryDelay permanent
    refine .of_unsent coherent' rfl ?_ (endings.finishFailed (by simp))
    cases ended with
    | inl pending => simp [pending]
    | inr dead => simp [dead]
  | @reaped row url eventId present processing _ _ _ =>
    have ended : (reapedRow now row).status = .pending ∨ _ := reapedRow_status
    refine .of_unsent coherent' rfl ?_ (endings.finishFailed (by simp))
    cases ended with
    | inl pending => simp [pending]
    | inr dead => simp [dead]
  | returned _ _ present owned =>
    refine .of_unsent coherent' rfl (by simp [returnedRow]) ?_
    intro letter found
    exact (endings.buried letter found).append (List.append_nil _).symm (List.append_nil _).symm
  | requeued _ present dead _ =>
    exact .of_unsent coherent' rfl (by simp [requeuedRow]) fun _ found => by cases found

end

theorem endings_of_run {history : JobHistory} {db : Db} (run : Run jobSystem history db)
    (j : JobId) : Endings (db.slice j) := by
  induction run with
  | start initial =>
    cases initial
    exact ⟨fun _ found => (by cases found), fun _ found => (by cases found)⟩
  | next earlier committed inductionHypothesis =>
    exact inductionHypothesis.step (coherent_slice earlier j) (commit_slice committed j)

theorem mem_listDeadLetters {limit offset : Nat} {scan : RowOrder DeadLetterOut} {db : Db}
    {out : DeadLetterOut} (listed : out ∈ listDeadLetters limit offset scan db) :
    ∃ letter job, (db.slice out.jobId).deadLetter = some letter ∧
      getJob db out.jobId = some job ∧ out = letter.out job := by
  have sorted := List.mem_of_mem_drop (List.mem_of_mem_take listed)
  rw [List.mem_insertionSort, RowOrder.mem_arrange] at sorted
  obtain ⟨letter, member, joined⟩ := List.mem_filterMap.mp sorted
  obtain ⟨job, found, rfl⟩ := Option.map_eq_some_iff.mp joined
  exact ⟨letter, job, Table.lookup_of_mem member, found, rfl⟩

/-- Every page of the dead letter queue tells of dead-lettered jobs only, and of each what the job,
    its last attempt and its webhook event tell; and a sent job, its delivery, its last attempt and
    its webhook event tell of one worker and one time. -/
theorem endings_agree {history : JobHistory} {db : Db} (run : Run jobSystem history db) :
    (∀ limit offset scan, ∀ out ∈ listDeadLetters limit offset scan db,
      ∃ job, getJob db out.jobId = some job ∧ job.status = .deadLettered ∧
        job.attempts = out.attempts ∧ job.lastError = out.lastError ∧
        (∃ attempt ∈ getJobAttempts db out.jobId, attempt.attemptNo = job.attempts ∧
          attempt.outcome ≠ .sent ∧ attempt.error = out.lastError ∧
          attempt.finishedAt = out.deadLetteredAt) ∧
        ∃ event ∈ db.webhookOutbox.rows, event.jobId = out.jobId ∧ event.event = .deadLettered ∧
          event.payload.attempts = job.attempts ∧ event.payload.error = out.lastError ∧
          event.payload.reason = some out.reason ∧ event.createdAt = out.deadLetteredAt) ∧
    ∀ j job, getJob db j = some job → job.status = .sent →
      ∃ delivery ∈ db.deliveries.rows, delivery.jobId = j ∧
        job.sentAt = some delivery.deliveredAt ∧
        (∃ attempt ∈ getJobAttempts db j, attempt.attemptNo = job.attempts ∧
          attempt.outcome = .sent ∧ attempt.workerId = some delivery.workerId ∧
          attempt.finishedAt = delivery.deliveredAt) ∧
        ∃ event ∈ db.webhookOutbox.rows, event.jobId = j ∧ event.event = .sent ∧
          event.payload.sentAt = some delivery.deliveredAt ∧
          event.createdAt = delivery.deliveredAt := by
  constructor
  · intro limit offset scan out listed
    obtain ⟨letter, job, filed, found, same⟩ := mem_listDeadLetters listed
    have coherent := (coherent_slice run out.jobId).present job found
    have dead : job.status = .deadLettered := coherent.deadLetter.mp (by simp [filed])
    obtain ⟨attempts, error, _⟩ := coherent.buried letter filed
    obtain ⟨⟨attempt, inAttempts, number, outcome, attemptError, finished⟩,
      ⟨event, inEvents, kind, eventNumber, eventError, reason, created⟩⟩ :=
      (endings_of_run run out.jobId).buried letter filed
    have ⟨inOutbox, ofJob⟩ := mem_events_iff.mp inEvents
    have outAttempts : out.attempts = letter.attempts := congrArg DeadLetterOut.attempts same
    have outError : out.lastError = letter.lastError := congrArg DeadLetterOut.lastError same
    have outReason : out.reason = letter.reason := congrArg DeadLetterOut.reason same
    have outTime : out.deadLetteredAt = letter.deadLetteredAt :=
      congrArg DeadLetterOut.deadLetteredAt same
    rw [outAttempts, outError, outReason, outTime]
    exact ⟨job, found, dead, attempts.symm, error.symm,
      ⟨attempt, mem_getJobAttempts.mpr inAttempts, number.trans attempts, outcome, attemptError,
        finished⟩,
      event, inOutbox, ofJob, kind, eventNumber.trans attempts, eventError, reason, created⟩
  · intro j job found sent
    have coherent := (coherent_slice run j).present job found
    obtain ⟨delivery, filed⟩ := Option.isSome_iff_exists.mp (coherent.delivery.mpr sent)
    have ⟨inTable, ofJob⟩ := Table.lookup_eq_some.mp filed
    obtain ⟨row, ⟨attempt, inAttempts, outcome, worker, finished⟩,
      ⟨event, inEvents, kind, sentAt, created⟩⟩ := (endings_of_run run j).delivered delivery filed
    have ⟨inOutbox, eventOfJob⟩ := mem_events_iff.mp inEvents
    have number := ((coherent.sentAttempt attempt inAttempts).mp outcome).2
    exact ⟨delivery, inTable, ofJob, row job found,
      ⟨attempt, mem_getJobAttempts.mpr inAttempts, number, outcome, worker, finished⟩,
      event, inOutbox, eventOfJob, kind, sentAt, created⟩

theorem endings_agree_requeued :
    ∃ out ∈ listDeadLetters 10 0 .stored (jobRun requeuedJob).2, out.jobId = 1 ∧
      ∃ attempt ∈ getJobAttempts (jobRun requeuedJob).2 1, attempt.error = out.lastError := by
  have listed : ∃ out ∈ listDeadLetters 10 0 .stored (jobRun requeuedJob).2, out.jobId = 1 := by
    decide +kernel
  obtain ⟨out, member, named⟩ := listed
  obtain ⟨_, _, _, _, _, ⟨attempt, inHistory, _, _, error, _⟩, _⟩ :=
    (endings_agree (run_jobRun requeuedJob)).1 10 0 .stored out member
  exact ⟨out, member, named, attempt, named ▸ inHistory, error⟩

end NotifyQueue
