import NotifyQueue.Verified.Coherence

/-! # No conflict in the satellite tables

The inserts into `deliveries`, `dead_letters` and `job_attempts` have no row in their way
when the tables are coherent, so the transactions of `mark_sent`, `mark_failed` and the
reaper are never rolled back by them.  What can abort such a transaction is only the
insert of a webhook event under an id that was drawn before. -/

namespace NotifyQueue

open Runs Tables Aborts

/-- A uniqueness violation in one of the tables that record results. -/
def Abort.ofSatellite : Abort → Bool
  | .conflict .deliveries _ => true
  | .conflict .deadLetters _ => true
  | .conflict .jobAttempts _ => true
  | _ => false

/-- An event with this id is in the outbox. -/
def Drawn (db : Db) (eventId : EventId) : Prop := db.webhookOutbox.lookup eventId ≠ none

/-! ## The inserts -/

/-- A table whose only constraint is its primary key takes every row with a new key. -/
theorem insert_ne_error {ρ κ : Type} [DecidableEq κ] {pk : ρ → κ} {t : Table pk noUniqueColumn}
    {row : ρ} {violation : Violation} (fresh : t.lookup (pk row) = none) :
    t.insert row ≠ .error violation := by
  intro refused
  cases Table.conflict_of_insert refused with
  | inl conflict =>
    obtain ⟨_, other, found⟩ := conflict
    rw [fresh] at found
    cases found
  | inr conflict =>
    obtain ⟨_, _, _, _, key, _⟩ := conflict
    cases key

/-! The satellite tables leave the outbox alone. -/

theorem webhookOutbox_insertDelivery {db db' : Db} {row : Delivery}
    (inserted : db.insertDelivery row = .ok db') : db'.webhookOutbox = db.webhookOutbox := by
  unfold Db.insertDelivery at inserted
  split at inserted <;> cases inserted
  rfl

theorem webhookOutbox_insertDeadLetter {db db' : Db} {row : DeadLetter}
    (inserted : db.insertDeadLetter row = .ok db') : db'.webhookOutbox = db.webhookOutbox := by
  unfold Db.insertDeadLetter at inserted
  split at inserted <;> cases inserted
  rfl

theorem webhookOutbox_insertJobAttempt {db db' : Db} {row : JobAttempt}
    (inserted : db.insertJobAttempt row = .ok db') : db'.webhookOutbox = db.webhookOutbox := by
  unfold Db.insertJobAttempt at inserted
  split at inserted <;> cases inserted
  rfl

section

variable {db : Db} {now : Time} {abort : Abort}

theorem insertDelivery_ne_error {row : Delivery} (fresh : (db.slice row.jobId).delivery = none) :
    db.insertDelivery row ≠ .error abort := by
  intro refused
  simp only [Db.insertDelivery] at refused
  split at refused
  · cases refused
  · next conflict => exact insert_ne_error fresh conflict

theorem insertDeadLetter_ne_error {row : DeadLetter}
    (fresh : (db.slice row.jobId).deadLetter = none) : db.insertDeadLetter row ≠ .error abort := by
  intro refused
  simp only [Db.insertDeadLetter] at refused
  split at refused
  · cases refused
  · next conflict => exact insert_ne_error fresh conflict

theorem recordAttempt_ne_error {jobId : JobId} {attemptNo : Int} {workerId : Option String}
    {outcome : AttemptOutcome} {error : Option String} {startedAt : Option Time}
    (fresh : (db.slice jobId).FreshAttempt attemptNo) :
    recordAttempt db now jobId attemptNo workerId outcome error startedAt ≠ .error abort := by
  intro refused
  simp only [recordAttempt, Db.insertJobAttempt] at refused
  split at refused
  · cases refused
  · next conflict =>
    refine insert_ne_error ?_ conflict
    rw [Table.lookup_eq_none]
    intro attempt member same
    simp only [JobAttempt.key, Prod.mk.injEq] at same
    -- the key is the job and the number together
    have inSlice : attempt ∈ (db.slice jobId).attempts :=
      List.mem_filter.mpr ⟨member, by simp [same.1]⟩
    exact fresh attempt inSlice same.2

theorem enqueueWebhook_error {url : String} {payload : WebhookPayload}
    (refused : enqueueWebhook db now url payload = .error abort) :
    abort.ofSatellite = false ∧ Drawn db payload.eventId := by
  simp only [enqueueWebhook, Db.insertOutboxRow] at refused
  split at refused
  · cases refused
  · next conflict =>
    cases refused
    refine ⟨rfl, ?_⟩
    intro fresh
    exact insert_ne_error fresh conflict

theorem afterFailure_error {row : Job} {error reason defaultCallbackUrl : String} {eventId : EventId}
    (unburied : row.status = .deadLettered → (db.slice row.id).deadLetter = none)
    (aborted : afterFailure db now row error reason defaultCallbackUrl eventId = .error abort) :
    abort.ofSatellite = false ∧ Drawn db eventId := by
  simp only [afterFailure] at aborted
  split at aborted
  · next dead =>
    cases bind_eq_error.mp aborted with
    | inl buried => exact absurd buried (insertDeadLetter_ne_error (unburied dead))
    | inr enqueued =>
      obtain ⟨db', buried, refused⟩ := enqueued
      have drawn := enqueueWebhook_error refused
      rwa [Drawn, webhookOutbox_insertDeadLetter buried] at drawn
  · exact enqueueWebhook_error aborted

end

/-! ## The operations on coherent tables -/

/-- A processing job is ready to be finished: nothing is recorded for its attempt. -/
theorem Coherent.ready {s : Slice} {row : Job} (coherent : Coherent s) (present : s.row = some row)
    (processing : row.status = .processing) :
    s.delivery = none ∧ s.deadLetter = none ∧ s.FreshAttempt row.attempts := by
  have old := coherent.present row present
  refine ⟨by simpa [processing] using old.delivery, by simpa [processing] using old.deadLetter, ?_⟩
  intro attempt member same
  have below := (old.numbered attempt.attemptNo).mp ⟨attempt, member, rfl⟩
  simp only [Job.lastClosed, processing, if_true] at below
  omega

section

variable {now : Time} {db : Db} {abort : Abort}

/-- The slice of a processing job right after the update of its row. -/
theorem ready_of_updated {db' : Db} {row row' : Job} (coherent : Coherent (db.slice row.id))
    (found : db.jobs.lookup row.id = some row) (processing : row.status = .processing)
    (updated : db'.slice row.id = { db.slice row.id with row := some row' }) :
    (db'.slice row.id).delivery = none ∧ (db'.slice row.id).deadLetter = none ∧
      (db'.slice row.id).FreshAttempt row.attempts := by
  rw [updated]
  exact coherent.ready found processing

theorem markSent_error {jobId : JobId} {claimToken : ClaimToken} {workerId : String}
    {providerMessageId : Option String} {defaultCallbackUrl : String} {eventId : EventId}
    (coherent : ∀ j, Coherent (db.slice j))
    (aborted : markSent now jobId claimToken workerId providerMessageId defaultCallbackUrl eventId db =
      .error abort) : abort.ofSatellite = false ∧ Drawn db eventId := by
  simp only [markSent] at aborted
  split at aborted
  · exact absurd aborted pure_ne_error
  · next row matched =>
    obtain ⟨old, member, owned, rfl⟩ := Table.mem_of_returning_head matched
    obtain ⟨rfl, _, processing⟩ := fenced_iff.mp owned
    have found : db.jobs.lookup old.id = some old := Table.lookup_of_mem member
    have updated := slice_updateJobs_named (sentRow_keeps now)
      (fun row matched => (fenced_iff.mp matched).1) found owned old.id
    rw [if_pos rfl] at updated
    obtain ⟨undelivered, _, fresh⟩ := ready_of_updated (coherent old.id) found processing updated
    -- of the three inserts only the one into the outbox can be refused
    cases bind_eq_error.mp aborted with
    | inl refused => exact absurd refused (insertDelivery_ne_error undelivered)
    | inr aborted =>
      obtain ⟨db₁, delivered, aborted⟩ := aborted
      have slice := Db.slice_insertDelivery delivered old.id
      rw [if_pos rfl] at slice
      cases bind_eq_error.mp aborted with
      | inl refused =>
        refine absurd refused (recordAttempt_ne_error ?_)
        rw [slice]
        exact fresh
      | inr aborted =>
        obtain ⟨db₂, recorded, aborted⟩ := aborted
        cases bind_eq_error.mp aborted with
        | inl refused =>
          have drawn := enqueueWebhook_error refused
          rwa [Drawn, webhookOutbox_insertJobAttempt recorded,
            webhookOutbox_insertDelivery delivered] at drawn
        | inr aborted =>
          obtain ⟨_, _, aborted⟩ := aborted
          exact absurd aborted pure_ne_error

theorem markFailed_error {jobId : JobId} {claimToken : ClaimToken} {workerId error : String}
    {retryDelay : Time} {permanent : Bool} {defaultCallbackUrl : String} {eventId : EventId}
    (coherent : ∀ j, Coherent (db.slice j))
    (aborted : markFailed now jobId claimToken workerId error retryDelay permanent
      defaultCallbackUrl eventId db = .error abort) :
    abort.ofSatellite = false ∧ Drawn db eventId := by
  simp only [markFailed] at aborted
  split at aborted
  · exact absurd aborted pure_ne_error
  · next row matched =>
    obtain ⟨old, member, owned, rfl⟩ := Table.mem_of_returning_head matched
    obtain ⟨rfl, _, processing⟩ := fenced_iff.mp owned
    have found : db.jobs.lookup old.id = some old := Table.lookup_of_mem member
    have updated := slice_updateJobs_named (failedRow_keeps now error retryDelay permanent)
      (fun row matched => (fenced_iff.mp matched).1) found owned old.id
    rw [if_pos rfl] at updated
    obtain ⟨_, unburied, fresh⟩ := ready_of_updated (coherent old.id) found processing updated
    -- the attempt is fresh, so it is what follows that aborted
    cases bind_eq_error.mp aborted with
    | inl refused => exact absurd refused (recordAttempt_ne_error fresh)
    | inr aborted =>
      obtain ⟨db₁, recorded, aborted⟩ := aborted
      have slice := Db.slice_insertJobAttempt recorded old.id
      rw [if_pos rfl] at slice
      have buries : (failedRow now error retryDelay permanent old).status = .deadLettered →
          (db₁.slice (failedRow now error retryDelay permanent old).id).deadLetter = none := by
        intro _
        show (db₁.slice old.id).deadLetter = none
        rw [slice]
        exact unburied
      cases bind_eq_error.mp aborted with
      | inl refused =>
        have drawn := afterFailure_error buries refused
        rwa [Drawn, webhookOutbox_insertJobAttempt recorded] at drawn
      | inr aborted =>
        obtain ⟨_, _, aborted⟩ := aborted
        exact absurd aborted pure_ne_error

/-- A round of the reaper's loop on a row whose job is ready to be finished. -/
theorem recordReaped_error {defaultCallbackUrl : String} {newEvent : JobId → EventId} {old : Job}
    (unburied : (db.slice old.id).deadLetter = none)
    (fresh : (db.slice old.id).FreshAttempt old.attempts)
    (aborted : recordReaped now defaultCallbackUrl newEvent db old = .error abort) :
    abort.ofSatellite = false ∧ Drawn db (newEvent old.id) := by
  cases bind_eq_error.mp aborted with
  | inl refused => exact absurd refused (recordAttempt_ne_error fresh)
  | inr aborted =>
    obtain ⟨db₁, recorded, aborted⟩ := aborted
    have buries : (reapedRow now old).status = .deadLettered →
        (db₁.slice (reapedRow now old).id).deadLetter = none := by
      intro _
      show (db₁.slice old.id).deadLetter = none
      have slice := Db.slice_insertJobAttempt recorded old.id
      rw [if_pos (show (reapedRow now old).id = old.id from rfl)] at slice
      rw [slice]
      exact unburied
    have drawn := afterFailure_error buries aborted
    rwa [Drawn, webhookOutbox_insertJobAttempt recorded] at drawn

theorem reapExpiredLeases_error {limit : Nat} {defaultCallbackUrl : String}
    {newEvent : JobId → EventId} {choices : Choices} (coherent : ∀ j, Coherent (db.slice j))
    (aborted : reapExpiredLeases now limit defaultCallbackUrl newEvent choices db = .error abort) :
    abort.ofSatellite = false := by
  have inTable : ∀ row ∈ expiredJobs now limit choices db, row ∈ db.jobs.rows :=
    fun row member => (mem_expiredJobs member).1
  have nodup := arrange_select_nodup choices db (selected (expiredJobs now limit choices db))
  have updated : ∀ old ∈ choices.returned.arrange
      (db.jobs.select (selected (expiredJobs now limit choices db))),
      old.status = .processing ∧ db.jobs.lookup old.id = some old ∧
      (db.updateJobs (selected (expiredJobs now limit choices db)) (reapedRow now)
        (reapedRow_keeps now)).slice old.id =
          { db.slice old.id with row := some (reapedRow now old) } := by
    intro old member
    have inExpired := (mem_arrange_selected choices inTable).mp member
    exact ⟨(mem_expiredJobs inExpired).2.1, Table.lookup_of_mem (inTable old inExpired),
      slice_of_selected (reapedRow_keeps now) inTable inExpired⟩
  cases bind_eq_error.mp aborted with
  | inr returned =>
    obtain ⟨_, _, returned⟩ := returned
    exact absurd returned pure_ne_error
  | inl looped =>
    -- the rounds before the one that aborted did not touch its job
    obtain ⟨done, old, rest, db', rows, before, aborted⟩ := foldlM_error looped
    rw [rows] at nodup updated
    obtain ⟨processing, found, slice⟩ := updated old (by simp)
    rw [List.map_append, List.nodup_append] at nodup
    have written : ∀ other ∈ done, ((db.updateJobs (selected (expiredJobs now limit choices db))
        (reapedRow now) (reapedRow_keeps now)).slice other.id).row =
          some (reapedRow now other) := by
      intro other member
      rw [(updated other (by simp [member])).2.2]
    have unnamed : ∀ other ∈ done, other.id ≠ old.id := by
      intro other member
      exact nodup.2.2 other.id (List.mem_map_of_mem member) old.id (by simp)
    have untouched := reapLoop_untouched nodup.1 written before unnamed
    obtain ⟨_, unburied, fresh⟩ := ready_of_updated (coherent old.id) found processing slice
    rw [← untouched] at unburied fresh
    exact (recordReaped_error unburied fresh aborted).1

/-- A call on coherent tables is never rolled back by a satellite table. -/
theorem commit_error {op : JobOp} {db' : Db} (coherent : ∀ j, Coherent (db.slice j))
    (committed : op.commit now db = (.raised abort, db')) : abort.ofSatellite = false := by
  cases op with
  | createJob id new =>
    rw [commit_createJob] at committed
    split at committed <;> cases committed
    next aborted =>
    cases bind_eq_error.mp aborted with
    | inl refused =>
      -- the insert of a job checks its cap and its unique columns, no satellite table
      unfold insertJob at refused
      split at refused
      · cases refused
        rfl
      · split at refused <;> cases refused
        rfl
    | inr aborted =>
      obtain ⟨⟨row, _⟩, _, aborted⟩ := aborted
      cases row with
      | some row => exact absurd aborted pure_ne_error
      | none =>
        cases bind_eq_error.mp aborted with
        | inl missing =>
          unfold existingJob at missing
          split at missing <;> cases missing
          rfl
        | inr returned =>
          obtain ⟨_, _, returned⟩ := returned
          exact absurd returned pure_ne_error
  | claimDueJobs workerId batchSize leaseSeconds newToken choices =>
    rw [commit_claimDueJobs] at committed
    cases committed
  | markSent jobId claimToken workerId providerMessageId defaultCallbackUrl eventId =>
    rw [commit_markSent] at committed
    split at committed <;> cases committed
    next aborted => exact (markSent_error coherent aborted).1
  | markFailed jobId claimToken workerId error retryDelay permanent defaultCallbackUrl eventId =>
    rw [commit_markFailed] at committed
    split at committed <;> cases committed
    next aborted => exact (markFailed_error coherent aborted).1
  | returnToQueue jobId claimToken delaySeconds =>
    rw [commit_returnToQueue] at committed
    cases committed
  | reapExpiredLeases limit defaultCallbackUrl newEvent choices =>
    rw [commit_reapExpiredLeases] at committed
    split at committed <;> cases committed
    next aborted => exact reapExpiredLeases_error coherent aborted
  | requeueDeadLetter jobId extraAttempts =>
    rw [commit_requeueDeadLetter] at committed
    split at committed <;> cases committed
    next aborted =>
    simp only [requeueDeadLetter] at aborted
    split at aborted
    · cases aborted
      rfl
    · split at aborted <;> cases aborted

end

end NotifyQueue
