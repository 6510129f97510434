import NotifyQueue.Verified.SoloRuns

/-! # Calls that move one job

`SoloRuns` shows that a call whose guards hold makes its step when the tables hold one job.  Here
the tables hold any number of jobs, and it is the call that is about one of them
(`JobOp.Only`): it names the job, or every other job is locked by another transaction.  Such a
call makes its step on that job and leaves the others alone (`OpStep.lone`), so jobs can be moved
one at a time whatever the others do. -/

namespace NotifyQueue

open Runs Tables Aborts

/-- The call can move no other job. -/
def JobOp.Only (j : JobId) : JobOp → Prop
  | .createJob id new => id = j ∧ new.idempotencyKey = none
  | .claimDueJobs _ _ _ _ choices => ∀ i, i ≠ j → choices.locked i = true
  | .markSent jobId _ _ _ _ _ => jobId = j
  | .markFailed jobId _ _ _ _ _ _ _ => jobId = j
  | .returnToQueue jobId _ _ => jobId = j
  | .reapExpiredLeases _ _ _ choices => ∀ i, i ≠ j → choices.locked i = true
  | .requeueDeadLetter jobId _ => jobId = j

/-- The event id that the call draws for the job is new. -/
def JobOp.Undrawn (db : Db) (j : JobId) : JobOp → Prop
  | .markSent _ _ _ _ _ eventId => ¬ Drawn db eventId
  | .markFailed _ _ _ _ _ _ _ eventId => ¬ Drawn db eventId
  | .reapExpiredLeases _ _ newEvent _ => ¬ Drawn db (newEvent j)
  | _ => True

/-- Every other job is locked, and every order is as stored. -/
def Choices.only (j : JobId) : Choices := ⟨fun i => i ≠ j, .stored, .stored⟩

section

variable {now : Time} {i j : JobId} {db : Db} {op : JobOp}

/-- The call idles on every other job. -/
theorem OpStep.elsewhere {s s' : Slice} {event : Option JobEvent} (step : OpStep now i s op event s')
    (only : op.Only j) (other : i ≠ j) : event = none ∧ s' = s := by
  cases step with
  | idle => exact ⟨rfl, rfl⟩
  | created _ _ => exact absurd only.1 other
  | claimed _ unlocked _ _ => simp [only i other] at unlocked
  | sent _ _ _ _ => exact absurd only other
  | failed _ _ _ _ => exact absurd only other
  | reaped _ unlocked _ _ _ _ _ => simp [only i other] at unlocked
  | returned _ _ => exact absurd only other
  | requeued _ _ _ => exact absurd only other

/-- The rows of a locking statement, where every other job is locked. -/
theorem select_only {row : Job} (found : db.jobs.lookup j = some row) {choices : Choices}
    (unlocked : choices.locked j = false) (only : ∀ i, i ≠ j → choices.locked i = true)
    {p : Job → Bool} (matched : p row = true) :
    (db.jobs.select fun row => p row && !choices.locked row.id) = [row] := by
  have named := Table.pk_of_lookup found
  refine Table.select_eq_singleton (Table.mem_of_lookup found) (by simp [matched, named, unlocked]) ?_
  intro other member chosen
  -- a row that is chosen is not locked, so it is the job's own
  have own : other.id = j := by
    by_contra different
    simp [only other.id different] at chosen
  exact List.inj_on_of_nodup_map db.jobs.pk_nodup member (Table.mem_of_lookup found)
    (own.trans named.symm)

theorem claims_only {row : Job} {batchSize : Nat} {choices : Choices} (room : 1 ≤ batchSize)
    (unlocked : choices.locked j = false) (only : ∀ i, i ≠ j → choices.locked i = true)
    (found : db.jobs.lookup j = some row) (due : isDue now row = true) (workerId : String)
    (leaseSeconds : Time) (newToken : JobId → ClaimToken) :
    ∃ job ∈ (claimDueJobs now workerId batchSize leaseSeconds newToken choices db).1, job.id = j := by
  have named := Table.pk_of_lookup found
  have rows : dueJobs now batchSize choices db = [row] := by
    simp [dueJobs, select_only found unlocked only due, room]
  refine ⟨claimedRow now workerId leaseSeconds newToken row, ?_, named⟩
  exact mem_claimDueJobs.mpr ⟨row, by simp [rows], rfl⟩

theorem reaps_only {row : Job} {limit : Nat} {defaultCallbackUrl : String}
    {newEvent : JobId → EventId} {choices : Choices} (room : 1 ≤ limit)
    (unlocked : choices.locked j = false) (only : ∀ i, i ≠ j → choices.locked i = true)
    (found : db.jobs.lookup j = some row) (processing : row.status = .processing)
    (expired : leaseExpired now row = true) (undrawn : ¬ Drawn db (newEvent j))
    (fresh : (db.slice j).FreshAttempt row.attempts) (unburied : (db.slice j).deadLetter = none) :
    ∃ db', reapExpiredLeases now limit defaultCallbackUrl newEvent choices db =
      .ok ([transition (reapedRow now row)], db') := by
  have member := Table.mem_of_lookup found
  obtain rfl : row.id = j := Table.pk_of_lookup found
  have rows : expiredJobs now limit choices db = [row] := by
    simp [expiredJobs, select_only (p := fun row => row.status = .processing && leaseExpired now row)
      found unlocked only (by simp [processing, expired]), room]
  have inTable : ∀ other ∈ [row], other ∈ db.jobs.rows := by simpa using member
  have chosen : choices.returned.arrange (db.jobs.select (selected [row])) = [row] := by
    rw [Table.select_eq_singleton member (by simp [selected]) ?_, RowOrder.arrange_singleton]
    intro other inRows isSelected
    simpa using (selected_iff inTable inRows).mp isSelected
  have updated := slice_of_selected (reapedRow_keeps now) inTable (List.mem_singleton_self row)
  cases recorded : recordReaped now defaultCallbackUrl newEvent
      (db.updateJobs (selected [row]) (reapedRow now) (reapedRow_keeps now)) row with
  | error abort =>
    -- its round fails on a drawn event id only
    exact absurd (recordReaped_error (by rw [updated]; exact unburied) (by rw [updated]; exact fresh)
      recorded).2 undrawn
  | ok db' =>
    refine ⟨db', ?_⟩
    simp only [reapExpiredLeases, rows, chosen, List.foldlM_cons, List.foldlM_nil, recorded]
    rfl

/-- The call makes some step on the job. -/
theorem OpStep.happens {event : JobEvent} {s' : Slice} (coherent : ∀ i, Coherent (db.slice i))
    (only : op.Only j) (undrawn : op.Undrawn db j)
    (step : OpStep now j (db.slice j) op (some event) s') :
    ∃ event', Call.eventFor ⟨op, now, (op.commit now db).1⟩ j = some event' := by
  cases step with
  | @created new absent cap =>
    have inserted := insertJob_cases now j new db
    generalize insertJob now j new db = result at inserted
    cases inserted with
    | created _ _ committed _ _ =>
      rw [committed]
      simp [Call.eventFor, NewJob.row]
    | taken named _ => cases only.2.symm.trans named
    | tooFew few => omega
    | repeated found => cases absent.symm.trans found
  | @claimed row workerId batchSize leaseSeconds newToken choices room unlocked present due =>
    have claims := claims_only room unlocked only present due workerId leaseSeconds newToken
    rw [commit_claimDueJobs]
    exact ⟨.claimed, by simpa [Call.eventFor] using claims⟩
  | @sent row claimToken workerId providerMessageId defaultCallbackUrl eventId present owned _ _ =>
    refine finalizes rfl present owned ?_
    intro abort raised
    rw [commit_markSent] at raised
    split at raised
    · cases raised
    · next aborted => exact undrawn (markSent_error coherent aborted).2
  | @failed row claimToken workerId error retryDelay permanent url eventId present owned _ _ =>
    refine finalizes rfl present owned ?_
    intro abort raised
    rw [commit_markFailed] at raised
    split at raised
    · cases raised
    · next aborted => exact undrawn (markFailed_error coherent aborted).2
  | @reaped row limit url newEvent choices room unlocked present processing expired fresh unburied =>
    obtain ⟨_, noLetter, _⟩ := (coherent j).ready present processing
    obtain ⟨db', reaped⟩ :=
      reaps_only room unlocked only present processing expired undrawn fresh noLetter
    rw [commit_reapExpiredLeases, reaped]
    simp [Call.eventFor, finishedEvent, transition, reapedRow, Table.pk_of_lookup present]
  | returned present owned =>
    refine finalizes rfl present owned ?_
    intro abort raised
    rw [commit_returnToQueue] at raised
    cases raised
  | @requeued row extraAttempts present dead cap =>
    have named := Table.pk_of_lookup present
    have matched : isDeadLettered j row = true := by simp [isDeadLettered, named, dead]
    have rows : db.jobs.rows.filter (isDeadLettered j) = [row] := by
      refine Table.select_eq_singleton (Table.mem_of_lookup present) matched ?_
      intro other member chosen
      have own : other.id = row.id := by
        simp only [isDeadLettered, Bool.and_eq_true, decide_eq_true_eq] at chosen
        exact chosen.1.trans named.symm
      exact List.inj_on_of_nodup_map db.jobs.pk_nodup member (Table.mem_of_lookup present) own
    rw [commit_requeueDeadLetter]
    simp [requeueDeadLetter, Table.returning, rows, Call.eventFor, finishedEvent, transition,
      requeuedRow, named, not_lt.mpr cap]

/-- A call about one job whose guards hold makes its step, and nothing happens to the others. -/
theorem OpStep.lone {event : JobEvent} {s' : Slice} (coherent : ∀ i, Coherent (db.slice i))
    (only : op.Only j) (undrawn : op.Undrawn db j)
    (step : OpStep now j (db.slice j) op (some event) s') :
    Call.eventFor ⟨op, now, (op.commit now db).1⟩ j = some event ∧
      (op.commit now db).2.slice j = s' ∧
      ∀ i, i ≠ j → Call.eventFor ⟨op, now, (op.commit now db).1⟩ i = none ∧
        (op.commit now db).2.slice i = db.slice i := by
  obtain ⟨event', happened⟩ := step.happens coherent only undrawn
  have taken : OpStep now j (db.slice j) op (Call.eventFor ⟨op, now, (op.commit now db).1⟩ j)
      ((op.commit now db).2.slice j) := commit_op rfl j
  rw [happened] at taken
  obtain ⟨rfl, same⟩ := taken.det step
  exact ⟨happened, same, fun i other => (commit_op rfl i).elsewhere only other⟩

end

end NotifyQueue
