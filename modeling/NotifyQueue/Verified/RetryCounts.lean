import NotifyQueue.Repositories.Queries
import NotifyQueue.Verified.Coherence

/-! # The two definitions of a retrying job

`job_counts` calls a pending job retrying when it has an error; `Job.is_retrying` also asks for
an attempt and for a text that is not empty.  They agree because an error is left behind by an
attempt that is closed (`ErrorKept`): a deferral takes back an attempt that is still open, and
a requeue clears the error. -/

namespace NotifyQueue

open Runs Tables

/-- The errors that `_deliver` passes to `mark_failed`: the name of the exception's class, a
    colon, and its text. -/
def IsDeliverError (error : String) : Prop :=
  ∃ typeName message, error = typeName ++ ": " ++ message

def JobOp.passesDeliverError : JobOp → Prop
  | .markFailed _ _ _ error _ _ _ _ => IsDeliverError error
  | _ => True

theorem IsDeliverError.ne_empty {error : String} (passes : IsDeliverError error) : error ≠ "" := by
  obtain ⟨typeName, message, rfl⟩ := passes
  intro empty
  have length := congrArg String.length empty
  simp [String.length_append] at length

/-- The error of a row is a text that an attempt has left. -/
def ErrorKept (row : Job) : Prop :=
  ∀ error, row.lastError = some error → error ≠ "" ∧ 1 ≤ row.lastClosed

section

variable {now : Time} {j : JobId} {s s' : Slice} {op : JobOp} {event : Option JobEvent}

theorem ErrorKept.of_closed {row : Job} {error : String} (lastError : row.lastError = some error)
    (nonempty : error ≠ "") (idle : row.status ≠ .processing) (started : 1 ≤ row.attempts) :
    ErrorKept row := by
  intro other present
  rw [lastError] at present
  cases present
  exact ⟨nonempty, by rwa [Job.lastClosed, if_neg idle]⟩

theorem ErrorKept.step (kept : ∀ row, s.row = some row → ErrorKept row) (coherent : Coherent s)
    (passes : op.passesDeliverError) (step : OpStep now j s op event s') :
    ∀ row, s'.row = some row → ErrorKept row := by
  cases step with
  | idle => exact kept
  | created absent cap =>
    rintro _ ⟨⟩ error present
    cases present
  | @claimed row _ _ _ _ _ _ _ present due =>
    -- the attempt that the claim opens is not closed yet
    have pending := (isDue_iff.mp due).1
    rintro _ ⟨⟩ error hasError
    have old := kept row present error hasError
    simpa [Job.lastClosed, claimedRow, pending] using old
  | sent _ _ _ _ =>
    rintro _ ⟨⟩ error present
    cases present
  | @failed row _ _ error retryDelay permanent _ _ present owned _ _ =>
    have processing := (fenced_iff.mp owned).2.2
    have started := (coherent.present row present).started (by simp [processing])
    rintro _ ⟨⟩
    exact .of_closed rfl passes.ne_empty failedRow_status_ne started
  | @reaped row _ _ _ _ _ _ present processing _ _ _ =>
    have started := (coherent.present row present).started (by simp [processing])
    rintro _ ⟨⟩
    exact .of_closed rfl (by decide) reapedRow_status_ne started
  | @returned row _ _ present owned =>
    have processing := (fenced_iff.mp owned).2.2
    rintro _ ⟨⟩ error hasError
    have old := kept row present error hasError
    simpa [Job.lastClosed, returnedRow, processing] using old
  | requeued _ _ _ =>
    rintro _ ⟨⟩ error present
    cases present

end

theorem errorKept_of_run {history : JobHistory} {db : Db} (run : Run jobSystem history db)
    (passes : ∀ taken ∈ history, taken.label.op.passesDeliverError) :
    ∀ row ∈ db.jobs.rows, ErrorKept row := by
  have kept : ∀ j row, (db.slice j).row = some row → ErrorKept row := by
    refine Run.invariant (I := fun _ db => ∀ j row, (db.slice j).row = some row → ErrorKept row)
      ?_ ?_ run (Along.of_forall passes)
    · rintro _ rfl j row present
      cases present
    · rintro history db ⟨op, now, answer⟩ db' earlier _ kept passes committed j
      exact ErrorKept.step (kept j) (coherent_slice earlier j) passes (commit_op committed j)
  intro row member
  exact kept row.id row (Table.lookup_of_mem member)

/-- A pending row has an error exactly when it is retrying. -/
theorem ErrorKept.isRetrying_iff {row : Job} (kept : ErrorKept row) :
    row.isRetrying = (decide (row.status = .pending) && row.lastError.isSome) := by
  by_cases pending : row.status = .pending
  · cases lastError : row.lastError with
    | none => simp [Job.isRetrying, lastError]
    | some error =>
      have ⟨nonempty, closed⟩ := kept error lastError
      simp only [Job.lastClosed, pending, reduceCtorEq, if_false] at closed
      have attempted : 0 < row.attempts := by omega
      simp [Job.isRetrying, pending, lastError, nonempty, attempted]
  · simp [Job.isRetrying, pending]

/-- Rows counted in two parts. -/
theorem countP_parts {α : Type} (rows : List α) (p q : α → Bool) :
    rows.countP p =
      rows.countP (fun row => p row && q row) + rows.countP fun row => p row && !q row := by
  rw [List.countP_eq_countP_filter_add rows p q, List.countP_filter, List.countP_filter]

/-- In every state the count of `job_counts` is that of `Job.is_retrying`, the pending jobs
    split into due, scheduled and waiting to retry, and no pending job has an error without an
    attempt. -/
theorem retrying_agrees {history : JobHistory} {db : Db} (run : Run jobSystem history db)
    (passes : ∀ taken ∈ history, taken.label.op.passesDeliverError) (now : Time) :
    (jobCounts now db).retrying = db.jobs.rows.countP Job.isRetrying ∧
      (jobCounts now db).pending = (jobCounts now db).pendingDue + (jobCounts now db).scheduled +
        db.jobs.rows.countP (fun row => row.isRetrying && now < row.runAt) ∧
      ∀ j row, getJob db j = some row → row.status = .pending → row.lastError ≠ none →
        1 ≤ row.attempts := by
  have kept := errorKept_of_run run passes
  refine ⟨?_, ?_, ?_⟩
  · apply List.countP_congr
    intro row member
    rw [(kept row member).isRetrying_iff]
  · have due := countP_parts db.jobs.rows (fun row => decide (row.status = .pending)) fun row =>
      decide (row.runAt ≤ now)
    have waiting := countP_parts db.jobs.rows (fun row => row.status = .pending && now < row.runAt)
      fun row => row.lastError.isNone
    -- the part with an error is what is retrying
    have retrying : db.jobs.rows.countP (fun row => row.isRetrying && now < row.runAt) =
        db.jobs.rows.countP fun row =>
          (decide (row.status = .pending) && decide (now < row.runAt)) && !row.lastError.isNone := by
      apply List.countP_congr
      intro row member
      rw [(kept row member).isRetrying_iff]
      cases row.lastError <;> simp
    have ahead : ∀ row : Job, (!decide (row.runAt ≤ now)) = decide (now < row.runAt) := by
      intro row
      simp [← not_le]
    simp only [ahead] at due
    rw [retrying, jobCounts, due, waiting, Nat.add_assoc]
  · intro j row found pending hasError
    obtain ⟨error, present⟩ := Option.ne_none_iff_exists'.mp hasError
    have closed := (kept row (Table.mem_of_lookup found) error present).2
    simpa [Job.lastClosed, pending] using closed

/-- A failure, a deferral of the next claim, and the job waits to retry. -/
def deferredRetry : List (JobOp × Time) :=
  [(.createJob 1 (sampleJob 3), 0),
    (.claimDueJobs "worker-1" 5 10 (fun _ => 70) .alone, 1),
    (.markFailed 1 70 "worker-1" "DeliveryError: provider down" 4 false "" 900, 2),
    (.claimDueJobs "worker-1" 5 10 (fun _ => 71) .alone, 6),
    (.returnToQueue 1 71 3, 7)]

theorem retrying_agrees_deferred :
    (jobCounts 8 (jobRun deferredRetry).2).retrying = 1 ∧
      (jobRun deferredRetry).2.jobs.rows.countP Job.isRetrying = 1 := by
  have retrying : (jobCounts 8 (jobRun deferredRetry).2).retrying = 1 := by decide +kernel
  have passes : ∀ taken ∈ (jobRun deferredRetry).1, taken.label.op.passesDeliverError := by
    intro taken member
    have called := op_of_jobRun member
    simp only [deferredRetry, List.map_cons, List.map_nil, List.mem_cons, List.not_mem_nil,
      or_false] at called
    rcases called with op | op | op | op | op
    · rw [op]
      trivial
    · rw [op]
      trivial
    · rw [op]
      exact ⟨"DeliveryError", "provider down", rfl⟩
    · rw [op]
      trivial
    · rw [op]
      trivial
  exact ⟨retrying, (retrying_agrees (run_jobRun deferredRetry) passes 8).1.symm.trans retrying⟩

end NotifyQueue
