import Mathlib.Algebra.BigOperators.Ring.Finset
import NotifyQueue.Lib.References
import NotifyQueue.Repositories.Queries
import NotifyQueue.Verified.ClaimLedger

/-! # The metrics add up

`job_counts` scans three tables on their own.  In every reachable state the counts fit together:
the statuses split the jobs, each sent job has its delivery, each dead-lettered job its dead letter,
and the attempts of all jobs are the recorded ones and those that are open.  The rows of a
satellite table refer to jobs (`refers_to_jobs`), so they are counted job by job. -/

namespace NotifyQueue

open Runs Tables

section

variable {history : JobHistory} {db : Db}

/-! ## Every row belongs to a job -/

theorem exists_job (run : Run jobSystem history db) {j : JobId}
    (mentioned : db.slice j ≠ ⟨none, none, none, [], []⟩) :
    ∃ row, db.jobs.lookup j = some row := by
  cases found : db.jobs.lookup j with
  | some row => exact ⟨row, rfl⟩
  | none => exact absurd ((coherent_slice run j).absent found) mentioned

/-- The foreign keys hold: whatever a satellite table has, it has about a job. -/
theorem refers_to_jobs (run : Run jobSystem history db) :
    db.jobs.References Delivery.jobId db.deliveries.rows ∧
      db.jobs.References DeadLetter.jobId db.deadLetters.rows ∧
      db.jobs.References JobAttempt.jobId db.jobAttempts.rows ∧
      db.jobs.References OutboxRow.jobId db.webhookOutbox.rows := by
  refine ⟨?_, ?_, ?_, ?_⟩
  · intro delivery member
    apply exists_job run
    intro empty
    have found : (db.slice delivery.jobId).delivery = some delivery := Table.lookup_of_mem member
    simp [empty] at found
  · intro letter member
    apply exists_job run
    intro empty
    have found : (db.slice letter.jobId).deadLetter = some letter := Table.lookup_of_mem member
    simp [empty] at found
  · intro attempt member
    apply exists_job run
    intro empty
    have inSlice : attempt ∈ (db.slice attempt.jobId).attempts := mem_attempts_iff.mpr ⟨member, rfl⟩
    simp [empty] at inSlice
  · intro event member
    apply exists_job run
    intro empty
    have inSlice : event ∈ (db.slice event.jobId).events := mem_events_iff.mpr ⟨member, rfl⟩
    simp [empty] at inSlice

/-! ## The rows of one job -/

theorem deliveries_of_row (run : Run jobSystem history db) {row : Job} (member : row ∈ db.jobs.rows) :
    db.deliveries.rows.countP (fun delivery => delivery.jobId = row.id) =
      if row.status = .sent then 1 else 0 := by
  have filed := ((coherent_slice run row.id).present row (Table.lookup_of_mem member)).delivery
  rw [Table.countP_key]
  exact if_congr filed rfl rfl

theorem deadLetters_of_row (run : Run jobSystem history db) {row : Job} (member : row ∈ db.jobs.rows) :
    db.deadLetters.rows.countP (fun letter => letter.jobId = row.id) =
      if row.status = .deadLettered then 1 else 0 := by
  have filed := ((coherent_slice run row.id).present row (Table.lookup_of_mem member)).deadLetter
  rw [Table.countP_key]
  exact if_congr filed rfl rfl

theorem attempts_of_row (run : Run jobSystem history db) {row : Job} (member : row ∈ db.jobs.rows) :
    row.attempts = db.jobAttempts.rows.countP (fun attempt => attempt.jobId = row.id) +
      if row.status = .processing then 1 else 0 := by
  rw [recorded_attempts run]
  exact (balanced_of_run run (Table.lookup_of_mem member)).attempts

theorem events_of_row (run : Run jobSystem history db) (j : JobId) :
    db.webhookOutbox.rows.countP (fun event => event.jobId = j) =
      db.jobAttempts.rows.countP fun attempt => attempt.jobId = j := by
  rw [List.countP_eq_length_filter, List.countP_eq_length_filter]
  exact (coherent_slice run j).announced.length_eq

/-- A job has as many sent attempts as it was sent, which is once at most. -/
theorem SliceStep.sentAttempts {now : Time} {j : JobId} {s s' : Slice} {event : Option JobEvent}
    (step : SliceStep now j s event s') :
    s'.attempts.countP (fun attempt => attempt.outcome = .sent) =
      event.toList.count (.ended .sent .sent) +
        s.attempts.countP fun attempt => attempt.outcome = .sent := by
  cases step <;> simp [Slice.finishSent, Slice.finishFailed, Nat.add_comm]

theorem sentAttempts_of_run (run : Run jobSystem history db) (j : JobId) :
    (db.slice j).attempts.countP (fun attempt => attempt.outcome = .sent) =
      (jobEvents j history).count (.ended .sent .sent) := by
  induction run with
  | start initial =>
    cases initial
    rfl
  | next _ committed inductionHypothesis =>
    rw [(commit_slice committed j).sentAttempts, inductionHypothesis, jobEvents_cons,
      List.count_append]

theorem sentAttempts_of_row (run : Run jobSystem history db) {row : Job} (member : row ∈ db.jobs.rows) :
    db.jobAttempts.rows.countP (fun attempt => attempt.outcome = .sent && attempt.jobId = row.id) =
      if row.status = .sent then 1 else 0 := by
  have sends := (balanced_of_run run (Table.lookup_of_mem member)).sends
  rw [← List.countP_filter]
  exact (sentAttempts_of_run run row.id).trans sends

end

/-! ## The sums -/

theorem status_split (rows : List Job) :
    rows.countP (fun row => row.status = .pending) + rows.countP (fun row => row.status = .processing) +
      rows.countP (fun row => row.status = .sent) +
      rows.countP (fun row => row.status = .deadLettered) = rows.length := by
  induction rows with
  | nil => rfl
  | cons row rows inductionHypothesis =>
    simp only [List.countP_cons, List.length_cons, ← inductionHypothesis]
    cases row.status <;> simp <;> omega

section

variable {history : JobHistory} {db : Db}

theorem sent_eq_deliveries (run : Run jobSystem history db) (now : Time) :
    (jobCounts now db).sent = db.deliveries.rows.length := by
  obtain ⟨deliveries, _, _, _⟩ := refers_to_jobs run
  rw [Table.length_children deliveries, List.map_congr_left fun row => deliveries_of_row run,
    sum_indicator]
  rfl

theorem deadLettered_eq_letters (run : Run jobSystem history db) (now : Time) :
    (jobCounts now db).deadLettered = db.deadLetters.rows.length := by
  obtain ⟨_, letters, _, _⟩ := refers_to_jobs run
  rw [Table.length_children letters, List.map_congr_left fun row => deadLetters_of_row run,
    sum_indicator]
  rfl

/-- An attempt is either sent or failed, and each sent job has one sent attempt. -/
theorem failed_add_sent (run : Run jobSystem history db) (now : Time) :
    (jobCounts now db).failedAttempts + (jobCounts now db).sent = db.jobAttempts.rows.length := by
  obtain ⟨_, _, attempts, _⟩ := refers_to_jobs run
  have sentAttempts : db.jobAttempts.rows.countP (fun attempt => attempt.outcome = .sent) =
      (jobCounts now db).sent := by
    rw [Table.countP_children attempts, List.map_congr_left fun row => sentAttempts_of_row run,
      sum_indicator]
    rfl
  rw [← sentAttempts, List.length_eq_countP_add_countP (p := fun a => a.outcome = .sent),
    Nat.add_comm]
  simp [jobCounts]

theorem events_eq_attempts (run : Run jobSystem history db) :
    db.webhookOutbox.rows.length = db.jobAttempts.rows.length := by
  obtain ⟨_, _, attempts, events⟩ := refers_to_jobs run
  rw [Table.length_children attempts, Table.length_children events]
  congr 1
  exact List.map_congr_left fun row _ => events_of_row run row.id

/-- The attempts of all jobs are the recorded ones and those that are open. -/
theorem total_attempts (run : Run jobSystem history db) (now : Time) :
    (db.jobs.rows.map Job.attempts).sum =
      ((db.jobAttempts.rows.length + (jobCounts now db).processing : Nat) : Int) := by
  obtain ⟨_, _, attempts, _⟩ := refers_to_jobs run
  have inProgress : (jobCounts now db).processing = _ := (sum_indicator _ _).symm
  rw [Table.length_children attempts, inProgress, ← List.sum_map_add, Nat.cast_list_sum, List.map_map]
  congr 1
  apply List.map_congr_left
  intro row member
  simpa using attempts_of_row run member

/-- In every state the counts of the metrics add up, with each other and with the tables that they
    do not look at. -/
theorem counts_balance (run : Run jobSystem history db) (now : Time) :
    let counts := jobCounts now db
    counts.pending + counts.processing + counts.sent + counts.deadLettered = db.jobs.rows.length ∧
      counts.sent = db.deliveries.rows.length ∧
      counts.deadLettered = db.deadLetters.rows.length ∧
      counts.failedAttempts + counts.sent = db.jobAttempts.rows.length ∧
      counts.failedAttempts + counts.sent = db.webhookOutbox.rows.length ∧
      (db.jobs.rows.map Job.attempts).sum =
        counts.failedAttempts + counts.sent + counts.processing := by
  intro counts
  have recorded : counts.failedAttempts + counts.sent = _ := failed_add_sent run now
  refine ⟨status_split _, sent_eq_deliveries run now, deadLettered_eq_letters run now, recorded,
    recorded.trans (events_eq_attempts run).symm, ?_⟩
  calc (db.jobs.rows.map Job.attempts).sum
      = ((db.jobAttempts.rows.length + counts.processing : Nat) : Int) := total_attempts run now
    _ = counts.failedAttempts + counts.sent + counts.processing := by
      rw [← recorded]
      push_cast
      rfl

end

theorem counts_balance_requeued :
    (jobCounts 20 (jobRun requeuedJob).2).failedAttempts +
        (jobCounts 20 (jobRun requeuedJob).2).sent = 2 ∧
      (jobRun requeuedJob).2.webhookOutbox.rows.length = 2 := by
  have counted : (jobCounts 20 (jobRun requeuedJob).2).failedAttempts +
      (jobCounts 20 (jobRun requeuedJob).2).sent = 2 := by decide +kernel
  have announced := (counts_balance (run_jobRun requeuedJob) 20).2.2.2.2.1
  exact ⟨counted, announced.symm.trans counted⟩

end NotifyQueue
