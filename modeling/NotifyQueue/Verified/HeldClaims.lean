import NotifyQueue.Verified.SendSafety

/-! # Who holds a job in processing

A claim is in two places: in the columns of the row, and in the task that `run_batch` made for
it.  A task gives its claim up only by a transaction that takes the row out of `processing`, or
when such a transaction found the claim gone; so a job in processing is always in the hands of
a task that still works on it, or of one that died with it. -/

namespace NotifyQueue

open Runs Tables

/-- The task is done with its claim, or knows that it has lost it. -/
def Stage.letsGo : Stage → Bool
  | .releasing => true
  | .ended .finished => true
  | .ended .leaseLost => true
  | _ => false

structure Task.Holds (task : Task) (row : Job) : Prop where
  job : task.job.id = row.id
  claimToken : row.claimToken = some task.claimToken
  lockedBy : row.lockedBy = some task.worker
  keeps : task.stage.letsGo = false

/-! ## Rows in processing -/

section

variable {op : JobOp} {now : Time} {db db' : Db} {answer : Answer} {j : JobId} {row' : Job}

/-- A job is in processing because it was, or because this call claimed it. -/
theorem processing_of_commit (committed : op.commit now db = (answer, db'))
    (found : getJob db' j = some row') (processing : row'.status = .processing) :
    getJob db j = some row' ∨ Call.eventFor ⟨op, now, answer⟩ j = some .claimed := by
  have step := commit_slice committed j
  have present : (db'.slice j).row = some row' := found
  show (db.slice j).row = some row' ∨ _
  generalize Call.eventFor ⟨op, now, answer⟩ j = event at step ⊢
  generalize db'.slice j = s' at step present
  generalize db.slice j = s at step ⊢
  cases step with
  | idle => exact .inl present
  | claimed _ _ _ _ _ => exact .inr rfl
  | created _ _ =>
    cases present
    simp [NewJob.row] at processing
  | sent _ _ _ _ _ _ _ _ _ =>
    cases present
    simp [sentRow] at processing
  | failed _ _ _ _ _ _ _ _ _ _ _ =>
    cases present
    exact absurd processing failedRow_status_ne
  | reaped _ _ _ _ _ _ _ =>
    cases present
    exact absurd processing reapedRow_status_ne
  | returned _ _ _ _ =>
    cases present
    simp [returnedRow] at processing
  | requeued _ _ _ _ =>
    cases present
    simp [requeuedRow] at processing

/-- A call that is no claim brings no job into processing. -/
theorem processing_of_other (committed : op.commit now db = (answer, db'))
    (other : op.causes .claimed = false) (found : getJob db' j = some row')
    (processing : row'.status = .processing) : getJob db j = some row' := by
  cases processing_of_commit committed found processing with
  | inl before => exact before
  | inr claimed =>
    have causes := causes_of_eventFor claimed
    rw [other] at causes
    contradiction

/-- What ends a claim takes the job out of processing. -/
theorem SliceStep.idle_of_end {s s' : Slice} {event : JobEvent}
    (step : SliceStep now j s (some event) s') (ends : event.endsClaim = true)
    (present : s'.row = some row') : row'.status ≠ .processing := by
  cases step with
  | created _ _ => contradiction
  | claimed _ _ _ _ _ => contradiction
  | requeued _ _ _ _ => contradiction
  | sent _ _ _ _ _ _ _ _ _ =>
    cases present
    simp [sentRow]
  | failed _ _ _ _ _ _ _ _ _ _ _ =>
    cases present
    exact failedRow_status_ne
  | reaped _ _ _ _ _ _ _ =>
    cases present
    exact reapedRow_status_ne
  | returned _ _ _ _ =>
    cases present
    simp [returnedRow]

theorem idle_of_finished {token : ClaimToken} {t : Transition}
    (presented : op.presents = some (j, token))
    (committed : op.commit now db = (.finished (some t), db')) (found : getJob db' j = some row') :
    row'.status ≠ .processing := by
  cases finalized_of_presents presented committed with
  | moved _ _ named =>
    obtain ⟨event, ends, happened⟩ := eventFor_of_presents presented now t j
    have step := commit_slice committed j
    rw [happened, if_pos named] at step
    exact step.idle_of_end ends found

/-- A call that presents a token causes no claim. -/
theorem causes_of_presents {named : JobId × ClaimToken} (presented : op.presents = some named) :
    op.causes .claimed = false := by
  cases op <;> simp_all [JobOp.presents, JobOp.causes]

end

/-! ## One step -/

section

variable {settings : Settings} {skew : String → Time} {w w' : World}

/-- A task lets go of its claim only when nobody has the job under its token. -/
theorem Task.step_letsGo {task task' : Task} {action : TaskAction} {db : Db} {keys : Keys}
    (stepped : task.step settings skew w action = some (task', db, keys))
    (keeps : task.stage.letsGo = false) (letsGo : task'.stage.letsGo = true) {row : Job}
    (found : getJob db task.job.id = some row) (processing : row.status = .processing) :
    row.claimToken ≠ some task.claimToken := by
  intro held
  have owned : fenced task.job.id task.claimToken row = true :=
    fenced_iff.mpr ⟨Table.pk_of_lookup found, held, processing⟩
  cases Task.step_cases stepped with
  | returned _ _ committed => exact idle_of_finished rfl committed found processing
  | recorded _ _ records committed =>
    exact idle_of_finished (recordOp_presents records) committed found processing
  | recordLost _ records committed =>
    cases finalized_of_presents (recordOp_presents records) committed with
    | fencedOut unfenced => simp [unfenced row (Table.mem_of_lookup found)] at owned
  | @returnLost began delaySeconds givesBack stage =>
    -- `return_to_queue` raises nothing, so it answered that the token is gone
    cases committed : (JobOp.returnToQueue task.job.id task.claimToken delaySeconds).commit began
        w.db with
    | mk answer db' =>
      simp only [Task.step, stage, Task.returnUnsent, committed] at stepped
      cases finalized_of_presents rfl committed with
      | fencedOut unfenced => simp [unfenced row (Table.mem_of_lookup found)] at owned
      | rolledBack _ _ _ => simp [commit_returnToQueue] at committed
      | moved _ _ _ => cases givesBack <;> simp [Task.to] at stepped
  | released _ stage => simp [stage, Stage.letsGo] at keeps
  | _ => simp_all [Task.to, Stage.letsGo]

/-- Every job in processing is in the hands of a task. -/
def Held (w : World) : Prop :=
  ∀ j row, getJob w.db j = some row → row.status = .processing →
    ∃ (k : Nat) (task : Task), w.tasks[k]? = some task ∧ task.Holds row

/-- The task that a step moves. -/
theorem World.step_task {i : Nat} {action : TaskAction}
    (stepped : w.step settings skew (.task i action) = some w') :
    ∃ task task' db keys, w.tasks[i]? = some task ∧
      task.step settings skew w action = some (task', db, keys) ∧
      w' = { w with db, keys, tasks := w.tasks.set i task' } := by
  simp only [World.step] at stepped
  split at stepped
  · cases stepped
  · next task found =>
    split at stepped
    · cases stepped
    · next task' db keys moved =>
      cases stepped
      exact ⟨task, task', db, keys, found, moved, rfl⟩

/-- No task claims: what a task leaves in processing was in processing. -/
theorem Task.step_processing {task task' : Task} {action : TaskAction} {db : Db} {keys : Keys}
    (stepped : task.step settings skew w action = some (task', db, keys)) {j : JobId} {row : Job}
    (found : getJob db j = some row) (processing : row.status = .processing) :
    getJob w.db j = some row := by
  cases Task.step_cases stepped with
  | returned _ _ committed => exact processing_of_other committed rfl found processing
  | recorded _ _ records committed =>
    exact processing_of_other committed (causes_of_presents (recordOp_presents records)) found
      processing
  | _ => exact found

theorem Held.task_step {i : Nat} {action : TaskAction} {task task' : Task} {db : Db} {keys : Keys}
    (held : Held w) (inTasks : w.tasks[i]? = some task)
    (moved : task.step settings skew w action = some (task', db, keys)) :
    Held { w with db, keys, tasks := w.tasks.set i task' } := by
  intro j row found processing
  have before := Task.step_processing moved found processing
  obtain ⟨k, holder, inTasks', holds⟩ := held j row before processing
  by_cases same : i = k
  · subst same
    obtain rfl : task = holder := Option.some.inj (inTasks.symm.trans inTasks')
    have ⟨worker, job, token, _⟩ := (Task.step_cases moved).identity
    have inBounds : i < w.tasks.length := (List.getElem?_eq_some_iff.mp inTasks).1
    refine ⟨i, task', by rw [List.getElem?_set_self inBounds], ?_⟩
    constructor
    · rw [job, holds.job]
    · rw [token, holds.claimToken]
    · rw [worker, holds.lockedBy]
    · -- the task cannot have let go of a job that is still in processing under its token
      by_contra letsGo
      rw [Bool.not_eq_false] at letsGo
      have named : task.job.id = j := by rw [holds.job, Table.pk_of_lookup before]
      rw [← named] at found
      exact Task.step_letsGo moved holds.keeps letsGo found processing holds.claimToken
  · exact ⟨k, holder, by rw [List.getElem?_set_ne same, inTasks'], holds⟩

/-- `run_batch` makes a task for each job that it claimed. -/
theorem Held.claim_step {batch : Batch} {began : Time} {newToken : JobId → ClaimToken}
    {choices : Choices} {jobs : List Job} {db : Db} (held : Held w)
    (claimed : claimDueJobs began batch.worker settings.batchSize settings.leaseSeconds newToken
      choices w.db = (jobs, db)) (batches : List Batch) :
    Held { w with db, batches, tasks := w.tasks ++ newTasks batch.worker batch.leaseDeadline jobs } := by
  have committed : (JobOp.claimDueJobs batch.worker settings.batchSize settings.leaseSeconds
      newToken choices).commit began w.db = (.claimed jobs, db) := by
    rw [commit_claimDueJobs, claimed]
  intro j row found processing
  cases processing_of_commit committed found processing with
  | inl before =>
    obtain ⟨k, task, inTasks, holds⟩ := held j row before processing
    have inBounds : k < w.tasks.length := (List.getElem?_eq_some_iff.mp inTasks).1
    exact ⟨k, task, by rw [List.getElem?_append_left inBounds, inTasks], holds⟩
  | inr happened =>
    simp only [Call.eventFor, Option.ite_none_right_eq_some, and_true, List.any_eq_true,
      decide_eq_true_eq] at happened
    obtain ⟨job, member, named⟩ := happened
    obtain ⟨old, _, _, same, after⟩ := lookup_of_claimed claimed member
    obtain rfl : job = row := Option.some.inj (after.symm.trans (named ▸ found))
    have token : job.claimToken = some (newToken old.id) := by rw [← same]; rfl
    have worker : job.lockedBy = some batch.worker := by rw [← same]; rfl
    have new : ⟨batch.worker, job, newToken old.id, batch.leaseDeadline, .acquiring, none, none⟩ ∈
        w.tasks ++ newTasks batch.worker batch.leaseDeadline jobs := by
      apply List.mem_append_right
      rw [newTasks, List.mem_filterMap]
      exact ⟨job, member, by rw [token]; rfl⟩
    obtain ⟨k, inTasks⟩ := List.mem_iff_getElem?.mp new
    exact ⟨k, _, inTasks, rfl, token, worker, rfl⟩

theorem Held.step {action : Action} (held : Held w) (stepped : w.step settings skew action = some w') :
    Held w' := by
  cases World.step_cases stepped with
  | tick _ => exact held
  | poll _ => exact held
  | @outside op began answer db outside _ committed =>
    have other : op.causes .claimed = false := by
      cases op <;> simp_all [JobOp.isOutside, JobOp.causes]
    intro j row found processing
    exact held j row (processing_of_other committed other found processing) processing
  | claim _ _ _ claimed => exact held.claim_step claimed _
  | task _ _ =>
    obtain ⟨task, task', db, keys, inTasks, moved, same⟩ := World.step_task stepped
    rw [same]
    exact held.task_step inTasks moved

theorem held_of_run {history : WorkerHistory} (run : Run (workerSystem settings skew) history w) :
    Held w := by
  refine Run.state_invariant (I := Held) ?_ ?_ run
  · rintro _ ⟨start, rfl⟩ j row found
    cases found
  · intro w action w' held stepped
    exact held.step stepped

/-- A job in processing is in the hands of exactly one task: the one that its row names, which
    still works on it or died with it. -/
theorem claims_in_hand {history : WorkerHistory} (run : Run (workerSystem settings skew) history w)
    (distinct : (w.tasks.map Task.claimToken).Nodup) {j : JobId} {row : Job}
    (found : getJob w.db j = some row) (processing : row.status = .processing) :
    ∃ (k : Nat) (task : Task), w.tasks[k]? = some task ∧ task.Holds row ∧
      ∀ (other : Nat) (task' : Task), w.tasks[other]? = some task' → task'.Holds row → other = k := by
  obtain ⟨k, task, inTasks, holds⟩ := held_of_run run j row found processing
  refine ⟨k, task, inTasks, holds, ?_⟩
  intro other task' inTasks' holds'
  have tokens : task'.claimToken = task.claimToken :=
    Option.some.inj (holds'.claimToken.symm.trans holds.claimToken)
  exact sameIndex distinct inTasks' inTasks tokens

end

/-- Two jobs are claimed, and the task of the second one dies while it sends. -/
def diedSending : WorkerHistory × World :=
  workerRun .default (fun _ => 0) 0
    [.outside (.createJob 1 (sampleJob 3)) 0, .outside (.createJob 2 (sampleJob 3)) 0,
      .poll "worker-1", .claim 0 0 (fun j => j + 70) .alone, .task 0 (.acquire .redis),
      .task 1 (.acquire .redis), .task 1 .checkBudget, .task 1 .crash]

theorem claims_in_hand_crashed :
    ∃ row, getJob diedSending.2.db 2 = some row ∧ row.status = .processing ∧
      ∃ (k : Nat) (task : Task), diedSending.2.tasks[k]? = some task ∧ task.Holds row ∧
        ∀ (other : Nat) (task' : Task), diedSending.2.tasks[other]? = some task' →
          task'.Holds row → other = k := by
  have facts : ∃ row, getJob diedSending.2.db 2 = some row ∧ row.status = .processing := by
    decide +kernel
  obtain ⟨row, found, processing⟩ := facts
  exact ⟨row, found, processing,
    claims_in_hand (run_workerRun _ _ _ _) (by decide +kernel) found processing⟩

end NotifyQueue
