import NotifyQueue.Lib.Aborts
import NotifyQueue.Repositories.Jobs

/-! # What the tables say about one job

A `Slice` is everything the tables hold about one job.  Each statement changes the slice
of the jobs it touches and leaves every other slice alone, so a property of all jobs is
a property of one slice under `SliceStep`, the steps that an operation can make on it. -/

namespace NotifyQueue

open Tables Aborts

@[ext] structure Slice where
  row : Option Job
  delivery : Option Delivery
  deadLetter : Option DeadLetter
  attempts : List JobAttempt
  events : List OutboxRow

namespace Db

def slice (db : Db) (jobId : JobId) : Slice where
  row := db.jobs.lookup jobId
  delivery := db.deliveries.lookup jobId
  deadLetter := db.deadLetters.lookup jobId
  attempts := db.jobAttempts.select fun attempt => attempt.jobId = jobId
  events := db.webhookOutbox.select fun event => event.jobId = jobId

@[simp] theorem slice_empty (j : JobId) : empty.slice j = ⟨none, none, none, [], []⟩ := rfl

/-! ## Statements on slices -/

@[simp] theorem slice_updateJobs (db : Db) (p : Job → Bool) (set : Job → Job)
    (keeps : KeepsKeys set) (j : JobId) :
    (db.updateJobs p set keeps).slice j =
      { db.slice j with row := (db.slice j).row.map fun row => if p row then set row else row } := by
  simp only [slice, updateJobs, Table.lookup_update]

theorem slice_deleteDeadLetter (db : Db) (i j : JobId) :
    (db.deleteDeadLetter i).slice j =
      if i = j then { db.slice j with deadLetter := none } else db.slice j := by
  simp only [slice, deleteDeadLetter, Table.lookup_delete_key]
  split <;> rfl

theorem fresh_insertJob {db db' : Db} {row : Job} (inserted : db.insertJob row = .ok db') :
    (db.slice row.id).row = none := by
  unfold insertJob at inserted
  split at inserted
  · next ok => exact Table.fresh_of_insert ok
  · contradiction

theorem slice_insertJob {db db' : Db} {row : Job} (inserted : db.insertJob row = .ok db')
    (j : JobId) :
    db'.slice j = if row.id = j then { db.slice j with row := some row } else db.slice j := by
  unfold insertJob at inserted
  split at inserted
  · next jobs ok =>
    cases inserted
    simp only [slice, Table.lookup_insert ok]
    split <;> rfl
  · contradiction

theorem fresh_insertDelivery {db db' : Db} {row : Delivery}
    (inserted : db.insertDelivery row = .ok db') : (db.slice row.jobId).delivery = none := by
  unfold insertDelivery at inserted
  split at inserted
  · next ok => exact Table.fresh_of_insert ok
  · contradiction

theorem slice_insertDelivery {db db' : Db} {row : Delivery}
    (inserted : db.insertDelivery row = .ok db') (j : JobId) :
    db'.slice j =
      if row.jobId = j then { db.slice j with delivery := some row } else db.slice j := by
  unfold insertDelivery at inserted
  split at inserted
  · next deliveries ok =>
    cases inserted
    simp only [slice, Table.lookup_insert ok]
    split <;> rfl
  · contradiction

theorem fresh_insertDeadLetter {db db' : Db} {row : DeadLetter}
    (inserted : db.insertDeadLetter row = .ok db') : (db.slice row.jobId).deadLetter = none := by
  unfold insertDeadLetter at inserted
  split at inserted
  · next ok => exact Table.fresh_of_insert ok
  · contradiction

theorem slice_insertDeadLetter {db db' : Db} {row : DeadLetter}
    (inserted : db.insertDeadLetter row = .ok db') (j : JobId) :
    db'.slice j =
      if row.jobId = j then { db.slice j with deadLetter := some row } else db.slice j := by
  unfold insertDeadLetter at inserted
  split at inserted
  · next deadLetters ok =>
    cases inserted
    simp only [slice, Table.lookup_insert ok]
    split <;> rfl
  · contradiction

theorem fresh_insertJobAttempt {db db' : Db} {row : JobAttempt}
    (inserted : db.insertJobAttempt row = .ok db') :
    ∀ attempt ∈ (db.slice row.jobId).attempts, attempt.attemptNo ≠ row.attemptNo := by
  unfold insertJobAttempt at inserted
  split at inserted
  · next ok =>
    intro attempt member same
    simp only [slice, Table.select, List.mem_filter, decide_eq_true_eq] at member
    have fresh := Table.lookup_eq_none.mp (Table.fresh_of_insert ok) attempt member.1
    exact fresh (by rw [JobAttempt.key, JobAttempt.key, member.2, same])
  · contradiction

theorem slice_insertJobAttempt {db db' : Db} {row : JobAttempt}
    (inserted : db.insertJobAttempt row = .ok db') (j : JobId) :
    db'.slice j =
      if row.jobId = j then { db.slice j with attempts := (db.slice j).attempts ++ [row] }
      else db.slice j := by
  unfold insertJobAttempt at inserted
  split at inserted
  · next jobAttempts ok =>
    cases inserted
    simp only [slice, Table.select_insert ok, decide_eq_true_eq]
    split <;> simp
  · contradiction

theorem slice_insertOutboxRow {db db' : Db} {row : OutboxRow}
    (inserted : db.insertOutboxRow row = .ok db') (j : JobId) :
    db'.slice j =
      if row.jobId = j then { db.slice j with events := (db.slice j).events ++ [row] }
      else db.slice j := by
  unfold insertOutboxRow at inserted
  split at inserted
  · next webhookOutbox ok =>
    cases inserted
    simp only [slice, Table.select_insert ok, decide_eq_true_eq]
    split <;> simp
  · contradiction

end Db

end NotifyQueue
