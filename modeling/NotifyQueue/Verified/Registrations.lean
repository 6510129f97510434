import NotifyQueue.Services.Scheduler
import NotifyQueue.Verified.SliceSteps

/-! # The job that a key stands for

A job keeps its id, its idempotency key and its request hash, and is never deleted.  So
once a key is `Registered`, every later `create_job` with it finds that job, and every entry
that the cache holds for the key names it. -/

namespace NotifyQueue

open Tables Aborts Runs

/-- The job of an idempotency key, with the hash of the request that created it. -/
def Registered (db : Db) (key : String) (jobId : JobId) (hash : String) : Prop :=
  ∃ row, getJob db jobId = some row ∧ row.idempotencyKey = some key ∧ row.requestHash = hash

section

variable {db db' : Db} {key : String} {jobId jobId' : JobId} {hash hash' : String}

/-- What no step changes about a job. -/
theorem SliceStep.keepsRequest {now : Time} {j : JobId} {s s' : Slice} {event : Option JobEvent}
    (step : SliceStep now j s event s') {row : Job} (present : s.row = some row) :
    ∃ row', s'.row = some row' ∧ row'.idempotencyKey = row.idempotencyKey ∧
      row'.requestHash = row.requestHash := by
  cases step with
  | idle => exact ⟨row, present, rfl, rfl⟩
  | created absent _ =>
    rw [absent] at present
    cases present
  | claimed _ _ _ present' _ =>
    cases present'.symm.trans present
    exact ⟨_, rfl, rfl, rfl⟩
  | sent _ _ _ _ _ present' _ _ _ =>
    cases present'.symm.trans present
    exact ⟨_, rfl, rfl, rfl⟩
  | failed _ _ _ _ _ _ _ present' _ _ _ =>
    cases present'.symm.trans present
    exact ⟨_, rfl, rfl, rfl⟩
  | reaped _ _ present' _ _ _ _ =>
    cases present'.symm.trans present
    exact ⟨_, rfl, rfl, rfl⟩
  | returned _ _ present' _ =>
    cases present'.symm.trans present
    exact ⟨_, rfl, rfl, rfl⟩
  | requeued _ present' _ _ =>
    cases present'.symm.trans present
    exact ⟨_, rfl, rfl, rfl⟩

variable {op : JobOp} {now : Time} {answer : Answer}

theorem row_kept (committed : op.commit now db = (answer, db')) {row : Job}
    (found : getJob db jobId = some row) :
    ∃ row', getJob db' jobId = some row' ∧ row'.idempotencyKey = row.idempotencyKey ∧
      row'.requestHash = row.requestHash :=
  (commit_slice committed jobId).keepsRequest found

/-- Only `create_job` adds a row. -/
theorem row_of_outside (outside : Scheduling.isOutside op = true)
    (committed : op.commit now db = (answer, db')) {row' : Job} (found' : getJob db' jobId = some row') :
    ∃ row, getJob db jobId = some row := by
  have step := commit_slice committed jobId
  have uncreated : ∀ cap, Call.eventFor ⟨op, now, answer⟩ jobId ≠ some (.created cap) := by
    intro cap happened
    have causes := causes_of_eventFor happened
    cases op <;> contradiction
  have present' : (db'.slice jobId).row = some row' := found'
  cases present : getJob db jobId with
  | some row => exact ⟨row, rfl⟩
  | none =>
    have absent : (db.slice jobId).row = none := present
    generalize Call.eventFor ⟨op, now, answer⟩ jobId = event at step uncreated
    generalize db'.slice jobId = s' at step present'
    generalize db.slice jobId = s at step absent
    cases step with
    | idle =>
      rw [absent] at present'
      cases present'
    | created _ _ => exact absurd rfl (uncreated _)
    | claimed _ _ _ present _ => cases present.symm.trans absent
    | sent _ _ _ _ _ present _ _ _ => cases present.symm.trans absent
    | failed _ _ _ _ _ _ _ present _ _ _ => cases present.symm.trans absent
    | reaped _ _ present _ _ _ _ => cases present.symm.trans absent
    | returned _ _ present _ => cases present.symm.trans absent
    | requeued _ present _ _ => cases present.symm.trans absent

end

/-! ## The two statements of `create_job` -/

/-- How the `INSERT` can end. -/
inductive InsertedJob (now : Time) (id : JobId) (new : NewJob) (db : Db) :
    Except Abort (Option Job × Db) → Prop where
  | created {db' : Db} (enough : 1 ≤ new.maxAttempts) (absent : getJob db id = none)
      (committed : (JobOp.createJob id new).commit now db = (.created (new.row id now) true, db'))
      (present : getJob db' id = some (new.row id now))
      (others : ∀ j, j ≠ id → getJob db' j = getJob db j) :
      InsertedJob now id new db (.ok (some (new.row id now), db'))
  | taken {key : String} {jobId : JobId} {hash : String} (named : new.idempotencyKey = some key)
      (registered : Registered db key jobId hash) : InsertedJob now id new db (.ok (none, db))
  | tooFew (few : new.maxAttempts < 1) : InsertedJob now id new db (.error .maxAttemptsCheck)
  | repeated {row : Job} (found : getJob db id = some row) :
      InsertedJob now id new db (.error (.conflict .jobs .primaryKey))

theorem insertJob_cases (now : Time) (id : JobId) (new : NewJob) (db : Db) :
    InsertedJob now id new db (insertJob now id new db) := by
  by_cases few : new.maxAttempts < 1
  · rw [insertJob, if_pos few]
    exact .tooFew few
  · cases inserted : db.insertJob (new.row id now) with
    | ok db' =>
      have ran : insertJob now id new db = .ok (some (new.row id now), db') := by
        simp only [insertJob, if_neg few, inserted]
      have committed : (JobOp.createJob id new).commit now db =
          (.created (new.row id now) true, db') := by
        rw [commit_createJob, createJob, ran]
        rfl
      have row : ∀ j, getJob db' j = if id = j then some (new.row id now) else getJob db j := by
        intro j
        have slices := congrArg Slice.row (Db.slice_insertJob inserted j)
        by_cases same : id = j
        · simpa [Db.slice, getJob, NewJob.row, same] using slices
        · simpa [Db.slice, getJob, NewJob.row, same] using slices
      rw [ran]
      refine .created (not_lt.mp few) (Db.fresh_insertJob inserted) committed
        (by rw [row, if_pos rfl]) ?_
      intro j other
      rw [row, if_neg other.symm]
    | error violation =>
      have refused : db.jobs.insert (new.row id now) = .error violation := by
        unfold Db.insertJob at inserted
        split at inserted
        · cases inserted
        · next refused =>
          cases inserted
          exact refused
      -- a conflict on the primary key, or on the idempotency key
      obtain ⟨rfl, other, found⟩ | ⟨rfl, other, member, key, named, named'⟩ :=
        Table.conflict_of_insert refused
      · simp only [insertJob, if_neg few, inserted]
        exact .repeated found
      · simp only [insertJob, if_neg few, inserted]
        exact .taken named ⟨other, Table.lookup_of_mem member, named', rfl⟩

/-- Once its key is registered, an insert is ignored. -/
theorem insertJob_of_registered {now : Time} {id : JobId} {new : NewJob} {db : Db} {key : String}
    {jobId : JobId} {hash : String} (attempts : 1 ≤ new.maxAttempts)
    (named : new.idempotencyKey = some key) (registered : Registered db key jobId hash) :
    insertJob now id new db = .ok (none, db) := by
  obtain ⟨row, found, keyed, _⟩ := registered
  have refused : db.jobs.insert (new.row id now) = .error .uniqueKey := by
    unfold Table.insert
    exact dif_pos ⟨key, List.mem_filterMap.mpr ⟨row, Table.mem_of_lookup found, keyed⟩, named⟩
  simp only [insertJob, if_neg (not_lt.mpr attempts), Db.insertJob, refused]

theorem existingJob_of_registered (new : NewJob) {db : Db} {key : String} {jobId : JobId}
    {hash : String} (named : new.idempotencyKey = some key)
    (registered : Registered db key jobId hash) :
    ∃ row, existingJob db new = .ok row ∧ row.id = jobId ∧ row.idempotencyKey = some key ∧
      row.requestHash = hash ∧ getJob db jobId = some row := by
  obtain ⟨row, found, keyed, hashed⟩ := registered
  have member := Table.mem_of_lookup found
  cases first : db.jobs.rows.find? fun other => other.idempotencyKey = some key with
  | none =>
    rw [List.find?_eq_none] at first
    exact absurd (decide_eq_true keyed) (first row member)
  | some other =>
    have same : other = row := by
      have keyed' : other.idempotencyKey = some key := by simpa using List.find?_some first
      exact Table.eq_of_uk (List.mem_of_find?_eq_some first) member keyed' keyed
    subst same
    refine ⟨other, ?_, Table.pk_of_lookup found, keyed, hashed, found⟩
    simp only [existingJob, getJobByIdempotencyKey, named, first]

end NotifyQueue
