import NotifyQueue.Lib.Overtaking
import NotifyQueue.Verified.ClaimOrder

/-! # How long a due job waits for its claim

A claim that could take a job and does not is full of jobs that come before it in the order
(priority descending, `run_at` ascending), or level with it.  So over any run, with any calls in
between, the batches that passed a job over had no more room than the jobs ahead of it and those
that got ahead of it since. -/

namespace NotifyQueue

open Draining Overtaking Runs Tables

/-- The pending jobs that come before a job, or level with it. -/
def aheadOf (row : Job) (db : Db) : List Job :=
  db.jobs.select fun other => other.status = .pending && decide (claimOrder other row)

/-- The room of a claim that could take the job: it is due, and its row is not locked. -/
def Call.roomFor (call : Call) (row : Job) : Nat :=
  match call.op with
  | .claimDueJobs _ batchSize _ _ choices =>
    if row.runAt ≤ call.now ∧ choices.locked row.id = false then batchSize else 0
  | _ => 0

/-- The jobs that a call puts ahead of a job: new ones, retries, deferrals and requeues. -/
def overtakers (row : Job) (taken : Taken Db Call) : List Job :=
  (aheadOf row taken.after).filter fun other => other.id ∉ (aheadOf row taken.before).map Job.id

section

variable {row : Job} {db db' : Db} {op : JobOp} {now : Time} {answer : Answer}

theorem mem_aheadOf {other : Job} : other ∈ aheadOf row db ↔
    getJob db other.id = some other ∧ other.status = .pending ∧ claimOrder other row := by
  rw [aheadOf, Table.select, List.mem_filter, getJob, Table.lookup_eq_some]
  simp

theorem aheadOf_ids_nodup (row : Job) (db : Db) : ((aheadOf row db).map Job.id).Nodup :=
  db.jobs.pk_nodup.sublist (List.filter_sublist.map Job.id)

/-- A batch out of what is ahead of a job leaves the rest of it and what overtakes. -/
theorem ahead_after_batch {call : Call} {batch : List JobId} (nodup : batch.Nodup)
    (taken : ∀ id ∈ batch, id ∈ (aheadOf row db).map Job.id)
    (gone : ∀ id ∈ (aheadOf row db').map Job.id, id ∉ batch) :
    (aheadOf row db').length + batch.length ≤
      (aheadOf row db).length + (overtakers row ⟨db, call, db'⟩).length := by
  have bound : ((aheadOf row db').map Job.id).length + batch.length ≤
      ((aheadOf row db).map Job.id).length +
        ((overtakers row ⟨db, call, db'⟩).map Job.id).length := by
    apply length_add_le (aheadOf_ids_nodup row db') nodup ?_ taken
    intro id ahead
    by_cases before : id ∈ (aheadOf row db).map Job.id
    · exact .inl ⟨before, gone id ahead⟩
    · obtain ⟨other, member, rfl⟩ := List.mem_map.mp ahead
      refine .inr ⟨List.mem_map_of_mem ?_, before⟩
      exact List.mem_filter.mpr ⟨member, by simpa using before⟩
  simpa using bound

/-- A pending job stays as it is until it is claimed. -/
theorem claimed_or_kept (committed : op.commit now db = (answer, db'))
    (queued : getJob db row.id = some row) (pending : row.status = .pending) :
    Call.eventFor ⟨op, now, answer⟩ row.id = some .claimed ∨ getJob db' row.id = some row := by
  by_cases claimed : Call.eventFor ⟨op, now, answer⟩ row.id = some .claimed
  · exact .inl claimed
  · have kept := (commit_op committed row.id).keeps_pending queued pending claimed
    exact .inr ((congrArg Slice.row kept).trans queued)

/-- A claim that passes over a job that it could take is full of jobs ahead of it. -/
theorem full_of_ahead {workerId : String} {batchSize : Nat} {leaseSeconds : Time}
    {newToken : JobId → ClaimToken} {choices : Choices} {jobs : List Job}
    (returned : claimDueJobs now workerId batchSize leaseSeconds newToken choices db = (jobs, db'))
    (queued : getJob db row.id = some row) (pending : row.status = .pending) (due : row.runAt ≤ now)
    (unlocked : choices.locked row.id = false) (unclaimed : row.id ∉ jobs.map Job.id) :
    jobs.length = batchSize ∧ ∀ id ∈ jobs.map Job.id, id ∈ (aheadOf row db).map Job.id := by
  obtain ⟨rest, takes⟩ := dueJobs_takes now batchSize choices db
  have ids := claimed_ids returned
  have inItems : row ∈ claimable now choices db :=
    mem_claimable.mpr ⟨Table.mem_of_lookup queued, pending, due, unlocked⟩
  have left : row ∈ rest := by
    cases List.mem_append.mp (takes.perm.mem_iff.mpr inItems) with
    | inl taken => exact absurd (ids.mem_iff.mpr (List.mem_map_of_mem taken)) unclaimed
    | inr left => exact left
  obtain ⟨full, before⟩ := takes.full_of_left left
  constructor
  · rw [← full]
    simpa using ids.length_eq
  · intro id claimed
    obtain ⟨first, taken, rfl⟩ := List.mem_map.mp (ids.mem_iff.mp claimed)
    have isDue := mem_claimable.mp (takes.perm.mem_iff.mp (List.mem_append_left rest taken))
    apply List.mem_map_of_mem
    exact mem_aheadOf.mpr ⟨Table.lookup_of_mem isDue.1, isDue.2.1, before first taken⟩

/-- A claimed job is pending no more. -/
theorem not_ahead_of_claimed {workerId : String} {batchSize : Nat} {leaseSeconds : Time}
    {newToken : JobId → ClaimToken} {choices : Choices} {jobs : List Job}
    (returned : claimDueJobs now workerId batchSize leaseSeconds newToken choices db = (jobs, db'))
    {id : JobId} (ahead : id ∈ (aheadOf row db').map Job.id) : id ∉ jobs.map Job.id := by
  intro claimed
  obtain ⟨job, member, rfl⟩ := List.mem_map.mp claimed
  obtain ⟨other, inQueue, same⟩ := List.mem_map.mp ahead
  obtain ⟨found, pending, _⟩ := mem_aheadOf.mp inQueue
  have inOrder := claimsInOrder returned
  have stored := inOrder.stored job member
  rw [← same, found] at stored
  cases stored
  obtain ⟨_, _, _, _, _, claims⟩ := inOrder.wereDue job member
  rw [← claims] at pending
  cases pending

/-- A call that does not claim the job: a batch that passed it over came out of the queue. -/
theorem room_of_call (committed : op.commit now db = (answer, db'))
    (queued : getJob db row.id = some row) (pending : row.status = .pending)
    (kept : getJob db' row.id = some row) :
    (aheadOf row db').length + Call.roomFor ⟨op, now, answer⟩ row ≤
      (aheadOf row db).length + (overtakers row ⟨db, ⟨op, now, answer⟩, db'⟩).length := by
  by_cases room : Call.roomFor ⟨op, now, answer⟩ row = 0
  · rw [room]
    exact ahead_after_batch List.nodup_nil (by simp) (by simp)
  · cases op with
    | claimDueJobs workerId batchSize leaseSeconds newToken choices =>
      cases returned : claimDueJobs now workerId batchSize leaseSeconds newToken choices db with
      | mk jobs tables =>
        rw [commit_claimDueJobs, returned] at committed
        cases committed
        have could : row.runAt ≤ now ∧ choices.locked row.id = false := by
          by_contra could
          exact room (if_neg could)
        have queuedStill : row.id ∈ (aheadOf row tables).map Job.id :=
          List.mem_map_of_mem (mem_aheadOf.mpr ⟨kept, pending, .inr ⟨rfl, le_rfl⟩⟩)
        obtain ⟨full, ahead⟩ := full_of_ahead returned queued pending could.1 could.2
          (not_ahead_of_claimed returned queuedStill)
        have bound : (aheadOf row tables).length + (jobs.map Job.id).length ≤ (aheadOf row db).length +
            (overtakers row ⟨db, ⟨.claimDueJobs workerId batchSize leaseSeconds newToken choices, now,
              .claimed jobs⟩, tables⟩).length :=
          ahead_after_batch (claimsInOrder returned).distinct ahead
            fun id inQueue => not_ahead_of_claimed returned inQueue
        rw [List.length_map, full] at bound
        simpa [Call.roomFor, could] using bound
    | _ => exact absurd rfl room

/-- A pending job waits in the queue of those ahead of it. -/
theorem waitsForClaim (pending : row.status = .pending) :
    InLine jobSystem (fun _ => True) (fun db => getJob db row.id = some row)
      (fun taken => taken.label.eventFor row.id = some .claimed)
      (fun db => (aheadOf row db).length) (fun taken => taken.label.roomFor row)
      (fun taken => (overtakers row taken).length) := by
  constructor
  rintro db ⟨op, now, answer⟩ db' queued committed -
  have committed : op.commit now db = (answer, db') := committed
  cases claimed_or_kept committed queued pending with
  | inl claimed => exact .inl claimed
  | inr kept => exact .inr ⟨kept, room_of_call committed queued pending kept⟩

end

/-- A pending job is claimed once the claims that could take it had room for the jobs ahead of
    it, counting those that got ahead of it meanwhile; whatever else is called in between. -/
theorem overtaking_bounded {since : JobHistory} {start final : Db}
    (run : Run (jobSystem.startingAt start) since final) {row : Job}
    (queued : getJob start row.id = some row) (pending : row.status = .pending)
    (enough : (aheadOf row start).length + total (fun taken => (overtakers row taken).length) since ≤
      total (fun taken => taken.label.roomFor row) since) :
    ∃ taken ∈ since, taken.label.eventFor row.id = some .claimed := by
  have inQueue : ∀ db : Db, getJob db row.id = some row → 0 < (aheadOf row db).length := by
    intro db found
    exact List.length_pos_of_mem (mem_aheadOf.mpr ⟨found, pending, .inr ⟨rfl, le_rfl⟩⟩)
  have anything : Along (fun _ _ => True) since := Along.of_forall fun _ _ => trivial
  exact (waitsForClaim pending).ended run anything queued inQueue enough

/-- Job 1 comes after the two others, and a fourth one of high priority overtakes it. -/
def lastInLine : JobHistory × Db := makeCalls ([], threeDue)
  [(.claimDueJobs "worker-1" 1 10 (fun _ => 70) .alone, 5),
    (.createJob 4 { sampleJob 3 with priority := .high }, 6),
    (.claimDueJobs "worker-2" 2 10 (fun j => j + 80) .alone, 7),
    (.claimDueJobs "worker-1" 1 10 (fun _ => 90) .alone, 8)]

theorem overtaking_bounded_lastInLine :
    ∃ row, getJob threeDue 1 = some row ∧
      ∃ taken ∈ lastInLine.1, taken.label.eventFor row.id = some .claimed := by
  have queued : ∃ row, getJob threeDue 1 = some row ∧ row.status = .pending ∧
      (aheadOf row threeDue).length +
          total (fun taken => (overtakers row taken).length) lastInLine.1 ≤
        total (fun taken => taken.label.roomFor row) lastInLine.1 := by decide +kernel
  obtain ⟨row, found, pending, enough⟩ := queued
  have named : row.id = 1 := Table.pk_of_lookup found
  have nothing : Run (jobSystem.startingAt threeDue) [] threeDue := .start rfl
  refine ⟨row, found, ?_⟩
  rw [← named] at found
  exact overtaking_bounded (run_makeCalls nothing _) found pending enough

end NotifyQueue
