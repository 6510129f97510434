import NotifyQueue.Verified.ClaimFencing
import NotifyQueue.Verified.Conflicts
import NotifyQueue.Verified.Registrations

/-! # A job by itself

`commit_op` says that a call makes one of the steps of `OpStep` on every job.  Here is the
converse, for tables that hold one job only: a call whose guards hold makes its step
(`OpStep.commits`), so a run of a single job is known from the guards of its steps. -/

namespace NotifyQueue

open Runs Tables Aborts

/-- The tables hold nothing about any other job. -/
def Alone (j : JobId) (db : Db) : Prop := ∀ i, i ≠ j → db.slice i = ⟨none, none, none, [], []⟩

/-! ## Tables of one job -/

section

variable {j : JobId} {db : Db}

theorem Alone.id_eq (alone : Alone j db) {row : Job} (member : row ∈ db.jobs.rows) : row.id = j := by
  by_contra other
  have found : (db.slice row.id).row = some row := Table.lookup_of_mem member
  rw [alone row.id other] at found
  cases found

theorem Alone.rows (alone : Alone j db) {row : Job} (found : db.jobs.lookup j = some row) :
    db.jobs.rows = [row] := by
  have member := Table.mem_of_lookup found
  refine Table.eq_singleton db.jobs.rows_nodup member ?_
  intro other otherMember
  have named := (alone.id_eq otherMember).trans (alone.id_eq member).symm
  exact List.inj_on_of_nodup_map db.jobs.pk_nodup otherMember member named

theorem Alone.mem_events (alone : Alone j db) {eventId : EventId} (drawn : Drawn db eventId) :
    eventId ∈ (db.slice j).events.map OutboxRow.id := by
  obtain ⟨event, found⟩ := Option.ne_none_iff_exists'.mp drawn
  have ⟨member, named⟩ := Table.lookup_eq_some.mp found
  have inSlice : event ∈ (db.slice event.jobId).events := by simp [Db.slice, Table.select, member]
  by_cases same : event.jobId = j
  · rw [same] at inSlice
    exact List.mem_map.mpr ⟨event, inSlice, named⟩
  · rw [alone event.jobId same] at inSlice
    cases inSlice

/-- A call that does not create another job leaves the job alone. -/
theorem Alone.commit (alone : Alone j db) {op : JobOp} {now : Time} {answer : Answer} {db' : Db}
    (committed : op.commit now db = (answer, db')) (own : ∀ i new, op = .createJob i new → i = j) :
    Alone j db' := by
  intro i other
  have step := commit_op committed i
  rw [alone i other] at step
  generalize Call.eventFor ⟨op, now, answer⟩ i = event at step
  generalize db'.slice i = s' at step ⊢
  cases step with
  | idle => rfl
  | created _ _ => exact absurd (own _ _ rfl) other
  | claimed _ _ present _ => cases present
  | sent present _ _ _ => cases present
  | failed present _ _ _ => cases present
  | reaped _ _ present _ _ _ _ => cases present
  | returned present _ => cases present
  | requeued present _ _ => cases present

end

/-! ## The step of a call is unique -/

theorem OpStep.det {now : Time} {j : JobId} {s s₁ s₂ : Slice} {op : JobOp} {e₁ e₂ : JobEvent}
    (first : OpStep now j s op (some e₁) s₁) (second : OpStep now j s op (some e₂) s₂) :
    e₁ = e₂ ∧ s₁ = s₂ := by
  cases first with
  | created _ _ =>
    cases second with
    | created _ _ => exact ⟨rfl, rfl⟩
  | claimed _ _ present _ =>
    cases second with
    | claimed _ _ present' _ =>
      cases present.symm.trans present'
      exact ⟨rfl, rfl⟩
  | sent present _ _ _ =>
    cases second with
    | sent present' _ _ _ =>
      cases present.symm.trans present'
      exact ⟨rfl, rfl⟩
  | failed present _ _ _ =>
    cases second with
    | failed present' _ _ _ =>
      cases present.symm.trans present'
      exact ⟨rfl, rfl⟩
  | reaped _ _ present _ _ _ _ =>
    cases second with
    | reaped _ _ present' _ _ _ _ =>
      cases present.symm.trans present'
      exact ⟨rfl, rfl⟩
  | returned present _ =>
    cases second with
    | returned present' _ =>
      cases present.symm.trans present'
      exact ⟨rfl, rfl⟩
  | requeued present _ _ =>
    cases second with
    | requeued present' _ _ =>
      cases present.symm.trans present'
      exact ⟨rfl, rfl⟩

/-! ## A call whose guards hold -/

section

variable {now : Time} {j : JobId} {db : Db}

/-- The claim of a due job that is by itself takes it. -/
theorem Alone.claims (alone : Alone j db) {row : Job} {batchSize : Nat} {choices : Choices}
    (room : 1 ≤ batchSize) (unlocked : choices.locked j = false) (found : db.jobs.lookup j = some row)
    (due : isDue now row = true) (workerId : String) (leaseSeconds : Time)
    (newToken : JobId → ClaimToken) :
    ∃ job ∈ (claimDueJobs now workerId batchSize leaseSeconds newToken choices db).1, job.id = j := by
  have named := Table.pk_of_lookup found
  -- the one due job is within any batch that has room
  have only : dueJobs now batchSize choices db = [row] := by
    simp [dueJobs, Table.select, alone.rows found, due, named, unlocked, room]
  refine ⟨claimedRow now workerId leaseSeconds newToken row, ?_, named⟩
  exact mem_claimDueJobs.mpr ⟨row, by simp [only], rfl⟩

/-- The reaper does not fail on a job by itself, and takes it. -/
theorem Alone.reaps (alone : Alone j db) {row : Job} {limit : Nat} {defaultCallbackUrl : String}
    {newEvent : JobId → EventId} {choices : Choices} (room : 1 ≤ limit)
    (unlocked : choices.locked j = false) (found : db.jobs.lookup j = some row)
    (processing : row.status = .processing) (expired : leaseExpired now row = true)
    (undrawn : ¬ Drawn db (newEvent j)) (fresh : (db.slice j).FreshAttempt row.attempts)
    (unburied : (db.slice j).deadLetter = none) :
    ∃ db', reapExpiredLeases now limit defaultCallbackUrl newEvent choices db =
      .ok ([transition (reapedRow now row)], db') := by
  have named := Table.pk_of_lookup found
  subst named
  have only : expiredJobs now limit choices db = [row] := by
    simp [expiredJobs, Table.select, alone.rows found, processing, expired, unlocked, room]
  have member : row ∈ expiredJobs now limit choices db := by simp [only]
  have updated := slice_of_selected (reapedRow_keeps now)
    (fun row member => (mem_expiredJobs member).1) member
  have rows : choices.returned.arrange (db.jobs.select (selected [row])) = [row] := by
    simp [Table.select, alone.rows found, selected]
  rw [only] at updated
  cases recorded : recordReaped now defaultCallbackUrl newEvent
      (db.updateJobs (selected [row]) (reapedRow now) (reapedRow_keeps now)) row with
  | error abort =>
    -- its round fails on a drawn event id only
    exact absurd (recordReaped_error (by rw [updated]; exact unburied) (by rw [updated]; exact fresh)
      recorded).2 undrawn
  | ok db' =>
    refine ⟨db', ?_⟩
    simp only [reapExpiredLeases, only, rows, List.foldlM_cons, List.foldlM_nil, recorded]
    rfl

/-- A finalizing call that presents the job's token ends its claim, unless it is rolled back. -/
theorem finalizes {op : JobOp} {token : ClaimToken} {row : Job}
    (presented : op.presents = some (j, token))
    (found : db.jobs.lookup j = some row) (owned : fenced j token row = true)
    (unaborted : ∀ abort, (op.commit now db).1 ≠ .raised abort) :
    ∃ event, Call.eventFor ⟨op, now, (op.commit now db).1⟩ j = some event := by
  cases committed : op.commit now db with
  | mk answer db' =>
    rw [committed] at unaborted
    cases finalized_of_presents presented committed with
    | fencedOut unfenced =>
      rw [unfenced row (Table.mem_of_lookup found)] at owned
      contradiction
    | rolledBack abort _ _ => exact absurd rfl (unaborted abort)
    | moved _ _ named =>
      obtain ⟨event, _, happened⟩ := eventFor_of_presents presented now _ j
      exact ⟨event, by rw [happened, if_pos named]⟩

/-- The events of a job after a step that adds one: its id was not drawn before. -/
theorem Alone.undrawn (alone : Alone j db) {event : OutboxRow}
    (nodup : (((db.slice j).events ++ [event]).map OutboxRow.id).Nodup) : ¬ Drawn db event.id := by
  intro drawn
  rw [List.map_append, List.nodup_append] at nodup
  exact nodup.2.2 event.id (alone.mem_events drawn) event.id (by simp) rfl

theorem nodup_events (db : Db) (j : JobId) : ((db.slice j).events.map OutboxRow.id).Nodup :=
  db.webhookOutbox.pk_nodup.sublist (List.filter_sublist.map OutboxRow.id)

/-- An event with an id that was not drawn may be added. -/
theorem nodup_events_append (j : JobId) {event : OutboxRow} (undrawn : ¬ Drawn db event.id) :
    (((db.slice j).events ++ [event]).map OutboxRow.id).Nodup := by
  have absent : db.webhookOutbox.lookup event.id = none := not_not.mp undrawn
  rw [List.map_append, List.nodup_append]
  refine ⟨nodup_events db j, List.nodup_singleton _, ?_⟩
  intro id member id' last same
  obtain ⟨other, inSlice, rfl⟩ := List.mem_map.mp member
  rw [List.map_singleton, List.mem_singleton] at last
  exact Table.lookup_eq_none.mp absent other (List.mem_filter.mp inSlice).1 (same.trans last)

/-- A call whose guards hold makes its step. -/
theorem OpStep.commits {op : JobOp} {event : JobEvent} {s' : Slice} (alone : Alone j db)
    (coherent : ∀ i, Coherent (db.slice i)) (step : OpStep now j (db.slice j) op (some event) s')
    (nodup : (s'.events.map OutboxRow.id).Nodup) :
    Call.eventFor ⟨op, now, (op.commit now db).1⟩ j = some event ∧
      (op.commit now db).2.slice j = s' := by
  have happens : ∃ event', Call.eventFor ⟨op, now, (op.commit now db).1⟩ j = some event' := by
    cases step with
    | @created new absent cap =>
      have inserted := insertJob_cases now j new db
      generalize insertJob now j new db = result at inserted
      cases inserted with
      | created _ _ committed _ _ =>
        rw [committed]
        simp [Call.eventFor, NewJob.row]
      | taken _ registered =>
        obtain ⟨row, found, _⟩ := registered
        -- the key could be taken by the job itself only, and it is absent
        have same := alone.id_eq (Table.mem_of_lookup found)
        have named := Table.pk_of_lookup found
        rw [← named, same] at found
        rw [show (db.slice j).row = some row from found] at absent
        cases absent
      | tooFew few => omega
      | repeated found =>
        rw [show (db.slice j).row = some _ from found] at absent
        cases absent
    | @claimed row workerId batchSize leaseSeconds newToken choices room unlocked present due =>
      have claims := alone.claims room unlocked present due workerId leaseSeconds newToken
      rw [commit_claimDueJobs]
      exact ⟨.claimed, by simpa [Call.eventFor] using claims⟩
    | @sent row claimToken workerId providerMessageId defaultCallbackUrl eventId present owned _ _ =>
      refine finalizes rfl present owned ?_
      intro abort raised
      rw [commit_markSent] at raised
      split at raised
      · cases raised
      · next aborted =>
        exact alone.undrawn nodup (markSent_error coherent aborted).2
    | @failed row claimToken workerId error retryDelay permanent url eventId present owned _ _ =>
      refine finalizes rfl present owned ?_
      intro abort raised
      rw [commit_markFailed] at raised
      split at raised
      · cases raised
      · next aborted =>
        have undrawn := alone.undrawn nodup
        split at undrawn <;> exact undrawn (markFailed_error coherent aborted).2
    | @reaped row limit url newEvent choices room unlocked present processing expired fresh unburied =>
      have undrawn : ¬ Drawn db (newEvent j) := by
        have undrawn := alone.undrawn nodup
        split at undrawn <;> exact undrawn
      obtain ⟨_, noLetter, _⟩ := (coherent j).ready present processing
      obtain ⟨db', reaped⟩ := alone.reaps room unlocked present processing expired undrawn fresh noLetter
      rw [commit_reapExpiredLeases, reaped]
      simp [Call.eventFor, finishedEvent, transition, reapedRow, Table.pk_of_lookup present]
    | returned present owned =>
      refine finalizes rfl present owned ?_
      intro abort raised
      rw [commit_returnToQueue] at raised
      cases raised
    | @requeued row extraAttempts present dead cap =>
      have named := Table.pk_of_lookup present
      have rows : db.jobs.returning (isDeadLettered j) (requeuedRow now extraAttempts) =
          [requeuedRow now extraAttempts row] := by
        simp [Table.returning, alone.rows present, isDeadLettered, named, dead]
      rw [commit_requeueDeadLetter]
      simp [requeueDeadLetter, rows, Call.eventFor, finishedEvent, transition, requeuedRow, named,
        not_lt.mpr cap]
  obtain ⟨event', happened⟩ := happens
  -- the call makes some step that adds an event, and there is only one such step
  have taken : OpStep now j (db.slice j) op (Call.eventFor ⟨op, now, (op.commit now db).1⟩ j)
      ((op.commit now db).2.slice j) := commit_op rfl j
  rw [happened] at taken
  obtain ⟨rfl, same⟩ := taken.det step
  exact ⟨happened, same⟩

end

end NotifyQueue
