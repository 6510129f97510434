import NotifyQueue.Verified.DueTimes
import NotifyQueue.Verified.SoloRuns

/-! # Deferrals leave no trace

`dropDeferrals` removes from the log of a job every claim that was given back, together with
its return.  The calls that are left, made on the job by itself, take the same steps
(`Mirrored`): their tables differ from the real ones only in the columns that a deferral
writes, and a job that is due there is due here.

A claim that is still open may be given back later, so the simulation keeps the mirror of what
the job was before it (`GivesBack`). -/

namespace NotifyQueue

open Runs Tables

/-- The log without the claims that were given back. -/
def dropDeferrals : List Entry → List Entry
  | ⟨_, _, .returned⟩ :: ⟨_, _, .claimed⟩ :: log => dropDeferrals log
  | entry :: log => entry :: dropDeferrals log
  | [] => []

/-- The calls of a log, oldest first. -/
def callsOf (log : List Entry) : List (JobOp × Time) :=
  (log.map fun entry => (entry.op, entry.now)).reverse

/-- The row without `version`, `run_at`, `claimed_at` and `updated_at`. -/
def Job.lasting (row : Job) : Job :=
  { row with version := 0, runAt := 0, claimedAt := none, updatedAt := 0 }

/-! ## Rows and slices that differ by deferrals -/

/-- `row'` is `row` up to deferrals, and is due no later. -/
structure RowAlike (now : Time) (row row' : Job) : Prop where
  lasting : row'.lasting = row.lasting
  started : row.status = .processing → row'.claimedAt = row.claimedAt
  due : row.status = .pending → row'.runAt ≤ row.runAt ∨ row'.runAt ≤ now

structure SliceAlike (now : Time) (s s' : Slice) : Prop where
  absent : s.row = none → s'.row = none
  present : ∀ row, s.row = some row → ∃ row', s'.row = some row' ∧ RowAlike now row row'
  delivery : s'.delivery = s.delivery
  deadLetter : s'.deadLetter = s.deadLetter
  attempts : s'.attempts = s.attempts
  events : s'.events = s.events

section

variable {now : Time}

/-- The other row is the same one with four columns written. -/
theorem RowAlike.written {row row' : Job} (alike : RowAlike now row row') :
    ∃ version runAt claimedAt updatedAt,
      row' = { row with
        version := version, runAt := runAt, claimedAt := claimedAt, updatedAt := updatedAt } := by
  have same := alike.lasting
  cases row
  cases row'
  simp only [Job.lasting, Job.mk.injEq] at same ⊢
  simp [same]

/-- What the guards of the operations read of a row that is not pending. -/
theorem RowAlike.reads {row row' : Job} (alike : RowAlike now row row') :
    row'.status = row.status ∧ row'.attempts = row.attempts ∧ row'.lockedBy = row.lockedBy ∧
      row'.callbackUrl = row.callbackUrl ∧ leaseExpired now row' = leaseExpired now row ∧
      ∀ j claimToken, fenced j claimToken row' = fenced j claimToken row := by
  obtain ⟨version, runAt, claimedAt, updatedAt, same⟩ := alike.written
  subst same
  exact ⟨rfl, rfl, rfl, rfl, rfl, fun _ _ => rfl⟩

/-- Rows that are not pending need not be due. -/
theorem RowAlike.of_busy {row row' : Job} (lasting : row'.lasting = row.lasting)
    (started : row.status = .processing → row'.claimedAt = row.claimedAt)
    (busy : row.status ≠ .pending) : RowAlike now row row' :=
  ⟨lasting, started, fun pending => absurd pending busy⟩

theorem RowAlike.of_runAt {row row' : Job} (lasting : row'.lasting = row.lasting)
    (idle : row.status ≠ .processing) (runAt : row.status = .pending → row'.runAt = row.runAt) :
    RowAlike now row row' :=
  ⟨lasting, fun processing => absurd processing idle, fun pending => .inl (runAt pending).le⟩

/-- A failure of alike rows leaves alike rows, which wait equally long. -/
theorem RowAlike.failed {row row' : Job} (alike : RowAlike now row row') (error : String)
    (retryDelay : Time) (permanent : Bool) :
    RowAlike now (failedRow now error retryDelay permanent row)
        (failedRow now error retryDelay permanent row') ∧
      (failedRow now error retryDelay permanent row').status =
        (failedRow now error retryDelay permanent row).status ∧
      ((failedRow now error retryDelay permanent row).status = .pending →
        (failedRow now error retryDelay permanent row').runAt =
          (failedRow now error retryDelay permanent row).runAt) := by
  obtain ⟨version, runAt, claimedAt, updatedAt, same⟩ := alike.written
  subst same
  have waits : (failedRow now error retryDelay permanent row).status = .pending →
      (failedRow now error retryDelay permanent
        { row with
          version := version, runAt := runAt, claimedAt := claimedAt, updatedAt := updatedAt }).runAt =
        (failedRow now error retryDelay permanent row).runAt := by
    simp only [failedRow]
    split <;> simp
  exact ⟨.of_runAt rfl failedRow_status_ne waits, rfl, waits⟩

theorem RowAlike.reaped {row row' : Job} (alike : RowAlike now row row') :
    RowAlike now (reapedRow now row) (reapedRow now row') ∧
      (reapedRow now row').status = (reapedRow now row).status := by
  obtain ⟨version, runAt, claimedAt, updatedAt, same⟩ := alike.written
  subst same
  exact ⟨.of_runAt rfl reapedRow_status_ne fun _ => rfl, rfl⟩

theorem RowAlike.requeued {row row' : Job} (alike : RowAlike now row row') (extraAttempts : Int) :
    RowAlike now (requeuedRow now extraAttempts row) (requeuedRow now extraAttempts row') := by
  obtain ⟨version, runAt, claimedAt, updatedAt, same⟩ := alike.written
  subst same
  exact .of_runAt rfl (by simp [requeuedRow]) fun _ => rfl

theorem RowAlike.later {now' : Time} {row row' : Job} (alike : RowAlike now row row')
    (later : now ≤ now') : RowAlike now' row row' :=
  { alike with due := fun pending => (alike.due pending).imp id fun passed => passed.trans later }

theorem SliceAlike.later {now' : Time} {s s' : Slice} (alike : SliceAlike now s s')
    (later : now ≤ now') : SliceAlike now' s s' := by
  refine { alike with present := ?_ }
  intro row present
  obtain ⟨row', present', rows⟩ := alike.present row present
  exact ⟨row', present', rows.later later⟩

/-- Writing alike rows into alike slices. -/
theorem SliceAlike.write {s s' : Slice} (alike : SliceAlike now s s') {row row' : Job}
    (rows : RowAlike now row row') :
    SliceAlike now { s with row := some row } { s' with row := some row' } where
  absent := by simp
  present := by
    rintro _ ⟨⟩
    exact ⟨row', rfl, rows⟩
  delivery := alike.delivery
  deadLetter := alike.deadLetter
  attempts := alike.attempts
  events := alike.events

theorem SliceAlike.fresh {s s' : Slice} (alike : SliceAlike now s s') {n : Int}
    (fresh : s.FreshAttempt n) : s'.FreshAttempt n := by
  rw [Slice.FreshAttempt, alike.attempts]
  exact fresh

/-- A failure of alike rows records the same attempt and the same event. -/
theorem SliceAlike.finishFailed {s s' : Slice} (alike : SliceAlike now s s') {row row' : Job}
    (rows : RowAlike now row row') (runAt : row.status = .pending → row'.runAt = row.runAt)
    (status : row.status = .pending ∨ row.status = .deadLettered) (workerId : Option String)
    (outcome : AttemptOutcome) (error reason url : String) (eventId : EventId)
    (startedAt : Option Time) :
    SliceAlike now (s.finishFailed now row workerId outcome error reason url eventId startedAt)
      (s'.finishFailed now row' workerId outcome error reason url eventId startedAt) := by
  obtain ⟨version, runAt', claimedAt, updatedAt, same⟩ := rows.written
  have payload : (if row'.status = .deadLettered then deadLetteredPayload eventId row' error reason
      else retryingPayload eventId row' error) =
      if row.status = .deadLettered then deadLetteredPayload eventId row error reason
      else retryingPayload eventId row error := by
    cases status with
    | inl pending =>
      have same' := runAt pending
      subst same
      simp only [pending, reduceCtorEq, if_false, retryingPayload]
      rw [← same']
    | inr dead =>
      subst same
      simp [dead, deadLetteredPayload]
  constructor
  · simp [Slice.finishFailed]
  · rintro _ ⟨⟩
    exact ⟨row', rfl, rows⟩
  · exact alike.delivery
  · subst same
    simp [Slice.finishFailed, alike.deadLetter]
  · subst same
    simp [Slice.finishFailed, alike.attempts]
  · simp only [Slice.finishFailed, payload, alike.events]

end

/-! ## Every step but a return is mirrored -/

theorem OpStep.alike {now : Time} {j : JobId} {s s' t : Slice} {op : JobOp} {event : JobEvent}
    (alike : SliceAlike now s t) (step : OpStep now j s op (some event) s')
    (kept : event ≠ .returned) :
    ∃ t', OpStep now j t op (some event) t' ∧ SliceAlike now s' t' := by
  cases step with
  | returned _ _ => exact absurd rfl kept
  | created absent cap =>
    refine ⟨_, .created (alike.absent absent) cap, alike.write ?_⟩
    exact ⟨rfl, fun _ => rfl, fun _ => .inl le_rfl⟩
  | @claimed row _ _ _ _ _ room unlocked present due =>
    obtain ⟨row', present', rows⟩ := alike.present row present
    obtain ⟨version, runAt, claimedAt, updatedAt, same⟩ := rows.written
    have due := isDue_iff.mp due
    have due' : isDue now row' = true := by
      have passed : row'.runAt ≤ now := by
        cases rows.due due.1 with
        | inl earlier => exact earlier.trans due.2
        | inr passed => exact passed
      have pending : row'.status = .pending := by
        rw [same]
        exact due.1
      exact isDue_iff.mpr ⟨pending, passed⟩
    refine ⟨_, .claimed room unlocked present' due', alike.write ?_⟩
    subst same
    exact .of_busy rfl (fun _ => rfl) (by simp [claimedRow])
  | @sent row _ _ _ _ _ present owned undelivered fresh =>
    obtain ⟨row', present', rows⟩ := alike.present row present
    obtain ⟨version, runAt, claimedAt, updatedAt, same⟩ := rows.written
    -- the copy runs the same attempt, so it writes the same number
    have started := rows.started (fenced_iff.mp owned).2.2
    subst same
    refine ⟨_, .sent present' owned (alike.delivery.trans undelivered) (alike.fresh fresh), ?_⟩
    have rows' : RowAlike now (sentRow now row) (sentRow now
        { row with
          version := version, runAt := runAt, claimedAt := claimedAt, updatedAt := updatedAt }) :=
      .of_busy rfl (fun _ => started) (by simp [sentRow])
    constructor
    · simp [Slice.finishSent]
    · rintro _ ⟨⟩
      exact ⟨_, rfl, rows'⟩
    · rfl
    · exact alike.deadLetter
    · simp only [Slice.finishSent, alike.attempts, sentRow] at started ⊢
      rw [started]
    · simp [Slice.finishSent, alike.events, sentRow, sentPayload]
  | @failed row claimToken workerId error retryDelay permanent url eventId present owned fresh
      unburied =>
    obtain ⟨row', present', rows⟩ := alike.present row present
    have started := rows.started (fenced_iff.mp owned).2.2
    obtain ⟨_, attempts, _, callbackUrl, _, fences⟩ := rows.reads
    obtain ⟨rows', status, waits⟩ := rows.failed error retryDelay permanent
    rw [← alike.deadLetter, ← status] at unburied
    rw [← fences] at owned
    have fresh' := alike.fresh fresh
    rw [← attempts] at fresh'
    have step : OpStep now j t (.markFailed j claimToken workerId error retryDelay permanent url eventId)
      _ _ := .failed present' owned fresh' unburied
    rw [started, callbackUrl, status] at step
    refine ⟨_, step, ?_⟩
    exact alike.finishFailed rows' waits (failedRow_status error retryDelay permanent) _ _ _ _ _ _ _
  | @reaped row limit url newEvent choices room unlocked present processing expired fresh unburied =>
    obtain ⟨row', present', rows⟩ := alike.present row present
    have started := rows.started processing
    obtain ⟨status, attempts, lockedBy, callbackUrl, expires, _⟩ := rows.reads
    obtain ⟨rows', status'⟩ := rows.reaped
    rw [← alike.deadLetter, ← status'] at unburied
    rw [← expires] at expired
    have fresh' := alike.fresh fresh
    rw [← attempts] at fresh'
    have step : OpStep now j t (.reapExpiredLeases limit url newEvent choices) _ _ :=
      .reaped room unlocked present' (status.trans processing) expired fresh' unburied
    rw [started, callbackUrl, lockedBy, status'] at step
    refine ⟨_, step, ?_⟩
    exact alike.finishFailed rows' (fun _ => rfl) reapedRow_status _ _ _ _ _ _ _
  | @requeued row extraAttempts present dead cap =>
    obtain ⟨row', present', rows⟩ := alike.present row present
    have rows' := rows.requeued extraAttempts
    obtain ⟨status, attempts, _⟩ := rows.reads
    rw [← attempts] at cap
    refine ⟨_, .requeued present' (status.trans dead) cap, ?_⟩
    exact { alike.write rows' with deadLetter := rfl }

/-! ## The run of the calls that are left -/

/-- The calls of `kept`, made on the job by itself, take the steps that `kept` says and leave
    tables that differ from the slice `s` by deferrals. -/
structure Mirrored (j : JobId) (now : Time) (kept : List Entry) (s : Slice) : Prop where
  log : jobLog j (jobRun (callsOf kept)).1 = kept
  alone : Alone j (jobRun (callsOf kept)).2
  alike : SliceAlike now s ((jobRun (callsOf kept)).2.slice j)

theorem Mirrored.later {j : JobId} {now now' : Time} {kept : List Entry} {s : Slice}
    (mirrored : Mirrored j now kept s) (later : now ≤ now') : Mirrored j now' kept s :=
  { mirrored with alike := mirrored.alike.later later }

theorem jobRun_callsOf_cons (entry : Entry) (kept : List Entry) :
    jobRun (callsOf (entry :: kept)) =
      (⟨(jobRun (callsOf kept)).2,
          ⟨entry.op, entry.now, (entry.op.commit entry.now (jobRun (callsOf kept)).2).1⟩,
          (entry.op.commit entry.now (jobRun (callsOf kept)).2).2⟩ :: (jobRun (callsOf kept)).1,
        (entry.op.commit entry.now (jobRun (callsOf kept)).2).2) := by
  have calls : callsOf (entry :: kept) = callsOf kept ++ [(entry.op, entry.now)] := by simp [callsOf]
  rw [calls]
  exact makeCalls_append _ _ _ _

/-- The step lemma of the simulation. -/
theorem Mirrored.step {j : JobId} {now : Time} {kept : List Entry} {s s' : Slice} {op : JobOp}
    {event : JobEvent} (mirrored : Mirrored j now kept s) (step : OpStep now j s op (some event) s')
    (unreturned : event ≠ .returned) (nodup : (s'.events.map OutboxRow.id).Nodup) :
    Mirrored j now (⟨op, now, event⟩ :: kept) s' := by
  obtain ⟨t', step', alike⟩ := step.alike mirrored.alike unreturned
  rw [← alike.events] at nodup
  obtain ⟨happened, same⟩ := step'.commits mirrored.alone (coherent_slice (run_jobRun _)) nodup
  have own : ∀ i new, op = .createJob i new → i = j := by
    rintro i new rfl
    cases step with
    | created _ _ => rfl
  have runs := jobRun_callsOf_cons ⟨op, now, event⟩ kept
  constructor
  · rw [runs, jobLog_cons, Call.entryFor, happened, mirrored.log]
    rfl
  · rw [runs]
    exact mirrored.alone.commit rfl own
  · rw [runs, same]
    exact alike

/-- The job is held by the claim on top of the log, and what it was before is mirrored. -/
inductive GivesBack (j : JobId) (now : Time) : List Entry → Slice → Prop where
  | claimed {op : JobOp} {began : Time} {rest : List Entry} {s : Slice} {row : Job} {workerId : String}
      {leaseSeconds : Time} {newToken : JobId → ClaimToken}
      (mirrored : Mirrored j now (dropDeferrals rest) s)
      (present : s.row = some row) (due : isDue now row = true) (columns : ClaimColumns row) :
      GivesBack j now (⟨op, began, .claimed⟩ :: rest)
        { s with row := some (claimedRow began workerId leaseSeconds newToken row) }

theorem isDue_later {now now' : Time} {row : Job} (due : isDue now row = true) (later : now ≤ now') :
    isDue now' row = true := by
  have due := isDue_iff.mp due
  exact isDue_iff.mpr ⟨due.1, due.2.trans later⟩

theorem GivesBack.later {j : JobId} {now now' : Time} {log : List Entry} {s : Slice}
    (givesBack : GivesBack j now log s) (later : now ≤ now') : GivesBack j now' log s := by
  cases givesBack with
  | claimed mirrored present due columns =>
    exact .claimed (mirrored.later later) present (isDue_later due later) columns

/-- A claim that is given back leaves the job as it was before, up to deferrals. -/
theorem GivesBack.returned {j : JobId} {now delaySeconds : Time} {log : List Entry} {s : Slice}
    {row : Job} (givesBack : GivesBack j now log s) (present : s.row = some row) (op : JobOp) :
    Mirrored j now (dropDeferrals (⟨op, now, .returned⟩ :: log))
      { s with row := some (returnedRow now delaySeconds row) } := by
  cases givesBack with
  | @claimed _ _ _ s₀ row₀ workerId leaseSeconds newToken mirrored before due columns =>
    cases present
    obtain ⟨pending, passed⟩ := isDue_iff.mp due
    obtain ⟨noToken, unlocked, noLease⟩ := columns.clear (by simp [pending])
    have alike := mirrored.alike
    refine { mirrored with alike := ⟨by simp, ?_, alike.delivery, alike.deadLetter, alike.attempts,
      alike.events⟩ }
    rintro _ ⟨⟩
    obtain ⟨row', present', rows⟩ := alike.present row₀ before
    have due : row'.runAt ≤ now := by
      cases rows.due pending with
      | inl earlier => exact earlier.trans passed
      | inr passed => exact passed
    refine ⟨row', present', ?_, by simp [returnedRow], fun _ => .inr due⟩
    rw [rows.lasting]
    simp [Job.lasting, returnedRow, claimedRow, pending, noToken, unlocked, noLease]

/-- The invariant of every run. -/
structure Deferrable (j : JobId) (now : Time) (log : List Entry) (s : Slice) : Prop where
  mirrored : Mirrored j now (dropDeferrals log) s
  givesBack : ∀ row, s.row = some row → row.status = .processing → GivesBack j now log s
  unreturned : ∀ entry ∈ dropDeferrals log, entry.event ≠ .returned

theorem Deferrable.later {j : JobId} {now now' : Time} {log : List Entry} {s : Slice}
    (deferrable : Deferrable j now log s) (later : now ≤ now') : Deferrable j now' log s where
  mirrored := deferrable.mirrored.later later
  givesBack row present processing := (deferrable.givesBack row present processing).later later
  unreturned := deferrable.unreturned

theorem dropDeferrals_cons {entry : Entry} (unreturned : entry.event ≠ .returned) (log : List Entry) :
    dropDeferrals (entry :: log) = entry :: dropDeferrals log := by
  obtain ⟨op, now, event⟩ := entry
  cases event <;> simp_all [dropDeferrals]

/-- A step that is kept. -/
theorem Deferrable.kept {j : JobId} {now : Time} {log : List Entry} {s s' : Slice} {op : JobOp}
    {event : JobEvent} (deferrable : Deferrable j now log s) (step : OpStep now j s op (some event) s')
    (unreturned : event ≠ .returned) (nodup : (s'.events.map OutboxRow.id).Nodup)
    (givesBack : ∀ row, s'.row = some row → row.status = .processing →
      GivesBack j now (⟨op, now, event⟩ :: log) s') :
    Deferrable j now (⟨op, now, event⟩ :: log) s' := by
  have drops : dropDeferrals (⟨op, now, event⟩ :: log) = ⟨op, now, event⟩ :: dropDeferrals log :=
    dropDeferrals_cons unreturned log
  refine ⟨?_, givesBack, ?_⟩
  · rw [drops]
    exact deferrable.mirrored.step step unreturned nodup
  · rw [drops]
    intro entry member
    cases member with
    | head => exact unreturned
    | tail _ member => exact deferrable.unreturned entry member

/-- Every step keeps the invariant: a return takes its claim out of the log again. -/
theorem Deferrable.step {j : JobId} {now : Time} {log : List Entry} {s s' : Slice} {op : JobOp}
    {event : Option JobEvent} (deferrable : Deferrable j now log s) (coherent : Coherent s)
    (step : OpStep now j s op event s')
    (nodup : (s'.events.map OutboxRow.id).Nodup) :
    Deferrable j now ((event.map (Entry.mk op now)).toList ++ log) s' := by
  have whole := step
  cases step with
  | idle => exact deferrable
  | claimed _ _ present due =>
    refine deferrable.kept whole (by simp) nodup ?_
    intro _ _ _
    exact .claimed deferrable.mirrored present due (coherent.present _ present).toClaimColumns
  | @returned row claimToken delaySeconds present owned =>
    -- the log of the claim that is given back ends with that claim
    have givesBack := deferrable.givesBack row present (fenced_iff.mp owned).2.2
    refine ⟨givesBack.returned present _, ?_, ?_⟩
    · rintro _ ⟨⟩ processing
      cases processing
    · intro entry member
      cases givesBack with
      | claimed _ _ _ _ =>
        exact deferrable.unreturned entry (List.mem_cons_of_mem _ member)
  | created _ _ =>
    refine deferrable.kept whole (by simp) nodup ?_
    rintro _ ⟨⟩ processing
    cases processing
  | sent _ _ _ _ =>
    refine deferrable.kept whole (by simp) nodup ?_
    rintro _ ⟨⟩ processing
    cases processing
  | failed _ _ _ _ =>
    refine deferrable.kept whole (by simp) nodup ?_
    rintro _ ⟨⟩ processing
    exact absurd processing failedRow_status_ne
  | reaped _ _ _ _ _ _ _ =>
    refine deferrable.kept whole (by simp) nodup ?_
    rintro _ ⟨⟩ processing
    exact absurd processing reapedRow_status_ne
  | requeued _ _ _ =>
    refine deferrable.kept whole (by simp) nodup ?_
    rintro _ ⟨⟩ processing
    cases processing

theorem deferrable_run {history : JobHistory} {db : Db} (run : Run jobSystem history db)
    (clock : Along ClockForward history) (j : JobId) {now : Time}
    (later : ∀ old ∈ history, old.label.now ≤ now) :
    Deferrable j now (jobLog j history) (db.slice j) := by
  induction run generalizing now with
  | start initial =>
    cases initial
    have nothing : SliceAlike now (Db.empty.slice j) (Db.empty.slice j) :=
      ⟨by simp, by simp, rfl, rfl, rfl, rfl⟩
    exact ⟨⟨rfl, fun i _ => Db.slice_empty i, nothing⟩, by simp, by simp [jobLog, dropDeferrals]⟩
  | @next history db db' call earlier committed inductionHypothesis =>
    have before := inductionHypothesis clock.2 clock.1
    have after := before.step (coherent_slice earlier j) (commit_op committed j) (nodup_events db' j)
    rw [jobLog_cons]
    exact after.later (later _ List.mem_cons_self)

/-! ## Two runs -/

/-- A moment after a whole history. -/
theorem exists_now (history : JobHistory) : ∃ now, ∀ old ∈ history, old.label.now ≤ now := by
  induction history with
  | nil => exact ⟨0, by simp⟩
  | cons last earlier inductionHypothesis =>
    obtain ⟨now, later⟩ := inductionHypothesis
    refine ⟨max last.label.now now, List.forall_mem_cons.mpr ⟨le_max_left _ _, ?_⟩⟩
    exact fun old member => (later old member).trans (le_max_right _ _)

/-- A claim takes a due row. -/
theorem OpStep.due_of_claimed {now : Time} {j : JobId} {s s' : Slice} {op : JobOp}
    (step : OpStep now j s op (some .claimed) s') : ∃ row, s.row = some row ∧ isDue now row = true := by
  cases step with
  | claimed _ _ present due => exact ⟨_, present, due⟩

theorem due_of_claimed {history : JobHistory} {db : Db} (run : Run jobSystem history db) {j : JobId}
    {taken : Taken Db Call} (member : taken ∈ history)
    (claimed : taken.label.eventFor j = some .claimed) :
    ∃ row, getJob taken.before j = some row ∧ isDue taken.label.now row = true := by
  obtain ⟨db₁, ⟨op, now, answer⟩, db₂⟩ := taken
  have committed := (run.of_mem member).2
  have step := commit_op committed j
  rw [show Call.eventFor ⟨op, now, answer⟩ j = some .claimed from claimed] at step
  exact step.due_of_claimed

theorem SliceAlike.row {now : Time} {s s' : Slice} (alike : SliceAlike now s s') :
    s'.row.map Job.lasting = s.row.map Job.lasting := by
  cases present : s.row with
  | none => rw [alike.absent present]
  | some row =>
    obtain ⟨row', present', rows⟩ := alike.present row present
    rw [present', Option.map_some, Option.map_some, rows.lasting]

/-- Without its deferrals a job takes the same steps, and ends with the same row, up to
    `version` and three times, and with the same delivery, dead letter, attempts and events. -/
theorem deferral_transparent {history : JobHistory} {db : Db} (run : Run jobSystem history db)
    (clock : Along ClockForward history) (j : JobId) :
    let kept := dropDeferrals (jobLog j history)
    let replayed := jobRun (callsOf kept)
    (∀ entry ∈ kept, entry.event ≠ .returned) ∧
      Run jobSystem replayed.1 replayed.2 ∧ jobLog j replayed.1 = kept ∧
      (∀ taken ∈ replayed.1, taken.label.eventFor j = some .claimed →
        ∃ row, getJob taken.before j = some row ∧ isDue taken.label.now row = true) ∧
      (getJob replayed.2 j).map Job.lasting = (getJob db j).map Job.lasting ∧
      (replayed.2.slice j).delivery = (db.slice j).delivery ∧
      (replayed.2.slice j).deadLetter = (db.slice j).deadLetter ∧
      (replayed.2.slice j).attempts = (db.slice j).attempts ∧
      (replayed.2.slice j).events = (db.slice j).events := by
  intro kept replayed
  obtain ⟨now, later⟩ := exists_now history
  have deferrable := deferrable_run run clock j later
  have alike := deferrable.mirrored.alike
  have replays : Run jobSystem replayed.1 replayed.2 := run_jobRun _
  exact ⟨deferrable.unreturned, replays, deferrable.mirrored.log, fun taken => due_of_claimed replays,
    alike.row, alike.delivery, alike.deadLetter, alike.attempts, alike.events⟩

/-- The last attempt fails for good after a deferral: without it the dead letter is the same. -/
def deferredFailure : List (JobOp × Time) :=
  [(.createJob 1 (sampleJob 2), 0),
    (.claimDueJobs "worker-1" 5 10 (fun _ => 70) .alone, 1),
    (.markFailed 1 70 "worker-1" "provider down" 4 false "" 900, 2),
    (.claimDueJobs "worker-1" 5 10 (fun _ => 71) .alone, 6),
    (.returnToQueue 1 71 3, 7),
    (.claimDueJobs "worker-2" 5 10 (fun _ => 72) .alone, 10),
    (.reapExpiredLeases 5 "" (fun _ => 901) .alone, 21)]

theorem deferral_transparent_failure :
    (dropDeferrals (jobLog 1 (jobRun deferredFailure).1)).length = 5 ∧
      ((jobRun deferredFailure).2.slice 1).deadLetter.isSome = true ∧
      ((jobRun (callsOf (dropDeferrals (jobLog 1 (jobRun deferredFailure).1)))).2.slice 1).deadLetter =
        ((jobRun deferredFailure).2.slice 1).deadLetter := by
  refine ⟨by decide +kernel, by decide +kernel, ?_⟩
  exact (deferral_transparent (run_jobRun deferredFailure) (by decide +kernel) 1).2.2.2.2.2.2.1

end NotifyQueue
