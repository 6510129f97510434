import NotifyQueue.Verified.SliceSteps

/-! # When a job may be claimed

`run_at` is written by five updates.  What a claim has to wait for is read off the history
instead: the time that the request asked for (`NewJob.asksFor`), the backoff of the last failure
and the delay of the last deferral (`dueTimes`).  On a clock that never goes back every one of them has
passed, or is still ahead in the `run_at` of a pending row (`Awaits`), whichever of the
updates came last. -/

namespace NotifyQueue

open Runs

/-- What happened to a job in one call. -/
structure Entry where
  op : JobOp
  now : Time
  event : JobEvent

def Call.entryFor (call : Call) (j : JobId) : Option Entry :=
  (call.eventFor j).map fun event => ⟨call.op, call.now, event⟩

/-- The calls that moved a job, newest first. -/
def jobLog (j : JobId) (history : JobHistory) : List Entry :=
  history.filterMap fun taken => taken.label.entryFor j

/-- What a request created at a time asks for: to be sent at `send_at`, `delay_seconds` after the
    creation, or at once. -/
def NewJob.asksFor (new : NewJob) (created : Time) : Time :=
  match new.sendAt, new.delaySeconds with
  | some sendAt, _ => sendAt
  | none, some delaySeconds => created + delaySeconds
  | none, none => created

/-- The requested time of the job. -/
@[simp] def requestedAt : List Entry → Option Time
  | [] => none
  | ⟨.createJob _ new, now, .created _⟩ :: _ => some (new.asksFor now)
  | _ :: log => requestedAt log

/-- The end of the backoff, when the last attempt that counted failed and left the job pending. -/
@[simp] def backoffUntil : List Entry → Option Time
  | [] => none
  | ⟨.markFailed _ _ _ _ retryDelay _ _ _, now, .ended _ .pending⟩ :: _ => some (now + retryDelay)
  | ⟨_, _, .ended _ _⟩ :: _ => none
  | _ :: log => backoffUntil log

/-- The end of the delay, when the last claim was given back. -/
@[simp] def deferredUntil : List Entry → Option Time
  | [] => none
  | ⟨.returnToQueue _ _ delaySeconds, now, .returned⟩ :: _ => some (now + delaySeconds)
  | ⟨_, _, .requeued _⟩ :: log => deferredUntil log
  | _ :: _ => none

/-- What the next claim of the job has to wait for. -/
def dueTimes (log : List Entry) : List Time :=
  (requestedAt log).toList ++ (backoffUntil log).toList ++ (deferredUntil log).toList

/-- `now()` never goes back. -/
def ClockForward (earlier : JobHistory) (taken : Taken Db Call) : Prop :=
  ∀ old ∈ earlier, old.label.now ≤ taken.label.now

instance (earlier : JobHistory) (taken : Taken Db Call) : Decidable (ClockForward earlier taken) :=
  inferInstanceAs (Decidable (∀ old ∈ earlier, _))

/-- A deferral does not bring a job forward. -/
def JobOp.defers : JobOp → Bool
  | .returnToQueue _ _ delaySeconds => 0 ≤ delaySeconds
  | _ => true

/-- A deferral, a lease expiry or a requeue. -/
def JobEvent.reschedules : JobEvent → Bool
  | .returned => true
  | .ended .leaseExpired _ => true
  | .requeued _ => true
  | _ => false

/-! ## What a step adds to the log -/

theorem jobLog_cons (j : JobId) (taken : Taken Db Call) (history : JobHistory) :
    jobLog j (taken :: history) = (taken.label.entryFor j).toList ++ jobLog j history := by
  cases entry : taken.label.entryFor j with
  | none => simp [jobLog, List.filterMap_cons_none, entry]
  | some e => simp [jobLog, List.filterMap_cons_some, entry]

@[simp] theorem mem_dueTimes {log : List Entry} {t : Time} :
    t ∈ dueTimes log ↔
      requestedAt log = some t ∨ backoffUntil log = some t ∨ deferredUntil log = some t := by
  simp [dueTimes]

/-- The times that are due after `log` have passed at `now`, or `row` is pending and waits for
    them; a job that does not exist waits for nothing. -/
structure Awaits (log : List Entry) (now : Time) (s : Slice) : Prop where
  absent : s.row = none → dueTimes log = []
  present : ∀ row, s.row = some row → ∀ t ∈ dueTimes log,
    t ≤ now ∨ row.status = .pending ∧ t ≤ row.runAt

/-- The step lemma: where the old due times have passed, only a new one is left to wait for. -/
theorem Awaits.of_passed {log log' : List Entry} {now : Time} {s : Slice} {row : Job}
    (passed : ∀ t ∈ dueTimes log, t ≤ now) (present : s.row = some row)
    (due : ∀ t ∈ dueTimes log', t ∈ dueTimes log ∨ row.status = .pending ∧ t = row.runAt) :
    Awaits log' now s := by
  constructor
  · intro absent
    rw [present] at absent
    cases absent
  · intro row' present' t member
    cases present.symm.trans present'
    cases due t member with
    | inl old => exact .inl (passed t old)
    | inr new => exact .inr ⟨new.1, new.2.le⟩

/-- What is due for a job that is not pending has passed. -/
theorem Awaits.passed {log : List Entry} {now : Time} {s : Slice} (awaits : Awaits log now s)
    {row : Job} (present : s.row = some row) (busy : row.status ≠ .pending) :
    ∀ t ∈ dueTimes log, t ≤ now := by
  intro t member
  cases awaits.present row present t member with
  | inl passed => exact passed
  | inr ahead => exact absurd ahead.1 busy

/-- A due job has waited for everything. -/
theorem Awaits.passed_of_due {log : List Entry} {now : Time} {s : Slice} (awaits : Awaits log now s)
    {row : Job} (present : s.row = some row) (due : isDue now row = true) :
    ∀ t ∈ dueTimes log, t ≤ now := by
  have due := isDue_iff.mp due
  intro t member
  cases awaits.present row present t member with
  | inl passed => exact passed
  | inr ahead => exact ahead.2.trans due.2

/-- Time passing keeps what has passed. -/
theorem Awaits.later {log : List Entry} {now now' : Time} {s : Slice} (awaits : Awaits log now s)
    (later : now ≤ now') : Awaits log now' s := by
  refine ⟨awaits.absent, ?_⟩
  intro row present t member
  cases awaits.present row present t member with
  | inl passed => exact .inl (passed.trans later)
  | inr ahead => exact .inr ahead

/-- The first `run_at` is the requested time. -/
theorem firstRunAt_eq (new : NewJob) (now : Time) : new.firstRunAt now = new.asksFor now := by
  unfold NewJob.firstRunAt NewJob.asksFor
  cases new.sendAt with
  | some sendAt => rfl
  | none =>
    cases new.delaySeconds with
    | some delaySeconds => rfl
    | none => exact add_zero now

theorem busy_of_fenced {j : JobId} {claimToken : ClaimToken} {row : Job}
    (owned : fenced j claimToken row = true) : row.status ≠ .pending := by
  rw [(fenced_iff.mp owned).2.2]
  decide

theorem OpStep.awaits {now : Time} {j : JobId} {s s' : Slice} {op : JobOp} {event : Option JobEvent}
    {log : List Entry} (awaits : Awaits log now s) (step : OpStep now j s op event s') :
    Awaits ((event.map (Entry.mk op now)).toList ++ log) now s' := by
  cases step with
  | idle => exact awaits
  | @created new absent cap =>
    have nothing := awaits.absent absent
    have unbacked : backoffUntil log = none := by
      simp only [dueTimes, List.append_eq_nil_iff, Option.toList_eq_nil_iff] at nothing
      exact nothing.1.2
    have passed : ∀ t ∈ dueTimes log, t ≤ now := by simp [nothing]
    refine .of_passed passed rfl ?_
    intro t member
    simp [unbacked] at member
    exact .inr ⟨rfl, member.symm.trans (firstRunAt_eq new now).symm⟩
  | claimed _ _ present due =>
    refine .of_passed (awaits.passed_of_due present due) rfl ?_
    intro t member
    simp at member ⊢
    tauto
  | sent present owned _ _ =>
    refine .of_passed (awaits.passed present (busy_of_fenced owned)) rfl ?_
    intro t member
    simp at member ⊢
    exact .inl (.inl member)
  | @failed row claimToken workerId error retryDelay permanent _ _ present owned _ _ =>
    refine .of_passed (awaits.passed present (busy_of_fenced owned)) rfl ?_
    intro t member
    -- the new due time is the backoff, which the row waits for when it is left pending
    have retry : (failedRow now error retryDelay permanent row).status = .pending →
        (failedRow now error retryDelay permanent row).runAt = now + retryDelay := by
      simp only [failedRow]
      split <;> simp
    generalize failedRow now error retryDelay permanent row = row' at retry member ⊢
    cases status : row'.status with
    | pending =>
      simp [status] at member
      rcases member with requested | backoff
      · exact .inl (mem_dueTimes.mpr (.inl requested))
      · exact .inr ⟨rfl, backoff.symm.trans (retry status).symm⟩
    | _ =>
      simp [status] at member
      exact .inl (mem_dueTimes.mpr (.inl member))
  | reaped _ _ present processing _ _ _ =>
    refine .of_passed (awaits.passed present (by simp [processing])) rfl ?_
    intro t member
    simp at member ⊢
    exact .inl (.inl member)
  | returned present owned =>
    refine .of_passed (awaits.passed present (busy_of_fenced owned)) rfl ?_
    intro t member
    simp at member
    rcases member with requested | backoff | deferred
    · exact .inl (mem_dueTimes.mpr (.inl requested))
    · exact .inl (mem_dueTimes.mpr (.inr (.inl backoff)))
    · exact .inr ⟨rfl, deferred.symm⟩
  | requeued present dead _ =>
    refine .of_passed (awaits.passed present (by simp [dead])) rfl ?_
    intro t member
    simp at member ⊢
    exact .inl member

/-- The invariant of every run: each call finds the job waiting for what is due. -/
theorem awaits_run {history : JobHistory} {db : Db} (run : Run jobSystem history db)
    (clock : Along ClockForward history) (j : JobId) {now : Time}
    (later : ∀ old ∈ history, old.label.now ≤ now) : Awaits (jobLog j history) now (db.slice j) := by
  induction run generalizing now with
  | start initial =>
    cases initial
    exact ⟨fun _ => rfl, by simp [jobLog, dueTimes]⟩
  | @next history db db' call earlier committed inductionHypothesis =>
    have before := inductionHypothesis clock.2 clock.1
    have after := (commit_op committed j).awaits before
    rw [jobLog_cons]
    exact after.later (later _ List.mem_cons_self)

/-- What a rescheduling step does to a job for which everything due has passed. -/
theorem OpStep.rescheduled {now : Time} {j : JobId} {s s' : Slice} {op : JobOp} {event : JobEvent}
    {log : List Entry} (awaits : Awaits log now s) (step : OpStep now j s op (some event) s')
    (reschedules : event.reschedules = true) (defers : op.defers = true) :
    ∃ row', s'.row = some row' ∧ ∀ t ∈ dueTimes log, t ≤ row'.runAt := by
  cases step with
  | created _ _ => cases reschedules
  | claimed _ _ _ _ => cases reschedules
  | sent _ _ _ _ => cases reschedules
  | failed _ _ _ _ => cases reschedules
  | reaped _ _ present processing _ _ _ =>
    exact ⟨_, rfl, awaits.passed present (by simp [processing])⟩
  | @returned row claimToken delaySeconds present owned =>
    refine ⟨_, rfl, ?_⟩
    intro t member
    have passed := awaits.passed present (busy_of_fenced owned) t member
    have positive : 0 ≤ delaySeconds := of_decide_eq_true defers
    exact passed.trans (le_add_of_nonneg_right positive)
  | requeued present dead _ => exact ⟨_, rfl, awaits.passed present (by simp [dead])⟩

/-- A claimed job was requested, and everything due for it has passed. -/
theorem OpStep.claimed_late {now : Time} {j : JobId} {s s' : Slice} {op : JobOp} {log : List Entry}
    (awaits : Awaits log now s) (step : OpStep now j s op (some .claimed) s') :
    s.row ≠ none ∧ ∀ t ∈ dueTimes log, t ≤ now := by
  cases step with
  | claimed _ _ present due => exact ⟨by simp [present], awaits.passed_of_due present due⟩

/-! ## Requests -/

/-- A job that exists was requested. -/
theorem OpStep.requested {now : Time} {j : JobId} {s s' : Slice} {op : JobOp}
    {event : Option JobEvent} {log : List Entry} (step : OpStep now j s op event s')
    (requested : s.row ≠ none → requestedAt log ≠ none) (known : s'.row ≠ none) :
    requestedAt ((event.map (Entry.mk op now)).toList ++ log) ≠ none := by
  cases step with
  | idle => exact requested known
  | created absent cap => simp
  | claimed _ _ present _ => simpa using requested (by simp [present])
  | sent present _ _ _ => simpa using requested (by simp [present])
  | failed present _ _ _ => simpa using requested (by simp [present])
  | reaped _ _ present _ _ _ _ => simpa using requested (by simp [present])
  | returned present _ => simpa using requested (by simp [present])
  | requeued present _ _ => simpa using requested (by simp [present])

theorem requested_run {history : JobHistory} {db : Db} (run : Run jobSystem history db) (j : JobId)
    (known : (db.slice j).row ≠ none) : requestedAt (jobLog j history) ≠ none := by
  induction run with
  | start initial =>
    cases initial
    exact absurd rfl known
  | @next history db db' call earlier committed inductionHypothesis =>
    rw [jobLog_cons]
    exact (commit_op committed j).requested inductionHypothesis known

/-! ## Every run -/

/-- What the step says about a job after the calls before it: a claim comes after everything
    that was due, and a deferral, a lease expiry or a requeue moves nothing that was due. -/
structure OnTime (j : JobId) (earlier : JobHistory) (taken : Taken Db Call) : Prop where
  requested : taken.label.eventFor j = some .claimed →
    ∃ t, requestedAt (jobLog j earlier) = some t ∧ t ≤ taken.label.now
  backedOff : taken.label.eventFor j = some .claimed →
    ∀ t, backoffUntil (jobLog j earlier) = some t → t ≤ taken.label.now
  deferred : taken.label.eventFor j = some .claimed →
    ∀ t, deferredUntil (jobLog j earlier) = some t → t ≤ taken.label.now
  rescheduled : ∀ event row', taken.label.eventFor j = some event → event.reschedules = true →
    taken.label.op.defers = true → getJob taken.after j = some row' →
    (∀ t, requestedAt (jobLog j earlier) = some t → t ≤ row'.runAt) ∧
      ∀ t, backoffUntil (jobLog j earlier) = some t → t ≤ row'.runAt

theorem onTime_of_step {earlier : JobHistory} {db db' : Db} {call : Call}
    (run : Run jobSystem earlier db) (clock : Along ClockForward (⟨db, call, db'⟩ :: earlier))
    (committed : call.op.commit call.now db = (call.answer, db')) (j : JobId) :
    OnTime j earlier ⟨db, call, db'⟩ := by
  have awaits := awaits_run run clock.2 j clock.1
  have claimed : call.eventFor j = some .claimed →
      (db.slice j).row ≠ none ∧ ∀ t ∈ dueTimes (jobLog j earlier), t ≤ call.now := by
    intro happened
    have step := commit_op committed j
    rw [show Call.eventFor ⟨call.op, call.now, call.answer⟩ j = some .claimed from happened] at step
    exact step.claimed_late awaits
  constructor
  · intro happened
    obtain ⟨known, passed⟩ := claimed happened
    obtain ⟨t, requested⟩ := Option.ne_none_iff_exists'.mp (requested_run run j known)
    exact ⟨t, requested, passed t (mem_dueTimes.mpr (.inl requested))⟩
  · intro happened t backoff
    exact (claimed happened).2 t (mem_dueTimes.mpr (.inr (.inl backoff)))
  · intro happened t deferred
    exact (claimed happened).2 t (mem_dueTimes.mpr (.inr (.inr deferred)))
  · intro event row' happened reschedules defers found
    have step := commit_op committed j
    rw [show Call.eventFor ⟨call.op, call.now, call.answer⟩ j = some event from happened] at step
    obtain ⟨row, present, late⟩ := step.rescheduled awaits reschedules defers
    cases present.symm.trans found
    exact ⟨fun t requested => late t (mem_dueTimes.mpr (.inl requested)),
      fun t backoff => late t (mem_dueTimes.mpr (.inr (.inl backoff)))⟩

/-- No job is ever claimed early. -/
theorem never_early {history : JobHistory} {db : Db} (run : Run jobSystem history db)
    (clock : Along ClockForward history) (j : JobId) : Along (OnTime j) history := by
  induction run with
  | start _ => exact trivial
  | next earlier committed inductionHypothesis =>
    exact ⟨onTime_of_step earlier clock committed j, inductionHypothesis clock.2⟩

/-- Job 1 is to be sent at 4 and job 2 in six seconds, and no claim takes them before; then they
    fail, are deferred and lose their leases. -/
def scheduledJobs : List (JobOp × Time) :=
  [(.createJob 1 { sampleJob 3 with sendAt := some 4 }, 0),
    (.createJob 2 { sampleJob 3 with delaySeconds := some 6 }, 0),
    (.claimDueJobs "worker-1" 5 10 (fun _ => 69) .alone, 3),
    (.claimDueJobs "worker-1" 5 10 (fun _ => 70) .alone, 4),
    (.markFailed 1 70 "worker-1" "provider down" 4 false "" 900, 5),
    (.claimDueJobs "worker-1" 5 10 (fun _ => 71) .alone, 6),
    (.returnToQueue 2 71 3, 7),
    (.claimDueJobs "worker-2" 5 10 (fun j => j + 80) .alone, 10),
    (.reapExpiredLeases 5 "" (fun j => j + 900) .alone, 21)]

theorem never_early_scheduled :
    requestedAt (jobLog 1 (jobRun scheduledJobs).1) = some 4 ∧
      requestedAt (jobLog 2 (jobRun scheduledJobs).1) = some 6 ∧
      (∀ j ∈ [1, 2], (jobLog j (jobRun scheduledJobs).1).length = 5) ∧
      ∀ j ∈ [1, 2], Along (OnTime j) (jobRun scheduledJobs).1 := by
  refine ⟨by decide +kernel, by decide +kernel, by decide +kernel, ?_⟩
  intro j _
  have clock : Along ClockForward (jobRun scheduledJobs).1 := by decide +kernel
  exact never_early (run_jobRun scheduledJobs) clock j

end NotifyQueue
