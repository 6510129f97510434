import NotifyQueue.Verified.LifecycleTraces
import NotifyQueue.Verified.Outbox
import NotifyQueue.Verified.TornReads

/-! # The claims of a job, counted

The machine of `LifecycleTraces` keeps accounts: every claim that was handed out was given back,
was ended by one recorded attempt, or is still open; every burial but the one that still holds was
undone by a requeue; and the attempts stay within what the creation and the requeues granted, no
matter how often the job was deferred.  `Balanced.step` is the step of these accounts, and the
tables inherit them through `lifecycle_of_run`. -/

namespace NotifyQueue

open Runs Tables

@[simp] def JobEvent.isCreation : JobEvent → Bool
  | .created _ => true
  | _ => false

@[simp] def JobEvent.isBurial : JobEvent → Bool
  | .ended _ .deadLettered => true
  | _ => false

/-- The tries that an event grants.  A requeue that is not refused leaves room for one claim, even
    with `extra_attempts` below one. -/
@[simp] def JobEvent.grants : JobEvent → Int
  | .created cap => cap
  | .requeued extraAttempts => max extraAttempts 1
  | _ => 0

def granted (events : List JobEvent) : Int := (events.map JobEvent.grants).sum

@[simp] theorem granted_nil : granted [] = 0 := rfl

@[simp] theorem granted_cons (event : JobEvent) (events : List JobEvent) :
    granted (event :: events) = event.grants + granted events := by
  simp [granted]

/-! ## The accounts of a job -/

structure Balanced (events : List JobEvent) (progress : Progress) : Prop where
  created : events.countP JobEvent.isCreation = 1
  claims : events.count .claimed = events.count .returned + events.countP JobEvent.isEnd +
    if progress.status = .processing then 1 else 0
  attempts : progress.attempts = events.countP JobEvent.isEnd +
    if progress.status = .processing then 1 else 0
  burials : events.countP JobEvent.isBurial = events.countP JobEvent.isRequeue +
    if progress.status = .deadLettered then 1 else 0
  sends : events.count (.ended .sent .sent) = if progress.status = .sent then 1 else 0
  cap : progress.maxAttempts ≤ granted events
  within : progress.attempts ≤ granted events
  room : progress.status = .pending → progress.attempts < granted events

theorem Balanced.create {cap : Int} (positive : 1 ≤ cap) :
    Balanced [.created cap] ⟨.pending, 0, cap⟩ := by
  constructor <;> simp [JobEvent.isEnd, JobEvent.isRequeue] <;> omega

theorem Balanced.step {events : List JobEvent} {before after : Progress} {event : JobEvent}
    (balanced : Balanced events before)
    (move : Progress.Move (some before) event (some after)) : Balanced (event :: events) after := by
  obtain ⟨created, claims, attempts, burials, sends, cap, within, room⟩ := balanced
  constructor
  case created => cases move <;> simpa using created
  case claims => cases move <;> simp [List.countP_cons, JobEvent.isEnd] at claims ⊢ <;> omega
  case attempts => cases move <;> simp [List.countP_cons, JobEvent.isEnd] at attempts ⊢ <;> omega
  case burials =>
    cases move <;> simp [List.countP_cons, JobEvent.isRequeue] at burials ⊢ <;> omega
  case sends => cases move <;> simp at sends ⊢ <;> omega
  case cap => cases move <;> simp at cap within ⊢ <;> omega
  case within => cases move <;> simp at within room ⊢ <;> omega
  case room => cases move <;> simp at cap within room ⊢ <;> omega

/-- A job that was not created has no events; any other has its accounts in order. -/
theorem balanced_of_path {path : History (Option Progress) JobEvent} {reached : Option Progress}
    (run : Run lifecycle path reached) :
    (reached = none → path = []) ∧
      ∀ progress, reached = some progress → Balanced (path.map Taken.label) progress := by
  induction run with
  | start initial =>
    cases initial
    exact ⟨fun _ => rfl, fun _ same => by cases same⟩
  | @next path before after event _ move inductionHypothesis =>
    obtain ⟨nothing, earlier⟩ := inductionHypothesis
    cases before with
    | none =>
      obtain rfl := nothing rfl
      cases move with
      | create positive =>
        refine ⟨(fun same => by cases same), ?_⟩
        rintro _ ⟨⟩
        exact .create positive
    | some progress =>
      have balanced := earlier progress rfl
      constructor
      · rintro rfl
        cases move
      · rintro _ rfl
        exact balanced.step move

theorem balanced_of_run {history : JobHistory} {db : Db} (run : Run jobSystem history db)
    {j : JobId} {row : Job} (present : getJob db j = some row) :
    Balanced (jobEvents j history) row.progress := by
  obtain ⟨path, reaches, labels⟩ := lifecycle_of_run run j
  rw [← labels]
  refine (balanced_of_path reaches).2 row.progress ?_
  exact congrArg (Option.map Job.progress) present

/-! ## The accounts and the tables -/

/-- A job gets one more attempt row by every end of a claim, and by nothing else. -/
theorem SliceStep.attempts_length {now : Time} {j : JobId} {s s' : Slice} {event : Option JobEvent}
    (step : SliceStep now j s event s') :
    s'.attempts.length = event.toList.countP JobEvent.isEnd + s.attempts.length := by
  cases step <;> simp [Slice.finishSent, Slice.finishFailed, JobEvent.isEnd, Nat.add_comm]

theorem attempts_length {history : JobHistory} {db : Db} (run : Run jobSystem history db)
    (j : JobId) : (db.slice j).attempts.length = (jobEvents j history).countP JobEvent.isEnd := by
  induction run with
  | start initial =>
    cases initial
    rfl
  | next _ committed inductionHypothesis =>
    rw [(commit_slice committed j).attempts_length, inductionHypothesis, jobEvents_cons,
      List.countP_append]

theorem recorded_attempts {history : JobHistory} {db : Db} (run : Run jobSystem history db)
    (j : JobId) : db.jobAttempts.rows.countP (fun attempt => attempt.jobId = j) =
      (jobEvents j history).countP JobEvent.isEnd := by
  rw [← attempts_length run j, List.countP_eq_length_filter]
  rfl

/-- In every run, each claim of a job was given back, was ended by one recorded attempt, or is the
    one that is open now; each burial but a current one was undone by a requeue; and the job was
    created once and sent at most once. -/
theorem claims_accounted {history : JobHistory} {db : Db} (run : Run jobSystem history db)
    {j : JobId} {row : Job} (present : getJob db j = some row) :
    let events := jobEvents j history
    let recorded := db.jobAttempts.rows.countP fun attempt => attempt.jobId = j
    events.countP JobEvent.isCreation = 1 ∧
      events.count .claimed = events.count .returned + recorded +
        (if row.status = .processing then 1 else 0) ∧
      row.attempts = recorded + (if row.status = .processing then 1 else 0) ∧
      events.countP JobEvent.isBurial = events.countP JobEvent.isRequeue +
        (if row.status = .deadLettered then 1 else 0) ∧
      events.count (.ended .sent .sent) = if row.status = .sent then 1 else 0 := by
  intro events recorded
  have balanced := balanced_of_run run present
  have counted : recorded = events.countP JobEvent.isEnd := recorded_attempts run j
  rw [counted]
  exact ⟨balanced.created, balanced.claims, balanced.attempts, balanced.burials, balanced.sends⟩

theorem claims_accounted_requeued :
    (jobEvents 1 (jobRun requeuedJob).1).countP JobEvent.isBurial =
      (jobEvents 1 (jobRun requeuedJob).1).countP JobEvent.isRequeue + 1 := by
  obtain ⟨row, found, dead⟩ : ∃ row, getJob (jobRun requeuedJob).2 1 = some row ∧
      row.status = .deadLettered := by
    decide +kernel
  have accounts := claims_accounted (run_jobRun requeuedJob) found
  rw [accounts.2.2.2.1, if_pos dead]

/-- However often a job is claimed, deferred, reaped and requeued, its attempts stay within what its
    creation and its requeues granted, and a job that waits has one left. -/
theorem tries_bounded {history : JobHistory} {db : Db} (run : Run jobSystem history db)
    {j : JobId} {row : Job} (present : getJob db j = some row) :
    row.attempts ≤ granted (jobEvents j history) ∧
      (db.jobAttempts.rows.countP (fun attempt => attempt.jobId = j) : Int) ≤
        granted (jobEvents j history) ∧
      (row.status = .pending → row.attempts < granted (jobEvents j history)) := by
  have balanced := balanced_of_run run present
  have attempts : row.attempts = _ := balanced.attempts
  refine ⟨balanced.within, ?_, balanced.room⟩
  -- the attempt that is still open is not recorded
  calc (db.jobAttempts.rows.countP (fun attempt => attempt.jobId = j) : Int)
      = (jobEvents j history).countP JobEvent.isEnd := by rw [recorded_attempts run j]
    _ ≤ row.attempts := by split at attempts <;> omega
    _ ≤ granted (jobEvents j history) := balanced.within

theorem tries_bounded_requeued :
    granted (jobEvents 1 (jobRun requeuedJob).1) = 4 ∧
      ∃ row, getJob (jobRun requeuedJob).2 1 = some row ∧ row.attempts ≤ 4 := by
  have grants : granted (jobEvents 1 (jobRun requeuedJob).1) = 4 := by decide +kernel
  have created : (getJob (jobRun requeuedJob).2 1).isSome = true := by decide +kernel
  obtain ⟨row, found⟩ := Option.isSome_iff_exists.mp created
  have bounded := tries_bounded (run_jobRun requeuedJob) found
  exact ⟨grants, row, found, grants ▸ bounded.1⟩

end NotifyQueue
