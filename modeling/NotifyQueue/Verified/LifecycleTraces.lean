import NotifyQueue.Verified.Deferrals
import NotifyQueue.Verified.Lifecycle
import NotifyQueue.Verified.LoneCalls

/-! # The lifecycle of a job as a machine

`lifecycle` is what the queue is for, seen from one job: it waits, is worked on, and ends as
delivered or as a dead letter that may come back, with a number of tries and a cap on them.  It
knows nothing of tokens, leases, times or tables.

The tables implement exactly this machine.  What happens to a job in a run, whatever the other
jobs, workers and reapers do, is a path of it (`SliceStep.move`); and every path of it happens
in some run, even on a clock that never goes back (`Progress.Move.enabled`). -/

namespace NotifyQueue

open Runs Tables

/-! ## The machine -/

/-- Where a job is, and how many of its tries it has used. -/
structure Progress where
  status : JobStatus
  attempts : Int
  maxAttempts : Int
deriving DecidableEq, Repr

/-- The moves of a job; a job that was not created yet is `none`. -/
inductive Progress.Move : Option Progress → JobEvent → Option Progress → Prop where
  | create {cap : Int} (positive : 1 ≤ cap) : Move none (.created cap) (some ⟨.pending, 0, cap⟩)
  | claim {n cap : Int} :
      Move (some ⟨.pending, n, cap⟩) .claimed (some ⟨.processing, n + 1, cap⟩)
  | deliver {n cap : Int} :
      Move (some ⟨.processing, n, cap⟩) (.ended .sent .sent) (some ⟨.sent, n, cap⟩)
  | retry {n cap : Int} {outcome : AttemptOutcome} (unsent : outcome ≠ .sent) (room : n < cap) :
      Move (some ⟨.processing, n, cap⟩) (.ended outcome .pending) (some ⟨.pending, n, cap⟩)
  | giveUp {n cap : Int} {outcome : AttemptOutcome} (unsent : outcome ≠ .sent)
      (exhausted : cap ≤ n) :
      Move (some ⟨.processing, n, cap⟩) (.ended outcome .deadLettered)
        (some ⟨.deadLettered, n, cap⟩)
  | reject {n cap : Int} :
      Move (some ⟨.processing, n, cap⟩) (.ended .failed .deadLettered)
        (some ⟨.deadLettered, n, cap⟩)
  | giveBack {n cap : Int} :
      Move (some ⟨.processing, n, cap⟩) .returned (some ⟨.pending, n - 1, cap⟩)
  | requeue {n cap extraAttempts : Int} (room : 1 ≤ n + extraAttempts) :
      Move (some ⟨.deadLettered, n, cap⟩) (.requeued extraAttempts)
        (some ⟨.pending, n, n + extraAttempts⟩)

def lifecycle : System (Option Progress) JobEvent where
  init progress := progress = none
  step := Progress.Move

/-- The events lead a job through the lifecycle to `progress`, newest first. -/
def Lifecycle (events : List JobEvent) (progress : Option Progress) : Prop :=
  ∃ path, Run lifecycle path progress ∧ path.map Taken.label = events

/-! ## The job in the tables -/

def Job.progress (row : Job) : Progress := ⟨row.status, row.attempts, row.maxAttempts⟩

def Slice.progress (s : Slice) : Option Progress := s.row.map Job.progress

/-- What happened to a job, newest first. -/
def jobEvents (j : JobId) (history : JobHistory) : List JobEvent :=
  (jobLog j history).map Entry.event

theorem jobEvents_cons (j : JobId) (taken : Taken Db Call) (history : JobHistory) :
    jobEvents j (taken :: history) = (taken.label.eventFor j).toList ++ jobEvents j history := by
  rw [jobEvents, jobLog_cons, List.map_append]
  cases happened : taken.label.eventFor j <;> simp [Call.entryFor, happened, jobEvents]

section

variable {now : Time} {j : JobId} {s s' : Slice} {event : JobEvent} {row : Job}

theorem Slice.progress_of_row (present : s.row = some row) {status : JobStatus}
    (standing : row.status = status) :
    s.progress = some ⟨status, row.attempts, row.maxAttempts⟩ := by
  rw [Slice.progress, present, Option.map_some, Job.progress, standing]

/-- An attempt that failed is tried again while there is room, and only then. -/
theorem move_of_failed {outcome : AttemptOutcome} {row' : Job} (present : s.row = some row)
    (processing : row.status = .processing) (unsent : outcome ≠ .sent)
    (same : row'.attempts = row.attempts ∧ row'.maxAttempts = row.maxAttempts)
    (status : row'.status = .pending ∧ row.attempts < row.maxAttempts ∨
      row'.status = .deadLettered ∧ (row.maxAttempts ≤ row.attempts ∨ outcome = .failed))
    (present' : s'.row = some row') :
    Progress.Move s.progress (.ended outcome row'.status) s'.progress := by
  rw [Slice.progress_of_row present processing]
  rcases status with ⟨pending, room⟩ | ⟨dead, exhausted | rfl⟩
  · rw [Slice.progress_of_row present' pending, pending, same.1, same.2]
    exact .retry unsent room
  · rw [Slice.progress_of_row present' dead, dead, same.1, same.2]
    exact .giveUp unsent exhausted
  · rw [Slice.progress_of_row present' dead, dead, same.1, same.2]
    exact .reject

/-- Every step of a job in the tables is a move of the machine. -/
theorem SliceStep.move (step : SliceStep now j s (some event) s') :
    Progress.Move s.progress event s'.progress := by
  cases step with
  | @created new absent cap =>
    rw [Slice.progress, absent, Option.map_none]
    exact .create cap
  | claimed workerId leaseSeconds newToken present due =>
    rw [Slice.progress_of_row present (isDue_iff.mp due).1]
    exact .claim
  | sent claimToken workerId providerMessageId url eventId present owned _ _ =>
    rw [Slice.progress_of_row present (fenced_iff.mp owned).2.2]
    exact .deliver
  | @failed row claimToken workerId error retryDelay permanent url eventId present owned _ _ =>
    refine move_of_failed present (fenced_iff.mp owned).2.2 (by simp) ⟨rfl, rfl⟩ ?_ rfl
    by_cases dead : (failedRow now error retryDelay permanent row).status = .deadLettered
    · exact .inr ⟨dead, .inr rfl⟩
    · have pending := (failedRow_status error retryDelay permanent).resolve_right dead
      have goesOn : ¬ (permanent = true ∨ row.maxAttempts ≤ row.attempts) := by
        intro ends
        exact dead (failedRow_dead.mpr ends)
      exact .inl ⟨pending, not_le.mp fun full => goesOn (.inr full)⟩
  | @reaped row url eventId present processing _ _ _ =>
    refine move_of_failed present processing (by simp) ⟨rfl, rfl⟩ ?_ rfl
    by_cases dead : (reapedRow now row).status = .deadLettered
    · exact .inr ⟨dead, .inl (reapedRow_dead.mp dead)⟩
    · exact .inl ⟨reapedRow_status.resolve_right dead, not_le.mp (dead ∘ reapedRow_dead.mpr)⟩
  | returned claimToken delaySeconds present owned =>
    rw [Slice.progress_of_row present (fenced_iff.mp owned).2.2]
    exact .giveBack
  | requeued extraAttempts present dead cap =>
    rw [Slice.progress_of_row present dead]
    exact .requeue cap

end

/-- What happened to a job is a path of the machine, and the row is where it ends. -/
theorem lifecycle_of_run {history : JobHistory} {db : Db} (run : Run jobSystem history db)
    (j : JobId) : Lifecycle (jobEvents j history) (db.slice j).progress := by
  induction run with
  | start initial =>
    cases initial
    exact ⟨[], .start rfl, rfl⟩
  | @next history db db' call _ committed inductionHypothesis =>
    obtain ⟨path, reaches, labels⟩ := inductionHypothesis
    have step := commit_slice committed j
    rw [jobEvents_cons]
    cases happened : call.eventFor j with
    | none =>
      rw [happened] at step
      rw [step.idle_eq]
      exact ⟨path, reaches, labels⟩
    | some event =>
      rw [happened] at step
      exact ⟨_, .next reaches step.move, congrArg (event :: ·) labels⟩

/-! ## Every path happens -/

section

variable {j : JobId} {db : Db} {event : JobEvent}

/-- Some call about the job, at some time from `clock` on, makes `event` and leads to `progress`. -/
def Enabled (j : JobId) (db : Db) (clock : Time) (event : JobEvent) (progress : Option Progress) :
    Prop :=
  ∃ op now s', clock ≤ now ∧ op.Only j ∧ op.Undrawn db j ∧
    OpStep now j (db.slice j) op (some event) s' ∧ s'.progress = progress

theorem OpStep.enables {op : JobOp} {now clock : Time} {s' : Slice} {progress : Option Progress}
    (step : OpStep now j (db.slice j) op (some event) s') (forward : clock ≤ now)
    (only : op.Only j) (undrawn : op.Undrawn db j) (ends : s'.progress = progress) :
    Enabled j db clock event progress :=
  ⟨op, now, s', forward, only, undrawn, step, ends⟩

theorem Slice.row_of_progress {s : Slice} {status : JobStatus} {n cap : Int}
    (reached : s.progress = some ⟨status, n, cap⟩) :
    ∃ row, s.row = some row ∧ row.status = status ∧ row.attempts = n ∧ row.maxAttempts = cap := by
  obtain ⟨row, present, same⟩ := Option.map_eq_some_iff.mp reached
  cases same
  exact ⟨row, present, rfl, rfl, rfl⟩

/-- The worker that holds a claim can present its token. -/
theorem Coherent.fenced {s : Slice} {row : Job} (coherent : Coherent s) (present : s.row = some row)
    (named : row.id = j) (processing : row.status = .processing) :
    ∃ claimToken, fenced j claimToken row = true := by
  have held := (coherent.present row present).claimToken.mpr processing
  obtain ⟨claimToken, token⟩ := Option.isSome_iff_exists.mp held
  exact ⟨claimToken, fenced_iff.mpr ⟨named, token, processing⟩⟩

theorem exists_undrawn (db : Db) : ∃ eventId, ¬ Drawn db eventId := by
  obtain ⟨eventId, absent⟩ := Table.exists_fresh db.webhookOutbox
  exact ⟨eventId, fun drawn => drawn absent⟩

/-- `mark_failed` of the worker that holds the claim. -/
theorem enabled_failed (coherent : Coherent (db.slice j)) (clock : Time) {row : Job}
    (present : (db.slice j).row = some row) (processing : row.status = .processing)
    (permanent : Bool) {status : JobStatus}
    (ends : (failedRow clock "" 0 permanent row).status = status) :
    Enabled j db clock (.ended .failed status) (some ⟨status, row.attempts, row.maxAttempts⟩) := by
  obtain ⟨claimToken, owned⟩ := coherent.fenced present (Table.pk_of_lookup present) processing
  obtain ⟨_, noLetter, fresh⟩ := coherent.ready present processing
  obtain ⟨eventId, undrawn⟩ := exists_undrawn db
  subst ends
  have step : OpStep clock j (db.slice j) (.markFailed j claimToken "" "" 0 permanent "" eventId)
    (some _) _ := .failed present owned fresh fun _ => noLetter
  exact step.enables le_rfl rfl undrawn rfl

/-- The reaper, once the lease is over. -/
theorem enabled_reaped (coherent : Coherent (db.slice j)) (clock : Time) {row : Job}
    (present : (db.slice j).row = some row) (processing : row.status = .processing)
    {status : JobStatus} (ends : ∀ now, (reapedRow now row).status = status) :
    Enabled j db clock (.ended .leaseExpired status)
      (some ⟨status, row.attempts, row.maxAttempts⟩) := by
  have leased := (coherent.present row present).leaseExpiresAt.mpr processing
  obtain ⟨expiresAt, lease⟩ := Option.isSome_iff_exists.mp leased
  obtain ⟨_, noLetter, fresh⟩ := coherent.ready present processing
  obtain ⟨eventId, undrawn⟩ := exists_undrawn db
  have expired : leaseExpired (max clock (expiresAt + 1)) row = true := by
    simp [leaseExpired, lease]
  have step : OpStep (max clock (expiresAt + 1)) j (db.slice j)
      (.reapExpiredLeases 1 "" (fun _ => eventId) (.only j)) (some _) _ :=
    .reaped le_rfl (by simp [Choices.only]) present processing expired fresh fun _ => noLetter
  rw [ends] at step
  exact step.enables (le_max_left _ _) (by simp [JobOp.Only, Choices.only]) undrawn
    ((Slice.progress_of_row rfl (ends _)).trans rfl)

/-- A move of the machine is one that the tables can make. -/
theorem Progress.Move.enabled {progress : Option Progress}
    (move : Progress.Move (db.slice j).progress event progress)
    (coherent : Coherent (db.slice j)) (clock : Time) : Enabled j db clock event progress := by
  generalize reached : (db.slice j).progress = before at move
  cases move with
  | @create cap positive =>
    have absent : (db.slice j).row = none := Option.map_eq_none_iff.mp reached
    have step : OpStep clock j (db.slice j) (.createJob j (sampleJob cap)) (some _) _ :=
      .created absent positive
    exact step.enables le_rfl ⟨rfl, rfl⟩ trivial rfl
  | claim =>
    obtain ⟨row, present, pending, rfl, rfl⟩ := Slice.row_of_progress reached
    have due : isDue (max clock row.runAt) row = true := isDue_iff.mpr ⟨pending, le_max_right _ _⟩
    have step : OpStep (max clock row.runAt) j (db.slice j)
        (.claimDueJobs "" 1 0 (fun _ => 0) (.only j)) (some _) _ :=
      .claimed le_rfl (by simp [Choices.only]) present due
    exact step.enables (le_max_left _ _) (by simp [JobOp.Only, Choices.only]) trivial rfl
  | deliver =>
    obtain ⟨row, present, processing, rfl, rfl⟩ := Slice.row_of_progress reached
    obtain ⟨claimToken, owned⟩ := coherent.fenced present (Table.pk_of_lookup present) processing
    obtain ⟨undelivered, _, fresh⟩ := coherent.ready present processing
    obtain ⟨eventId, undrawn⟩ := exists_undrawn db
    have step : OpStep clock j (db.slice j) (.markSent j claimToken "" none "" eventId) (some _) _ :=
      .sent present owned undelivered fresh
    exact step.enables le_rfl rfl undrawn rfl
  | @retry _ _ outcome unsent room =>
    obtain ⟨row, present, processing, rfl, rfl⟩ := Slice.row_of_progress reached
    cases outcome with
    | sent => exact absurd rfl unsent
    | failed =>
      refine enabled_failed coherent clock present processing false ?_
      simp [failedRow, room]
    | leaseExpired =>
      refine enabled_reaped coherent clock present processing fun now => ?_
      simp [reapedRow, room]
  | @giveUp _ _ outcome unsent exhausted =>
    obtain ⟨row, present, processing, rfl, rfl⟩ := Slice.row_of_progress reached
    cases outcome with
    | sent => exact absurd rfl unsent
    | failed =>
      exact enabled_failed coherent clock present processing false
        (failedRow_dead.mpr (.inr exhausted))
    | leaseExpired =>
      exact enabled_reaped coherent clock present processing fun _ => reapedRow_dead.mpr exhausted
  | reject =>
    obtain ⟨row, present, processing, rfl, rfl⟩ := Slice.row_of_progress reached
    exact enabled_failed coherent clock present processing true (failedRow_dead.mpr (.inl rfl))
  | giveBack =>
    obtain ⟨row, present, processing, rfl, rfl⟩ := Slice.row_of_progress reached
    obtain ⟨claimToken, owned⟩ := coherent.fenced present (Table.pk_of_lookup present) processing
    have step : OpStep clock j (db.slice j) (.returnToQueue j claimToken 0) (some _) _ :=
      .returned present owned
    exact step.enables le_rfl rfl trivial rfl
  | requeue room =>
    obtain ⟨row, present, dead, rfl, rfl⟩ := Slice.row_of_progress reached
    have step : OpStep clock j (db.slice j) (.requeueDeadLetter j _) (some _) _ :=
      .requeued present dead room
    exact step.enables le_rfl rfl trivial rfl

end

/-- From every reachable state, a job can make every move that the machine allows it, in one call
    that does nothing to the other jobs. -/
theorem Progress.Move.taken {history : JobHistory} {db : Db} (run : Run jobSystem history db)
    {j : JobId} {event : JobEvent} {progress : Option Progress}
    (move : Progress.Move (db.slice j).progress event progress) :
    ∃ call db', Run jobSystem (⟨db, call, db'⟩ :: history) db' ∧
      ClockForward history ⟨db, call, db'⟩ ∧ call.eventFor j = some event ∧
      (db'.slice j).progress = progress ∧
      ∀ i, i ≠ j → call.eventFor i = none ∧ db'.slice i = db.slice i := by
  obtain ⟨last, later⟩ := exists_now history
  obtain ⟨op, now, s', forward, only, undrawn, step, ends⟩ :=
    move.enabled (coherent_slice run j) last
  obtain ⟨happened, slice, others⟩ := step.lone (coherent_slice run) only undrawn
  have committed : jobSystem.step db ⟨op, now, (op.commit now db).1⟩ (op.commit now db).2 := rfl
  exact ⟨_, _, .next run committed, fun old member => (later old member).trans forward,
    happened, slice ▸ ends, others⟩

/-! ## No job is stuck -/

/-- From every reachable state a job can go along any path of the machine, one call a move, while
    nothing happens to the other jobs. -/
theorem moves_taken {history : JobHistory} {db : Db} (run : Run jobSystem history db) {j : JobId}
    {path : History (Option Progress) JobEvent} {progress : Option Progress}
    (moves : Run (lifecycle.startingAt (db.slice j).progress) path progress) :
    ∃ later db', Run jobSystem (later ++ history) db' ∧
      Along (fun new => ClockForward (new ++ history)) later ∧
      later.length = path.length ∧ (db'.slice j).progress = progress ∧
      ∀ i, i ≠ j → db'.slice i = db.slice i := by
  induction moves with
  | start initial =>
    cases initial
    exact ⟨[], db, run, trivial, rfl, rfl, fun _ _ => rfl⟩
  | next _ move inductionHypothesis =>
    obtain ⟨later, db₁, run₁, forward, length, reached, others⟩ := inductionHypothesis
    have move : Progress.Move _ _ _ := move
    rw [← reached] at move
    obtain ⟨call, db', run', last, _, moved, still⟩ := move.taken run₁
    refine ⟨⟨db₁, call, db'⟩ :: later, db', run', ⟨last, forward⟩, by simp [length], moved, ?_⟩
    intro i other
    exact (still i other).2.trans (others i other)

/-- Wherever a job is, the machine leads it to `sent` in at most three moves. -/
theorem path_to_sent (progress : Progress) :
    ∃ path n cap, Run (lifecycle.startingAt (some progress)) path (some ⟨.sent, n, cap⟩) ∧
      path.length ≤ 3 := by
  obtain ⟨status, n, cap⟩ := progress
  cases status with
  | sent => exact ⟨[], n, cap, .start rfl, by simp⟩
  | processing =>
    have delivers : Progress.Move (some ⟨.processing, n, cap⟩) _ _ := .deliver
    exact ⟨_, _, _, .next (.start rfl) delivers, by simp⟩
  | pending =>
    have claims : Progress.Move (some ⟨.pending, n, cap⟩) _ _ := .claim
    exact ⟨_, _, _, .next (.next (.start rfl) claims) .deliver, by simp⟩
  | deadLettered =>
    have requeues : Progress.Move (some ⟨.deadLettered, n, cap⟩) (.requeued (max 1 (1 - n))) _ :=
      .requeue (by omega)
    exact ⟨_, _, _, .next (.next (.next (.start rfl) requeues) .claim) .deliver, by simp⟩

/-- No job is ever stuck: from every reachable state, three more calls at most send it, none of them
    earlier than any call before it, and they change nothing about any other job. -/
theorem never_stuck {history : JobHistory} {db : Db} (run : Run jobSystem history db) {j : JobId}
    {row : Job} (present : getJob db j = some row) :
    ∃ later db', Run jobSystem (later ++ history) db' ∧
      Along (fun new => ClockForward (new ++ history)) later ∧
      later.length ≤ 3 ∧ (∃ row', getJob db' j = some row' ∧ row'.status = .sent) ∧
      ∀ i, i ≠ j → db'.slice i = db.slice i := by
  obtain ⟨path, n, cap, moves, short⟩ := path_to_sent row.progress
  have reached : (db.slice j).progress = some row.progress :=
    congrArg (Option.map Job.progress) present
  rw [← reached] at moves
  obtain ⟨later, db', run', forward, length, sent, others⟩ := moves_taken run moves
  obtain ⟨row', present', status, _⟩ := Slice.row_of_progress sent
  exact ⟨later, db', run', forward, by omega, ⟨row', present', status⟩, others⟩

/-- A job that was rejected for good, requeued and lost with its worker can still be sent. -/
theorem never_stuck_requeued :
    ∃ later db', Run jobSystem (later ++ (jobRun requeuedJob).1) db' ∧
      ∃ row', getJob db' 1 = some row' ∧ row'.status = .sent := by
  have created : (getJob (jobRun requeuedJob).2 1).isSome = true := by decide +kernel
  obtain ⟨row, present⟩ := Option.isSome_iff_exists.mp created
  obtain ⟨later, db', run', _, _, sent, _⟩ := never_stuck (run_jobRun requeuedJob) present
  exact ⟨later, db', run', sent⟩

/-! ## Any number of jobs -/

/-- The events of one job among those of all jobs. -/
def eventsOf (j : JobId) (events : List (JobId × JobEvent)) : List JobEvent :=
  events.filterMap fun (i, event) => if i = j then some event else none

@[simp] theorem eventsOf_own (j : JobId) (event : JobEvent) (events : List (JobId × JobEvent)) :
    eventsOf j ((j, event) :: events) = event :: eventsOf j events := by
  simp [eventsOf]

theorem eventsOf_other {i j : JobId} (other : i ≠ j) (event : JobEvent)
    (events : List (JobId × JobEvent)) : eventsOf i ((j, event) :: events) = eventsOf i events := by
  simp [eventsOf, other.symm]

theorem lifecycle_nil {progress : Option Progress} (reached : Lifecycle [] progress) :
    progress = none := by
  obtain ⟨path, run, labels⟩ := reached
  obtain rfl := List.map_eq_nil_iff.mp labels
  cases run with
  | start initial => exact initial

theorem lifecycle_cons {event : JobEvent} {events : List JobEvent} {progress : Option Progress}
    (reached : Lifecycle (event :: events) progress) :
    ∃ before, Lifecycle events before ∧ Progress.Move before event progress := by
  obtain ⟨path, run, labels⟩ := reached
  cases run with
  | start _ => cases labels
  | next earlier move =>
    obtain ⟨rfl, rfl⟩ := List.cons.inj labels
    exact ⟨_, ⟨_, earlier, rfl⟩, move⟩

/-- The tables implement the lifecycle exactly.  What happens to each job in a run is a path of the
    machine that ends where its row is; and whatever paths the jobs take, in whatever order their
    moves are mixed, some run on a forward clock takes them. -/
theorem lifecycle_exact :
    (∀ history db, Run jobSystem history db →
      ∀ j, Lifecycle (jobEvents j history) ((getJob db j).map Job.progress)) ∧
    ∀ (events : List (JobId × JobEvent)) (progress : JobId → Option Progress),
      (∀ j, Lifecycle (eventsOf j events) (progress j)) →
      ∃ history db, Run jobSystem history db ∧ Along ClockForward history ∧
        ∀ j, jobEvents j history = eventsOf j events ∧
          (getJob db j).map Job.progress = progress j := by
  refine ⟨fun history db run j => lifecycle_of_run run j, ?_⟩
  intro events
  induction events with
  | nil =>
    intro progress allowed
    have nowhere : ∀ j, progress j = none := fun j => lifecycle_nil (allowed j)
    exact ⟨[], .empty, .start rfl, trivial, fun j => ⟨rfl, (nowhere j).symm⟩⟩
  | cons last events inductionHypothesis =>
    obtain ⟨j, event⟩ := last
    intro progress allowed
    have own := allowed j
    rw [eventsOf_own] at own
    obtain ⟨before, earlier, move⟩ := lifecycle_cons own
    -- before the last move, its job was at `before` and the others where they are now
    have allowedBefore : ∀ i, Lifecycle (eventsOf i events) (Function.update progress j before i) := by
      intro i
      by_cases same : i = j
      · subst same
        rwa [Function.update_self]
      · rw [Function.update_of_ne same, ← eventsOf_other same event]
        exact allowed i
    obtain ⟨history, db, run, clock, shown⟩ := inductionHypothesis _ allowedBefore
    have reached : (db.slice j).progress = before := by
      rw [← Function.update_self j before progress]
      exact (shown j).2
    rw [← reached] at move
    obtain ⟨call, db', run', last, happened, moved, others⟩ := move.taken run
    refine ⟨_, db', run', ⟨last, clock⟩, ?_⟩
    intro i
    rw [jobEvents_cons]
    by_cases same : i = j
    · subst same
      rw [happened, eventsOf_own, (shown i).1]
      exact ⟨rfl, moved⟩
    · obtain ⟨idle, unchanged⟩ := others i same
      have stays := (shown i).2
      rw [Function.update_of_ne same] at stays
      have row : getJob db' i = getJob db i := congrArg Slice.row unchanged
      rw [idle, eventsOf_other same, (shown i).1, row]
      exact ⟨rfl, stays⟩

end NotifyQueue
