import Mathlib.Tactic.Linarith
import Mathlib.Tactic.Ring
import NotifyQueue.Verified.SoloRuns
import NotifyQueue.Verified.WorkerSteps

/-! # The delay before a retry

`backoff_delay` has its bounds and grows, as long as the power of two fits a float.  Nothing
keeps the attempts of a job below that: a job that is dead-lettered and requeued again and again
reaches any number of attempts (`reaches_attempts`). -/

namespace NotifyQueue

open Runs Tables

/-! ## The delay of an attempt -/

/-- `min(cap, base * 2 ** (attempt - 1))`. -/
def backoffCeiling (base cap : Time) (attempt : Int) : Time :=
  min cap (base * 2 ^ (attempt - 1).toNat)

/-- What `uniform(0, ceiling / 2)` can return. -/
def IsDraw (base cap : Time) (attempt : Int) (draw : Time) : Prop :=
  0 ≤ draw ∧ draw ≤ backoffCeiling base cap attempt / 2

section

variable {attempt : Int} {base cap draw delay : Time}

theorem backoffDelay_eq_ok : backoffDelay attempt base cap draw = .ok delay ↔
    1 ≤ attempt ∧ attempt ≤ 1024 ∧ backoffCeiling base cap attempt / 2 + draw = delay := by
  unfold backoffDelay
  split
  · simp
    omega
  · split
    · simp
      omega
    · have inRange : 1 ≤ attempt ∧ attempt ≤ 1024 := by omega
      simp [backoffCeiling, inRange]

theorem backoffDelay_bounds (drawn : IsDraw base cap attempt draw)
    (returned : backoffDelay attempt base cap draw = .ok delay) :
    backoffCeiling base cap attempt / 2 ≤ delay ∧ delay ≤ backoffCeiling base cap attempt := by
  obtain ⟨_, _, rfl⟩ := backoffDelay_eq_ok.mp returned
  obtain ⟨nonneg, atMost⟩ := drawn
  constructor <;> linarith

/-- The ceiling of an attempt is the floor of the next one, until the cap cuts it off. -/
theorem backoffDelay_grows {draw' delay' : Time} (first : 1 ≤ attempt)
    (below : base * 2 ^ attempt.toNat ≤ cap) (drawn : IsDraw base cap attempt draw)
    (drawn' : IsDraw base cap (attempt + 1) draw')
    (returned : backoffDelay attempt base cap draw = .ok delay)
    (returned' : backoffDelay (attempt + 1) base cap draw' = .ok delay') : delay ≤ delay' := by
  have exponent : attempt.toNat = (attempt - 1).toNat + 1 := by omega
  have next : backoffCeiling base cap (attempt + 1) = base * 2 ^ attempt.toNat := by
    rw [backoffCeiling, Int.add_sub_cancel, min_eq_right below]
  have half : base * 2 ^ attempt.toNat / 2 = base * 2 ^ (attempt - 1).toNat := by
    rw [exponent, pow_succ]
    ring
  calc delay
      ≤ backoffCeiling base cap attempt := (backoffDelay_bounds drawn returned).2
    _ ≤ base * 2 ^ (attempt - 1).toNat := min_le_right _ _
    _ = backoffCeiling base cap (attempt + 1) / 2 := by rw [next, half]
    _ ≤ delay' := (backoffDelay_bounds drawn' returned').1

end

/-! ## The delay of a task -/

/-- What is expected of the backoff of a claimed job: a retryable failure is recorded with a delay
    between half the ceiling and the ceiling, and the delays grow until the cap. -/
structure BackoffHolds (settings : Settings) (task : Task) : Prop where
  reaches : ∀ (result : SendResult) (error : String), result.error = some error →
    result.permanent = false → ∀ (eventId : EventId) (draw : Time),
      IsDraw settings.backoffBaseSeconds settings.backoffCapSeconds task.job.attempts draw →
      ∃ delay, task.recordOp settings result eventId draw =
          some (.markFailed task.job.id task.claimToken (task.job.lockedBy.getD task.worker) error
            delay false settings.defaultCallbackUrl eventId) ∧
        backoffCeiling settings.backoffBaseSeconds settings.backoffCapSeconds task.job.attempts / 2 ≤
          delay ∧
        delay ≤
          backoffCeiling settings.backoffBaseSeconds settings.backoffCapSeconds task.job.attempts
  grows : ∀ (n : Int), 1 ≤ n →
    settings.backoffBaseSeconds * 2 ^ n.toNat ≤ settings.backoffCapSeconds →
      ∀ (draw draw' delay delay' : Time),
        IsDraw settings.backoffBaseSeconds settings.backoffCapSeconds n draw →
        IsDraw settings.backoffBaseSeconds settings.backoffCapSeconds (n + 1) draw' →
        backoffDelay n settings.backoffBaseSeconds settings.backoffCapSeconds draw = .ok delay →
        backoffDelay (n + 1) settings.backoffBaseSeconds settings.backoffCapSeconds draw' =
          .ok delay' →
        delay ≤ delay'

theorem recordOp_retryable {settings : Settings} {task : Task} {result : SendResult} {error : String}
    (fails : result.error = some error) (retryable : result.permanent = false) (eventId : EventId)
    (draw : Time) (op : JobOp) :
    task.recordOp settings result eventId draw = some op ↔
      ∃ delay, backoffDelay task.job.attempts settings.backoffBaseSeconds settings.backoffCapSeconds
          draw = .ok delay ∧
        op = .markFailed task.job.id task.claimToken (task.job.lockedBy.getD task.worker) error delay
          false settings.defaultCallbackUrl eventId := by
  simp only [Task.recordOp, fails, retryable]
  split
  · next delay returned => simp [returned, eq_comm]
  · next raised => simp [raised]

/-- A positive ceiling has draws. -/
theorem isDraw_zero {base cap : Time} (basePositive : 0 < base) (capPositive : 0 < cap)
    (attempt : Int) : IsDraw base cap attempt 0 := by
  have positive : 0 < backoffCeiling base cap attempt :=
    lt_min capPositive (mul_pos basePositive (pow_pos two_pos _))
  exact ⟨le_rfl, by linarith⟩

/-- From attempt 1025 on, no failure is recorded. -/
theorem not_backoffHolds {settings : Settings} {task : Task}
    (basePositive : 0 < settings.backoffBaseSeconds) (capPositive : 0 < settings.backoffCapSeconds)
    (many : 1024 < task.job.attempts) : ¬ BackoffHolds settings task := by
  intro holds
  obtain ⟨delay, recorded, _⟩ := holds.reaches (.deliveryError "") _ rfl rfl 0 0
    (isDraw_zero basePositive capPositive _)
  obtain ⟨_, returned, _⟩ := (recordOp_retryable rfl rfl _ _ _).mp recorded
  have few := (backoffDelay_eq_ok.mp returned).2.1
  omega

/-! ## The attempts of a task -/

section

variable {settings : Settings} {skew : String → Time} {history : WorkerHistory} {w : World}

/-- A task works on at least the first attempt of its job. -/
theorem started_of_task (run : Run (workerSystem settings skew) history w) :
    ∀ task ∈ w.tasks, 1 ≤ task.job.attempts := by
  refine Run.invariant (C := fun _ _ => True) (I := fun _ w => ∀ task ∈ w.tasks, 1 ≤ task.job.attempts)
    ?_ ?_ run (Along.of_forall fun _ _ => trivial)
  · rintro _ ⟨start, rfl⟩ task member
    cases member
  · intro history w action w' earlier _ started _ step task member
    obtain ⟨k, found⟩ := List.getElem?_of_mem member
    cases (World.step_cases step).origin found with
    | kept before _ => exact started task (List.mem_of_getElem? before)
    | moved _ before stepped _ =>
      rw [stepped.identity.2.1]
      exact started _ (List.mem_of_getElem? before)
    | claimed _ _ _ _ _ ran inJobs _ new =>
      obtain ⟨row, found, _, rfl, _⟩ := lookup_of_claimed ran inJobs
      have nonneg := ((coherent_world earlier _).present row found).nonneg
      subst new
      show 1 ≤ row.attempts + 1
      omega

/-! ## Any number of attempts -/

/-- An action of the reaper or the API on a job by itself, whose guards hold. -/
theorem outside_commits (run : Run (workerSystem settings skew) history w) {j : JobId} {op : JobOp}
    {event : JobEvent} {s' : Slice} (alone : Alone j w.db) (outside : op.isOutside = true)
    (own : ∀ i new, op = .createJob i new → i = j)
    (step : OpStep w.now j (w.db.slice j) op (some event) s')
    (nodup : (s'.events.map OutboxRow.id).Nodup) :
    ∃ history' db', Run (workerSystem settings skew) history' { w with db := db' } ∧ Alone j db' ∧
      db'.slice j = s' := by
  have committed := (step.commits alone (coherent_world run) nodup).2
  have next : w.step settings skew (.outside op w.now) =
      some { w with db := (op.commit w.now w.db).2 } := by simp [World.step, outside]
  exact ⟨_, _, .next run next, alone.commit rfl own, committed⟩

/-- The claim of a due job that is by itself returns that job. -/
theorem claim_alone {now : Time} {j : JobId} {db : Db} {row : Job} {batchSize : Nat}
    (alone : Alone j db) (coherent : ∀ i, Coherent (db.slice i)) (found : getJob db j = some row)
    (due : isDue now row = true) (room : 1 ≤ batchSize) (worker : String) (token : ClaimToken)
    (leaseSeconds : Time) :
    ∃ jobs db',
      claimDueJobs now worker batchSize leaseSeconds (fun _ => token) .alone db = (jobs, db') ∧
      claimedRow now worker leaseSeconds (fun _ => token) row ∈ jobs ∧ Alone j db' ∧
      db'.slice j = { db.slice j with
        row := some (claimedRow now worker leaseSeconds (fun _ => token) row) } := by
  have step : OpStep now j (db.slice j)
      (.claimDueJobs worker batchSize leaseSeconds (fun _ => token) .alone) (some .claimed) _ :=
    .claimed room rfl found due
  obtain ⟨happened, committed⟩ := step.commits alone coherent (nodup_events db j)
  have stillAlone : Alone j
      (claimDueJobs now worker batchSize leaseSeconds (fun _ => token) .alone db).2 :=
    alone.commit (commit_claimDueJobs now db worker batchSize leaseSeconds (fun _ => token) .alone)
      (fun _ _ same => by cases same)
  rw [commit_claimDueJobs] at happened committed
  cases ran : claimDueJobs now worker batchSize leaseSeconds (fun _ => token) .alone db with
  | mk jobs db' =>
    rw [ran] at happened committed stillAlone
    obtain ⟨job, inJobs, named⟩ : ∃ job ∈ jobs, job.id = j := by
      simpa [Call.eventFor] using happened
    obtain ⟨_, _, _, _, stored⟩ := lookup_of_claimed ran inJobs
    have isRow := (congrArg Slice.row committed).symm.trans (named ▸ stored)
    have member : claimedRow now worker leaseSeconds (fun _ => token) row ∈ jobs := by
      rwa [Option.some.inj isRow]
    exact ⟨jobs, db', rfl, member, stillAlone, committed⟩

/-- A worker polls and claims a due job that is by itself. -/
theorem claim_commits (run : Run (workerSystem settings skew) history w) {j : JobId} {row : Job}
    (alone : Alone j w.db) (idle : w.batches = []) (found : getJob w.db j = some row)
    (due : isDue w.now row = true) (room : 1 ≤ settings.batchSize) (worker : String)
    (token : ClaimToken) :
    ∃ (history' : WorkerHistory) (w' : World) (i : Nat),
      Run (workerSystem settings skew) history' w' ∧ Alone j w'.db ∧ w'.batches = [] ∧
      w'.now = w.now ∧ w'.db.slice j = { w.db.slice j with
        row := some (claimedRow w.now worker settings.leaseSeconds (fun _ => token) row) } ∧
      w'.tasks[i]? = some (Task.mk worker
        (claimedRow w.now worker settings.leaseSeconds (fun _ => token) row) token
        (monotonic skew worker w.now + settings.leaseSeconds) .acquiring none none) := by
  obtain ⟨jobs, db', ran, inJobs, stillAlone, slice⟩ :=
    claim_alone alone (coherent_world run) found due room worker token settings.leaseSeconds
  -- the claim starts a task for the job
  have started : Task.mk worker (claimedRow w.now worker settings.leaseSeconds (fun _ => token) row)
      token (monotonic skew worker w.now + settings.leaseSeconds) .acquiring none none ∈
      newTasks worker (monotonic skew worker w.now + settings.leaseSeconds) jobs :=
    List.mem_filterMap.mpr ⟨_, inJobs, rfl⟩
  obtain ⟨i, new⟩ := List.getElem?_of_mem (List.mem_append_right w.tasks started)
  have polled : w.step settings skew (.poll worker) =
      some { w with batches :=
        [⟨worker, monotonic skew worker w.now + settings.leaseSeconds, w.now⟩] } := by
    simp [World.step, idle]
  have claims : World.step settings skew
      { w with batches := [⟨worker, monotonic skew worker w.now + settings.leaseSeconds, w.now⟩] }
      (.claim 0 w.now (fun _ => token) .alone) = some { w with
        db := db', batches := [], tasks := w.tasks ++
          newTasks worker (monotonic skew worker w.now + settings.leaseSeconds) jobs } := by
    simp [World.step, ran]
  exact ⟨_, _, i, .next (.next run polled) claims, stillAlone, rfl, rfl, slice, new⟩

end

section

variable {settings : Settings} {skew : String → Time} {history : WorkerHistory} {w : World}

theorem task_moves (run : Run (workerSystem settings skew) history w) {i : Nat} {task task' : Task}
    {action : TaskAction} {db : Db} {keys : Keys} (found : w.tasks[i]? = some task)
    (stepped : task.step settings skew w action = some (task', db, keys)) :
    ∃ (history' : WorkerHistory) (w' : World), Run (workerSystem settings skew) history' w' ∧
      w'.now = w.now ∧ w'.tasks[i]? = some task' := by
  have next : w.step settings skew (.task i action) =
      some { w with db, keys, tasks := w.tasks.set i task' } := by
    simp [World.step, found, stepped]
  have inside : i < w.tasks.length := (List.getElem?_eq_some_iff.mp found).1
  exact ⟨_, _, .next run next, rfl, List.getElem?_set_self inside⟩

/-- A task that has time to send may be rejected by the provider. -/
theorem task_rejected (run : Run (workerSystem settings skew) history w) {i : Nat} {task : Task}
    (found : w.tasks[i]? = some task) (acquiring : task.stage = .acquiring)
    (inBudget : settings.sendBudgetSeconds ≤
      task.leaseDeadline - monotonic skew task.worker w.now) (message : String) :
    ∃ (history' : WorkerHistory) (w' : World), Run (workerSystem settings skew) history' w' ∧
      ∃ task' ∈ w'.tasks, task'.job = task.job ∧
        task'.stage = .committing (.deliveryError message) w.now := by
  -- the fallback limiter lets it through
  have acquires : task.step settings skew w (.acquire (.fallback none)) =
      some ({ task.to .admitted with slot := none }, w.db, w.keys) := if_pos acquiring
  obtain ⟨_, w₁, run₁, now₁, found₁⟩ := task_moves run found acquires
  have starts : Task.step settings skew w₁ { task.to .admitted with slot := none } .checkBudget =
      some ({ task.to (.sending w.now) with slot := none, request := some .undecided }, w₁.db,
        w₁.keys) := by
    simp [Task.step, Task.checkBudget, Task.to, now₁, not_lt.mpr inBudget]
  obtain ⟨_, w₂, run₂, now₂, found₂⟩ := task_moves run₁ found₁ starts
  have rejects : Task.step settings skew w₂
      { task.to (.sending w.now) with slot := none, request := some .undecided }
      (.provider .rejected) =
      some ({ task.to (.sending w.now) with slot := none, request := some .rejected }, w₂.db,
        w₂.keys) := rfl
  obtain ⟨_, w₃, run₃, now₃, found₃⟩ := task_moves run₂ found₂ rejects
  have ends : Task.step settings skew w₃
      { task.to (.sending w.now) with slot := none, request := some .rejected }
      (.endSend (.deliveryError message)) =
      some ({ task.to (.recording (.deliveryError message) w.now) with
        slot := none, request := some .rejected }, w₃.db, w₃.keys) := by
    simp [Task.step, Task.to, SendResult.agrees, now₃, now₂, now₁]
  obtain ⟨_, w₄, run₄, now₄, found₄⟩ := task_moves run₃ found₃ ends
  have connects : Task.step settings skew w₄
      { task.to (.recording (.deliveryError message) w.now) with
        slot := none, request := some .rejected } .connect =
      some ({ task.to (.committing (.deliveryError message) w.now) with
        slot := none, request := some .rejected }, w₄.db, w₄.keys) := by
    simp [Task.step, Task.to, now₄, now₃, now₂, now₁]
  obtain ⟨history', w', run', _, found'⟩ := task_moves run₄ found₄ connects
  exact ⟨history', w', run', _, List.mem_of_getElem? found', rfl, rfl⟩

end

/-- The job is due, with `n` attempts behind it and one more allowed. -/
structure Waiting (n : Nat) (w : World) : Prop where
  alone : Alone 1 w.db
  idle : w.batches = []
  pending : ∃ row, getJob w.db 1 = some row ∧ isDue w.now row = true ∧ row.attempts = n ∧
    row.maxAttempts = n + 1

/-- One round: a worker claims the job and does not finish in time, the reaper dead-letters it, and
    it is requeued with one more attempt. -/
theorem Waiting.round {skew : String → Time} {history : WorkerHistory} {w : World} {n : Nat}
    (run : Run (workerSystem .default skew) history w) (waiting : Waiting n w) :
    ∃ history' w', Run (workerSystem .default skew) history' w' ∧ Waiting (n + 1) w' := by
  obtain ⟨row, found, due, attempts, maxAttempts⟩ := waiting.pending
  obtain ⟨_, w₁, _, run₁, alone₁, idle₁, now₁, slice₁, _⟩ := claim_commits run waiting.alone
    waiting.idle found due (by decide) "worker-1" n
  have ticked : w₁.step .default skew (.tick 31) = some { w₁ with now := w₁.now + 31 } := by
    simp only [World.step]
    exact if_pos (by norm_num)
  have run₂ : Run (workerSystem .default skew) _ _ := .next run₁ ticked
  have present₁ := congrArg Slice.row slice₁
  obtain ⟨_, noLetter, fresh⟩ := (coherent_world run₁ 1).ready present₁ rfl
  -- the reaper draws an event id that is not in the outbox
  obtain ⟨eventId, undrawn⟩ := Table.exists_fresh w₁.db.webhookOutbox
  have expired : leaseExpired (w₁.now + 31)
      (claimedRow w.now "worker-1" Settings.default.leaseSeconds (fun _ => n) row) = true := by
    simp only [leaseExpired, claimedRow, decide_eq_true_eq, Settings.default, now₁]
    linarith
  have reaps : OpStep (w₁.now + 31) 1 (w₁.db.slice 1)
      (.reapExpiredLeases 5 "" (fun _ => eventId) .alone) (some _) _ :=
    .reaped (by decide) rfl present₁ rfl expired fresh fun _ => noLetter
  obtain ⟨_, db₃, run₃, alone₃, slice₃⟩ := outside_commits run₂ alone₁ rfl
    (fun _ _ same => by cases same) reaps
    (nodup_events_append 1 (by split <;> exact fun drawn => drawn undrawn))
  have present₃ := congrArg Slice.row slice₃
  have dead : (reapedRow (w₁.now + 31)
      (claimedRow w.now "worker-1" Settings.default.leaseSeconds (fun _ => n) row)).status =
        .deadLettered := by
    rw [reapedRow_dead]
    simp only [claimedRow]
    omega
  have requeues : OpStep (w₁.now + 31) 1 (db₃.slice 1) (.requeueDeadLetter 1 1) (some _) _ :=
    .requeued present₃ dead (by simp only [reapedRow, claimedRow]; omega)
  obtain ⟨_, db₄, run₄, alone₄, slice₄⟩ := outside_commits run₃ alone₃ rfl
    (fun _ _ same => by cases same) requeues (nodup_events db₃ 1)
  refine ⟨_, _, run₄, alone₄, idle₁, _, congrArg Slice.row slice₄, ?_, ?_, ?_⟩
  · exact isDue_iff.mpr ⟨rfl, le_rfl⟩
  · simp only [requeuedRow, reapedRow, claimedRow]
    omega
  · simp only [requeuedRow, reapedRow, claimedRow]
    omega

/-- A job that is requeued after every attempt reaches any number of attempts. -/
theorem reaches_attempts (skew : String → Time) (n : Nat) :
    ∃ history w, Run (workerSystem .default skew) history w ∧ Waiting n w := by
  induction n with
  | zero =>
    have nothing : Run (workerSystem .default skew) [] (.initial 0) := .start ⟨0, rfl⟩
    have alone : Alone 1 (World.initial 0).db := fun i _ => Db.slice_empty i
    have creates : OpStep 0 1 (Db.empty.slice 1) (.createJob 1 (sampleJob 1)) (some _) _ :=
      .created rfl (by decide)
    obtain ⟨_, db, run, alone', slice⟩ := outside_commits nothing alone rfl
      (fun _ _ same => by cases same; rfl) creates (nodup_events Db.empty 1)
    exact ⟨_, _, run, alone', rfl, _, congrArg Slice.row slice,
      isDue_iff.mpr ⟨rfl, show (0 : Time) + 0 ≤ 0 by simp⟩, rfl, rfl⟩
  | succ n inductionHypothesis =>
    obtain ⟨history, w, run, waiting⟩ := inductionHypothesis
    exact waiting.round run

section

variable {settings : Settings} {skew : String → Time} {history : WorkerHistory} {w : World}

/-- In every run, the backoff of a claimed job works exactly up to its attempt 1024. -/
theorem backoff_holds_iff (run : Run (workerSystem settings skew) history w)
    (basePositive : 0 < settings.backoffBaseSeconds) (capPositive : 0 < settings.backoffCapSeconds)
    {task : Task} (member : task ∈ w.tasks) :
    BackoffHolds settings task ↔ task.job.attempts ≤ 1024 := by
  constructor
  · intro holds
    by_contra many
    exact not_backoffHolds basePositive capPositive (not_le.mp many) holds
  · intro few
    have started := started_of_task run task member
    constructor
    case reaches =>
      intro result error fails retryable eventId draw drawn
      have returned : backoffDelay task.job.attempts settings.backoffBaseSeconds
          settings.backoffCapSeconds draw = .ok _ := backoffDelay_eq_ok.mpr ⟨started, few, rfl⟩
      have bounds := backoffDelay_bounds drawn returned
      exact ⟨_, (recordOp_retryable fails retryable eventId draw _).mpr ⟨_, returned, rfl⟩, bounds⟩
    case grows =>
      intro n first below draw draw' delay delay' drawn drawn' returned returned'
      exact backoffDelay_grows first below drawn drawn' returned returned'

end

/-- A first attempt, claimed a second ago. -/
def firstAttempt : WorkerHistory × World :=
  workerRun .default (fun _ => 5) 0
    [.outside (.createJob 1 (sampleJob 3)) 0, .poll "worker-1", .claim 0 0 (fun _ => 70) .alone]

theorem backoff_holds_first : ∃ task ∈ firstAttempt.2.tasks, BackoffHolds .default task := by
  have claimed : ∃ task ∈ firstAttempt.2.tasks, task.job.attempts = 1 := by decide +kernel
  obtain ⟨task, member, attempts⟩ := claimed
  have run : Run (workerSystem .default fun _ => 5) firstAttempt.1 firstAttempt.2 :=
    run_workerRun _ _ _ _
  exact ⟨task, member, (backoff_holds_iff run (by decide) (by decide) member).mpr (by omega)⟩

/-- A job fails its attempt 1025, and the failure cannot be recorded. -/
theorem backoff_overflows_requeued :
    ∃ history w, Run (workerSystem .default fun _ => 0) history w ∧ ∃ task ∈ w.tasks, ∃ since,
      task.job.attempts = 1025 ∧ task.stage = .committing (.deliveryError "provider down") since ∧
        (∀ eventId draw, task.recordOp .default (.deliveryError "provider down") eventId draw = none) ∧
        ¬ BackoffHolds .default task := by
  obtain ⟨_, w, run, waiting⟩ := reaches_attempts (fun _ => 0) 1024
  obtain ⟨row, found, due, attempts, _⟩ := waiting.pending
  obtain ⟨_, w₁, i, run₁, _, _, now₁, _, claimed⟩ := claim_commits run waiting.alone waiting.idle found
    due (by decide) "worker-1" 1024
  have inBudget : Settings.default.sendBudgetSeconds ≤
      monotonic (fun _ => 0) "worker-1" w.now + Settings.default.leaseSeconds -
        monotonic (fun _ => 0) "worker-1" w₁.now := by
    rw [now₁, add_sub_cancel_left]
    exact Settings.default.leaseFitsSendBudget.le
  obtain ⟨history, w', run', task, member, job, stage⟩ := task_rejected run₁ claimed rfl inBudget
    "provider down"
  have many : task.job.attempts = 1025 := by
    rw [job]
    simp only [claimedRow]
    omega
  refine ⟨history, w', run', task, member, w₁.now, many, stage, ?_,
    not_backoffHolds (by decide) (by decide) (by omega)⟩
  intro eventId draw
  rw [Option.eq_none_iff_forall_ne_some]
  intro op recorded
  obtain ⟨_, returned, _⟩ := (recordOp_retryable rfl rfl _ _ _).mp recorded
  have few := (backoffDelay_eq_ok.mp returned).2.1
  omega

end NotifyQueue
