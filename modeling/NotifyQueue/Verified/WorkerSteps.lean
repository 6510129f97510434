import NotifyQueue.Verified.ClaimFencing
import NotifyQueue.Verified.Coherence
import NotifyQueue.Worker.Loop

/-! # What a worker task can do

`TaskStep` lists the ways in which an action can take a task on, with the guards that the code
checks, and `Task.step_cases` derives them from the model once.  Every invariant of the
worker system is a case analysis over this list.

`worker_refines` connects the system to the job operations: whatever the workers do, the
tables went through a run of `jobSystem`. -/

namespace NotifyQueue

open Runs Tables

def Stage.isSending : Stage → Bool
  | .sending _ => true
  | _ => false

inductive TaskStep (settings : Settings) (skew : String → Time) (w : World) (task : Task) :
    TaskAction → Effect → Prop where
  | admitted (key : RateKey) (stage : task.stage = .acquiring)
      (ran : acquireScript settings.windowMs settings.rateLimitPerHour.toNat (redisMs w.now)
        task.job.id (w.keys task.job.recipient) = (.admitted, key)) :
      TaskStep settings skew w task (.acquire .redis)
        ({ task.to .admitted with slot := key.slots.score task.job.id }, w.db,
          w.keys.write task.job.recipient key)
  | turnedAway (key : RateKey) (ms : Int) (delaySeconds : Time) (stage : task.stage = .acquiring)
      (ran : acquireScript settings.windowMs settings.rateLimitPerHour.toNat (redisMs w.now)
        task.job.id (w.keys task.job.recipient) = (.wait ms, key)) :
      TaskStep settings skew w task (.acquire .redis)
        (task.to (.returning delaySeconds false), w.db, w.keys.write task.job.recipient key)
  | admittedByFallback (stage : task.stage = .acquiring) :
      TaskStep settings skew w task (.acquire (.fallback none))
        ({ task.to .admitted with slot := none }, w.db, w.keys)
  | turnedAwayByFallback (delaySeconds : Time) (stage : task.stage = .acquiring) :
      TaskStep settings skew w task (.acquire (.fallback (some delaySeconds)))
        ({ task.to (.returning delaySeconds false) with slot := none }, w.db, w.keys)
  | acquireRaised (stage : task.stage = .acquiring) :
      TaskStep settings skew w task (.acquire .raised) (task.to (.ended .failed), w.db, w.keys)
  | overBudget (stage : task.stage = .admitted)
      (late : task.leaseDeadline - monotonic skew task.worker w.now < settings.sendBudgetSeconds) :
      TaskStep settings skew w task .checkBudget (task.to (.returning 0 true), w.db, w.keys)
  | sendStarted (stage : task.stage = .admitted)
      (inBudget : settings.sendBudgetSeconds ≤
        task.leaseDeadline - monotonic skew task.worker w.now) :
      TaskStep settings skew w task .checkBudget
        ({ task.to (.sending w.now) with request := some .undecided }, w.db, w.keys)
  | returned {began delaySeconds : Time} {givesBack : Bool} {t : Transition} {db : Db}
      (stage : task.stage = .returning delaySeconds givesBack) (past : began ≤ w.now)
      (committed : (JobOp.returnToQueue task.job.id task.claimToken delaySeconds).commit began
        w.db = (.finished (some t), db)) :
      TaskStep settings skew w task (.returnUnsent began)
        (task.to (if givesBack then .releasing else .ended .finished), db, w.keys)
  | returnLost {began delaySeconds : Time} {givesBack : Bool}
      (stage : task.stage = .returning delaySeconds givesBack) :
      TaskStep settings skew w task (.returnUnsent began) (task.to (.ended .leaseLost), w.db, w.keys)
  | decided (verdict : Verdict) (undecided : task.request = some .undecided) :
      TaskStep settings skew w task (.provider verdict)
        ({ task with request := some verdict }, w.db, w.keys)
  | sendEnded {startedAt : Time} (result : SendResult) (stage : task.stage = .sending startedAt)
      (agrees : task.request.any result.agrees = true) :
      TaskStep settings skew w task (.endSend result) (task.to (.recording result w.now), w.db, w.keys)
  | connected {result : SendResult} {since : Time} (stage : task.stage = .recording result since) :
      TaskStep settings skew w task .connect (task.to (.committing result w.now), w.db, w.keys)
  | recorded {result : SendResult} {since began : Time} {eventId : EventId} {draw : Time}
      {op : JobOp} {t : Transition} {db : Db} (stage : task.stage = .committing result since)
      (past : began ≤ w.now) (records : task.recordOp settings result eventId draw = some op)
      (committed : op.commit began w.db = (.finished (some t), db)) :
      TaskStep settings skew w task (.finalize began eventId draw)
        (task.to (if result.refundSlot then .releasing else .ended .finished), db, w.keys)
  | recordLost {result : SendResult} {since began : Time} {eventId : EventId} {draw : Time}
      {op : JobOp} (stage : task.stage = .committing result since)
      (records : task.recordOp settings result eventId draw = some op)
      (committed : op.commit began w.db = (.finished none, w.db)) :
      TaskStep settings skew w task (.finalize began eventId draw)
        (task.to (.ended .leaseLost), w.db, w.keys)
  | recordRaised {result : SendResult} {since began : Time} {eventId : EventId} {draw : Time}
      (stage : task.stage = .committing result since) :
      TaskStep settings skew w task (.finalize began eventId draw)
        (task.to (.ended .failed), w.db, w.keys)
  | released (reachable : Bool) (stage : task.stage = .releasing) :
      TaskStep settings skew w task (.release reachable) (task.release w reachable)
  | crashed (running : ∀ ending, task.stage ≠ .ended ending) :
      TaskStep settings skew w task .crash (task.to (.ended .crashed), w.db, w.keys)

/-! ## Calls of a task -/

theorem recordOp_presents {settings : Settings} {task : Task} {result : SendResult}
    {eventId : EventId} {draw : Time} {op : JobOp}
    (records : task.recordOp settings result eventId draw = some op) :
    op.presents = some (task.job.id, task.claimToken) := by
  unfold Task.recordOp at records
  split at records
  · cases records
    rfl
  · split at records <;> cases records
    rfl

/-! ## The inversion lemma -/

theorem Task.acquire_cases {settings : Settings} {skew : String → Time} {w : World} {task : Task}
    {reply : LimiterReply} {effect : Effect} (stage : task.stage = .acquiring)
    (stepped : task.acquire settings w reply = some effect) :
    TaskStep settings skew w task (.acquire reply) effect := by
  cases reply with
  | raised =>
    cases stepped
    exact .acquireRaised stage
  | fallback retryAfter =>
    cases stepped
    cases retryAfter with
    | none => exact .admittedByFallback stage
    | some delaySeconds => exact .turnedAwayByFallback delaySeconds stage
  | redis =>
    simp only [Task.acquire] at stepped
    split at stepped
    · next admitted =>
      cases stepped
      exact .admitted _ stage (Prod.ext admitted rfl)
    · next ms waits =>
      cases stepped
      exact .turnedAway _ ms _ stage (Prod.ext waits rfl)
    · cases stepped

theorem Task.returnUnsent_cases {settings : Settings} {skew : String → Time} {w : World} {task : Task}
    {began delaySeconds : Time} {givesBack : Bool}
    (stage : task.stage = .returning delaySeconds givesBack) (past : began ≤ w.now) :
    TaskStep settings skew w task (.returnUnsent began)
      (task.returnUnsent w began delaySeconds givesBack) := by
  cases committed : (JobOp.returnToQueue task.job.id task.claimToken delaySeconds).commit began w.db with
  | mk answer db' =>
    simp only [Task.returnUnsent, committed]
    cases finalized_of_presents rfl committed with
    | fencedOut _ => exact .returnLost stage
    | rolledBack _ _ _ => exact .returnLost stage
    | moved _ _ _ => exact .returned stage past committed

theorem Task.finalize_cases {settings : Settings} {skew : String → Time} {w : World} {task : Task}
    {result : SendResult} {since began : Time} {eventId : EventId} {draw : Time}
    (stage : task.stage = .committing result since) (past : began ≤ w.now) :
    TaskStep settings skew w task (.finalize began eventId draw)
      (task.finalize settings w result began eventId draw) := by
  cases records : task.recordOp settings result eventId draw with
  | none =>
    simp only [Task.finalize, records]
    exact .recordRaised stage
  | some op =>
    cases committed : op.commit began w.db with
    | mk answer db' =>
      simp only [Task.finalize, records, committed]
      cases finalized_of_presents (recordOp_presents records) committed with
      | fencedOut _ => exact .recordLost stage records committed
      | rolledBack _ _ _ => exact .recordRaised stage
      | moved _ _ _ => exact .recorded stage past records committed

theorem Task.step_cases {settings : Settings} {skew : String → Time} {w : World} {task : Task}
    {action : TaskAction} {effect : Effect}
    (stepped : task.step settings skew w action = some effect) :
    TaskStep settings skew w task action effect := by
  cases action with
  | acquire reply =>
    simp only [Task.step, Option.ite_none_right_eq_some] at stepped
    exact Task.acquire_cases stepped.1 stepped.2
  | checkBudget =>
    simp only [Task.step, Option.ite_none_right_eq_some, Option.some.injEq] at stepped
    obtain ⟨stage, rfl⟩ := stepped
    unfold Task.checkBudget
    split
    · next late => exact .overBudget stage late
    · next inBudget => exact .sendStarted stage (not_lt.mp inBudget)
  | returnUnsent began =>
    simp only [Task.step] at stepped
    split at stepped
    · next stage =>
      simp only [Option.ite_none_right_eq_some, Option.some.injEq] at stepped
      obtain ⟨past, rfl⟩ := stepped
      exact Task.returnUnsent_cases stage past
    · cases stepped
  | provider verdict =>
    simp only [Task.step, Option.ite_none_right_eq_some, Option.some.injEq] at stepped
    obtain ⟨undecided, rfl⟩ := stepped
    exact .decided verdict undecided
  | endSend result =>
    simp only [Task.step] at stepped
    split at stepped
    · next stage =>
      simp only [Option.ite_none_right_eq_some, Option.some.injEq] at stepped
      obtain ⟨agrees, rfl⟩ := stepped
      exact .sendEnded result stage agrees
    · cases stepped
  | connect =>
    simp only [Task.step] at stepped
    split at stepped <;> cases stepped
    next stage => exact .connected stage
  | finalize began eventId draw =>
    simp only [Task.step] at stepped
    split at stepped
    · next stage =>
      simp only [Option.ite_none_right_eq_some, Option.some.injEq] at stepped
      obtain ⟨⟨_, past⟩, rfl⟩ := stepped
      exact Task.finalize_cases stage past
    · cases stepped
  | release reachable =>
    simp only [Task.step, Option.ite_none_right_eq_some, Option.some.injEq] at stepped
    obtain ⟨stage, rfl⟩ := stepped
    exact .released reachable stage
  | crash =>
    simp only [Task.step] at stepped
    -- a task that has ended does not crash
    split at stepped <;> cases stepped
    next running => exact .crashed running

/-- What no step changes about a task. -/
theorem TaskStep.identity {settings : Settings} {skew : String → Time} {w : World} {task task' : Task}
    {action : TaskAction} {db : Db} {keys : Keys}
    (step : TaskStep settings skew w task action (task', db, keys)) :
    task'.worker = task.worker ∧ task'.job = task.job ∧ task'.claimToken = task.claimToken ∧
      task'.leaseDeadline = task.leaseDeadline := by
  cases step <;> exact ⟨rfl, rfl, rfl, rfl⟩

/-! ## The whole system -/

/-- The ways in which an action takes the system on. -/
inductive WorldStep (settings : Settings) (skew : String → Time) (w : World) : Action → World → Prop
    where
  | tick {elapsed : Time} (forward : 0 ≤ elapsed) :
      WorldStep settings skew w (.tick elapsed) { w with now := w.now + elapsed }
  | poll (worker : String) :
      WorldStep settings skew w (.poll worker)
        { w with batches := w.batches ++
          [⟨worker, monotonic skew worker w.now + settings.leaseSeconds, w.now⟩] }
  | claim {b : Nat} {batch : Batch} {began : Time} {newToken : JobId → ClaimToken}
      {choices : Choices} {jobs : List Job} {db : Db} (found : w.batches[b]? = some batch)
      (later : batch.polledAt ≤ began) (past : began ≤ w.now)
      (claimed : claimDueJobs began batch.worker settings.batchSize settings.leaseSeconds newToken
        choices w.db = (jobs, db)) :
      WorldStep settings skew w (.claim b began newToken choices)
        { w with
          db
          batches := w.batches.eraseIdx b
          tasks := w.tasks ++ newTasks batch.worker batch.leaseDeadline jobs }
  | outside {op : JobOp} {began : Time} {answer : Answer} {db : Db} (outside : op.isOutside = true)
      (past : began ≤ w.now) (committed : op.commit began w.db = (answer, db)) :
      WorldStep settings skew w (.outside op began) { w with db }
  | task {i : Nat} {action : TaskAction} {task task' : Task} {db : Db} {keys : Keys}
      (found : w.tasks[i]? = some task)
      (stepped : TaskStep settings skew w task action (task', db, keys)) :
      WorldStep settings skew w (.task i action) { w with db, keys, tasks := w.tasks.set i task' }

theorem World.step_cases {settings : Settings} {skew : String → Time} {w w' : World} {action : Action}
    (stepped : w.step settings skew action = some w') : WorldStep settings skew w action w' := by
  cases action with
  | tick elapsed =>
    simp only [World.step, Option.ite_none_right_eq_some, Option.some.injEq] at stepped
    obtain ⟨forward, rfl⟩ := stepped
    exact .tick forward
  | poll worker =>
    cases stepped
    exact .poll worker
  | claim b began newToken choices =>
    simp only [World.step] at stepped
    split at stepped
    · cases stepped
    · next batch found =>
      simp only [Option.ite_none_right_eq_some, Option.some.injEq] at stepped
      obtain ⟨⟨later, past⟩, rfl⟩ := stepped
      exact .claim found later past rfl
  | outside op began =>
    simp only [World.step, Option.ite_none_right_eq_some, Option.some.injEq] at stepped
    obtain ⟨⟨outside, past⟩, rfl⟩ := stepped
    exact .outside outside past rfl
  | task i action =>
    simp only [World.step] at stepped
    split at stepped
    · cases stepped
    · next task found =>
      split at stepped
      · cases stepped
      · next task' db keys stepped' =>
        cases stepped
        exact .task found (Task.step_cases stepped')

/-- The database sees at most one job operation in each step, and only a task presents a
    token: its own. -/
theorem WorldStep.commits {settings : Settings} {skew : String → Time} {w w' : World} {action : Action}
    (step : WorldStep settings skew w action w') :
    w'.db = w.db ∨ ∃ op began answer, JobOp.commit op began w.db = (answer, w'.db) ∧ began ≤ w.now ∧
      ∀ named, op.presents = some named → ∃ i taskAction task, action = .task i taskAction ∧
        w.tasks[i]? = some task ∧ named = (task.job.id, task.claimToken) := by
  cases step with
  | tick _ => exact .inl rfl
  | poll _ => exact .inl rfl
  | @claim b batch began newToken choices jobs db _ _ past claimed =>
    have committed : (JobOp.claimDueJobs batch.worker settings.batchSize settings.leaseSeconds
        newToken choices).commit began w.db = (.claimed jobs, db) := by
      rw [commit_claimDueJobs, claimed]
    refine .inr ⟨_, began, _, committed, past, ?_⟩
    intro named presented
    cases presented
  | @outside op began answer db outside past committed =>
    refine .inr ⟨op, began, answer, committed, past, ?_⟩
    intro named presented
    cases op <;> contradiction
  | task found stepped =>
    cases stepped with
    | returned _ past committed =>
      refine .inr ⟨_, _, _, committed, past, ?_⟩
      intro named presented
      exact ⟨_, _, _, rfl, found, (Option.some.inj presented).symm⟩
    | recorded _ past records committed =>
      refine .inr ⟨_, _, _, committed, past, ?_⟩
      intro named presented
      rw [recordOp_presents records] at presented
      exact ⟨_, _, _, rfl, found, (Option.some.inj presented).symm⟩
    | _ => exact .inl rfl

/-- Where the task with a number comes from in a step: it did nothing, it made the step,
    or it was just claimed. -/
inductive TaskOrigin (settings : Settings) (skew : String → Time) (w : World) (action : Action)
    (w' : World) (k : Nat) (task' : Task) : Prop where
  | kept (found : w.tasks[k]? = some task')
      (other : ∀ taskAction, action ≠ .task k taskAction) :
      TaskOrigin settings skew w action w' k task'
  | moved {taskAction : TaskAction} {task : Task} (label : action = .task k taskAction)
      (found : w.tasks[k]? = some task)
      (stepped : TaskStep settings skew w task taskAction (task', w'.db, w'.keys))
      (sameTime : w'.now = w.now) : TaskOrigin settings skew w action w' k task'
  | claimed {b : Nat} {batch : Batch} {began : Time} {newToken : JobId → ClaimToken}
      {choices : Choices} {jobs : List Job} {job : Job} {claimToken : ClaimToken}
      (label : action = .claim b began newToken choices) (late : w.tasks[k]? = none)
      (found : w.batches[b]? = some batch) (later : batch.polledAt ≤ began) (past : began ≤ w.now)
      (ran : claimDueJobs began batch.worker settings.batchSize settings.leaseSeconds newToken choices
        w.db = (jobs, w'.db))
      (member : job ∈ jobs) (held : job.claimToken = some claimToken)
      (new : task' = ⟨batch.worker, job, claimToken, batch.leaseDeadline, .acquiring, none, none⟩) :
      TaskOrigin settings skew w action w' k task'

theorem WorldStep.origin {settings : Settings} {skew : String → Time} {w w' : World} {action : Action}
    (step : WorldStep settings skew w action w') {k : Nat} {task' : Task}
    (found' : w'.tasks[k]? = some task') : TaskOrigin settings skew w action w' k task' := by
  cases step with
  | tick _ => exact .kept found' (fun _ same => by cases same)
  | poll _ => exact .kept found' (fun _ same => by cases same)
  | outside _ _ _ => exact .kept found' (fun _ same => by cases same)
  | claim found later past claimed =>
    rw [List.getElem?_append] at found'
    split at found'
    · exact .kept found' (fun _ same => by cases same)
    · next late =>
      have new := List.mem_of_getElem? found'
      simp only [newTasks, List.mem_filterMap, Option.map_eq_some_iff] at new
      obtain ⟨job, member, claimToken, held, rfl⟩ := new
      exact .claimed rfl (List.getElem?_eq_none (not_lt.mp late)) found later past claimed member
        held rfl
  | @task i _ task moved db keys found stepped =>
    rw [List.getElem?_set] at found'
    split at found'
    · next same =>
      subst same
      split at found'
      · cases found'
        exact .moved rfl found stepped rfl
      · cases found'
    · next different =>
      refine .kept found' ?_
      intro _ same
      cases same
      exact different rfl

/-- Time does not run back. -/
theorem WorldStep.now_le {settings : Settings} {skew : String → Time} {w w' : World} {action : Action}
    (step : WorldStep settings skew w action w') : w.now ≤ w'.now := by
  cases step with
  | tick forward => exact le_add_of_nonneg_right forward
  | _ => exact le_rfl

/-- The tables of the worker system go through a run of the job operations. -/
theorem worker_refines {settings : Settings} {skew : String → Time} :
    Simulation (workerSystem settings skew) jobSystem (fun _ => True) (fun w db => w.db = db) where
  init := by
    rintro w ⟨start, rfl⟩
    exact ⟨.empty, rfl, rfl⟩
  step := by
    rintro w action w' db _ rfl step
    cases (World.step_cases step).commits with
    | inl same => exact ⟨w.db, .refl, same⟩
    | inr commits =>
      obtain ⟨op, began, answer, committed, _⟩ := commits
      have call : jobSystem.step w.db ⟨op, began, answer⟩ w'.db := committed
      exact ⟨w'.db, .single call, rfl⟩

/-- What holds of every job in every run of the operations holds of it among workers. -/
theorem coherent_world {settings : Settings} {skew : String → Time} {history : WorkerHistory}
    {w : World} (run : Run (workerSystem settings skew) history w) (j : JobId) :
    Coherent (w.db.slice j) := by
  obtain ⟨jobHistory, db, jobRun, same⟩ := worker_refines.run (fun _ _ _ => trivial) run
  rw [same]
  exact coherent_slice jobRun j

end NotifyQueue
