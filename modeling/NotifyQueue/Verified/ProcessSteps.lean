import NotifyQueue.Verified.HeldClaims
import NotifyQueue.Worker.Process

/-! # What a worker process can do

`ProcessStep` lists the ways in which an action takes a process on.  `Tracked` is what every
step keeps about the batches: a task of the process has ended, or a loop waits for it. -/

namespace NotifyQueue

open Runs

inductive ProcessStep (settings : Settings) (skew : String → Time)
    (p : Process) : ProcessAction → Process → Prop where
  | stop : ProcessStep settings skew p .stop { p with stopping := true }
  | loopEnded {i : Nat} {stage : LoopStage} (found : p.loops[i]? = some stage)
      (resumes : p.resumable stage = true) (stopping : p.stopping = true) :
      ProcessStep settings skew p (.resumeLoop i) { p with loops := p.loops.set i .ended }
  | polled {i : Nat} {stage : LoopStage} {batch : Batch} {world : World}
      (found : p.loops[i]? = some stage) (resumes : p.resumable stage = true)
      (goesOn : p.stopping = false)
      (new : batch = ⟨loopId p.workerId i,
        monotonic skew (loopId p.workerId i) p.world.now + settings.leaseSeconds, p.world.now⟩)
      (stepped : p.world.step settings skew (.poll (loopId p.workerId i)) = some world) :
      ProcessStep settings skew p (.resumeLoop i)
        { p with world, loops := p.loops.set i (.claiming batch) }
  | claimed {i b : Nat} {batch : Batch} {began : Time} {newToken : JobId → ClaimToken}
      {choices : Choices} {world : World} {tasks : List Nat}
      (found : p.loops[i]? = some (.claiming batch)) (inWorld : p.world.batches[b]? = some batch)
      (stepped : p.world.step settings skew (.claim b began newToken choices) = some world)
      (batched : tasks = List.range' p.world.tasks.length
        (world.tasks.length - p.world.tasks.length)) :
      ProcessStep settings skew p (.claim i b began newToken choices)
        { p with world, loops := p.loops.set i (if tasks = [] then .sleeping else .processing tasks) }
  | claimFailed {i : Nat} {batch : Batch} (found : p.loops[i]? = some (.claiming batch)) :
      ProcessStep settings skew p (.claimFailed i) { p with loops := p.loops.set i .sleeping }
  | task {k : Nat} {action : TaskAction} {task task' : Task} {db : Db} {keys : Keys}
      (found : p.world.tasks[k]? = some task) (owned : p.owns task.worker = true)
      (own : action.isProvider = false)
      (moved : task.step settings skew p.world action = some (task', db, keys)) :
      ProcessStep settings skew p (.task k action)
        ({ p with world := { p.world with db, keys, tasks := p.world.tasks.set k task' } }.follow
          settings k task (task.transitions settings p.world action) action)
  | reaperResumed (resumes : p.reaper = .starting ∨ p.reaper = .sleeping) :
      ProcessStep settings skew p .resumeReaper
        { p with reaper := if p.stopping then .ended else .reaping }
  | reaped {began : Time} {newEvent : JobId → EventId} {choices : Choices} {world : World}
      (reaping : p.reaper = .reaping)
      (stepped : p.world.step settings skew
        (.outside (Process.reapOp settings newEvent choices) began) = some world) :
      ProcessStep settings skew p (.reap began newEvent choices)
        ({ p with world, reaper := .sleeping }.invalidate settings
          ((Process.reapOp settings newEvent choices).commit began
            p.world.db).1.transitions)
  | reapFailed (reaping : p.reaper = .reaping) :
      ProcessStep settings skew p .reapFailed { p with reaper := .sleeping }
  | dispatcherResumed (resumes : p.dispatcherResumes = true) :
      ProcessStep settings skew p .resumeDispatcher
        { p with dispatcher := if p.stopping then .ended else .claiming }
  | claimedEvents {began : Time} {choices : OutboxChoices} {w : WebhookWorld} {new : List Nat}
      (claiming : p.dispatcher = .claiming)
      (stepped : p.webhooks.step settings (.claim began choices) = some w)
      (batched : new = List.range' p.dispatches.length (w.dispatches.length - p.dispatches.length)) :
      ProcessStep settings skew p (.claimEvents began choices)
        { p.withWebhooks w with dispatcher := if new = [] then .sleeping else .dispatching new }
  | claimEventsFailed (claiming : p.dispatcher = .claiming) :
      ProcessStep settings skew p .claimEventsFailed { p with dispatcher := .sleeping }
  | dispatched {k : Nat} {action : DispatchAction} {dispatch : Dispatch} {w : WebhookWorld}
      (found : p.dispatches[k]? = some dispatch) (underWay : dispatch.underWay = true)
      (stepped : p.webhooks.step settings (action.toWebhook k) = some w) :
      ProcessStep settings skew p (.dispatch k action) (p.withWebhooks w)
  | dispatchesFailed {ks : List Nat} (dispatching : p.dispatcher = .dispatching ks) :
      ProcessStep settings skew p .dispatchesFailed { p with dispatcher := .sleeping }
  | reported (running : p.report ≠ .ended) :
      ProcessStep settings skew p .resumeReport { p with report := .next p.stopping }
  | watched {stage : WatchStage} {idle : Bool} (watching : p.idleWatch = some stage)
      (running : stage ≠ .ended) :
      ProcessStep settings skew p (.resumeIdleWatch idle)
        { p with stopping := p.stopping || idle, idleWatch := some (.next p.stopping) }
  | invalidated {k : Nat} {transition : Transition}
      (found : p.invalidations[k]? = some ⟨transition, false⟩) :
      ProcessStep settings skew p (.invalidated k)
        { p with invalidations := p.invalidations.set k ⟨transition, true⟩ }
  | workerGathered (gathering : p.worker = .gathering)
      (done : ∀ stage ∈ p.loops, stage = LoopStage.ended) :
      ProcessStep settings skew p .workerGathered { p with worker := p.drain }
  | workerDrained {ks : List Nat} (draining : p.worker = .draining ks) (done : p.drained ks = true) :
      ProcessStep settings skew p .workerDrained { p with worker := .ended }
  | gathered (gathering : p.main = .gathering) (worker : p.worker = .ended)
      (others : p.OthersEnded) :
      ProcessStep settings skew p .gathered { p with main := p.drain }
  | drained {ks : List Nat} (draining : p.main = .draining ks) (done : p.drained ks = true) :
      ProcessStep settings skew p .drained { p with main := .ended }
  | outside {action : Action} {world : World} (allowed : p.allowsOutside action = true)
      (stepped : p.world.step settings skew action = some world) :
      ProcessStep settings skew p (.outside action) { p with world }
  | otherDispatchers {webhookOutbox : Outbox} :
      ProcessStep settings skew p (.otherDispatchers webhookOutbox) (p.writeOutbox webhookOutbox)

section

variable {settings : Settings} {skew : String → Time} {p p' : Process}

theorem Process.step_cases {action : ProcessAction}
    (stepped : p.step settings skew action = some p') :
    ProcessStep settings skew p action p' := by
  cases action with
  | stop =>
    cases stepped
    exact .stop
  | resumeLoop i =>
    simp only [Process.step, Option.ite_none_right_eq_some, Option.any_eq_true] at stepped
    obtain ⟨⟨stage, found, resumes⟩, checked⟩ := stepped
    unfold Process.checkLoop at checked
    split at checked
    · next stopping =>
      cases checked
      exact .loopEnded found resumes stopping
    · next goesOn =>
      obtain ⟨world, polled, rfl⟩ := Option.map_eq_some_iff.mp checked
      exact .polled found resumes (Bool.not_eq_true _ ▸ goesOn) rfl polled
  | claim i b began newToken choices =>
    simp only [Process.step] at stepped
    split at stepped
    · next batch found =>
      simp only [Option.ite_none_right_eq_some] at stepped
      obtain ⟨inWorld, claimed⟩ := stepped
      obtain ⟨world, moved, rfl⟩ := Option.map_eq_some_iff.mp claimed
      exact .claimed found inWorld moved rfl
    · cases stepped
  | claimFailed i =>
    simp only [Process.step] at stepped
    split at stepped
    · next batch found =>
      cases stepped
      exact .claimFailed found
    · cases stepped
  | task k action =>
    simp only [Process.step] at stepped
    split at stepped
    · cases stepped
    · next task found =>
      simp only [Option.ite_none_right_eq_some, Bool.and_eq_true, Bool.not_eq_true'] at stepped
      obtain ⟨⟨owned, own⟩, followed⟩ := stepped
      obtain ⟨world, stepped, rfl⟩ := Option.map_eq_some_iff.mp followed
      obtain ⟨same, task', db, keys, found', moved, rfl⟩ := World.step_task stepped
      cases found.symm.trans found'
      exact .task found owned own moved
  | resumeReaper =>
    simp only [Process.step, Option.ite_none_right_eq_some, Option.some.injEq] at stepped
    obtain ⟨resumes, rfl⟩ := stepped
    exact .reaperResumed resumes
  | reap began newEvent choices =>
    simp only [Process.step, Option.ite_none_right_eq_some] at stepped
    obtain ⟨reaping, reaped⟩ := stepped
    obtain ⟨world, moved, rfl⟩ := Option.map_eq_some_iff.mp reaped
    exact .reaped reaping moved
  | reapFailed =>
    simp only [Process.step, Option.ite_none_right_eq_some, Option.some.injEq] at stepped
    obtain ⟨reaping, rfl⟩ := stepped
    exact .reapFailed reaping
  | resumeDispatcher =>
    simp only [Process.step, Option.ite_none_right_eq_some, Option.some.injEq] at stepped
    obtain ⟨resumes, rfl⟩ := stepped
    exact .dispatcherResumed resumes
  | claimEvents began choices =>
    simp only [Process.step, Option.ite_none_right_eq_some] at stepped
    obtain ⟨claiming, claimed⟩ := stepped
    obtain ⟨w, moved, rfl⟩ := Option.map_eq_some_iff.mp claimed
    exact .claimedEvents claiming moved rfl
  | claimEventsFailed =>
    simp only [Process.step, Option.ite_none_right_eq_some, Option.some.injEq] at stepped
    obtain ⟨claiming, rfl⟩ := stepped
    exact .claimEventsFailed claiming
  | dispatch k action =>
    simp only [Process.step, Option.ite_none_right_eq_some, Option.any_eq_true] at stepped
    obtain ⟨⟨dispatch, found, underWay⟩, acted⟩ := stepped
    obtain ⟨w, moved, rfl⟩ := Option.map_eq_some_iff.mp acted
    exact .dispatched found underWay moved
  | dispatchesFailed =>
    simp only [Process.step] at stepped
    split at stepped
    · next ks dispatching =>
      simp only [Option.ite_none_right_eq_some, Option.some.injEq] at stepped
      obtain ⟨_, rfl⟩ := stepped
      exact .dispatchesFailed dispatching
    · cases stepped
  | resumeReport =>
    simp only [Process.step, Option.ite_none_right_eq_some, Option.some.injEq] at stepped
    obtain ⟨running, rfl⟩ := stepped
    exact .reported running
  | resumeIdleWatch idle =>
    simp only [Process.step] at stepped
    split at stepped
    · next stage watching =>
      simp only [Option.ite_none_right_eq_some, Option.some.injEq] at stepped
      obtain ⟨running, rfl⟩ := stepped
      exact .watched watching running
    · cases stepped
  | invalidated k =>
    simp only [Process.step] at stepped
    split at stepped
    · next transition found =>
      cases stepped
      exact .invalidated found
    · cases stepped
  | workerGathered =>
    simp only [Process.step, Option.ite_none_right_eq_some, Option.some.injEq] at stepped
    obtain ⟨⟨gathering, done⟩, rfl⟩ := stepped
    exact .workerGathered gathering done
  | workerDrained =>
    simp only [Process.step] at stepped
    split at stepped
    · next ks draining =>
      simp only [Option.ite_none_right_eq_some, Option.some.injEq] at stepped
      obtain ⟨done, rfl⟩ := stepped
      exact .workerDrained draining done
    · cases stepped
  | gathered =>
    simp only [Process.step, Option.ite_none_right_eq_some, Option.some.injEq] at stepped
    obtain ⟨⟨gathering, worker, others⟩, rfl⟩ := stepped
    exact .gathered gathering worker others
  | drained =>
    simp only [Process.step] at stepped
    split at stepped
    · next ks draining =>
      simp only [Option.ite_none_right_eq_some, Option.some.injEq] at stepped
      obtain ⟨done, rfl⟩ := stepped
      exact .drained draining done
    · cases stepped
  | outside action =>
    simp only [Process.step, Option.ite_none_right_eq_some] at stepped
    obtain ⟨allowed, acted⟩ := stepped
    obtain ⟨world, moved, rfl⟩ := Option.map_eq_some_iff.mp acted
    exact .outside allowed moved
  | otherDispatchers webhookOutbox =>
    cases stepped
    exact .otherDispatchers

/-! ## Frames -/

theorem Process.invalidate_eq (settings : Settings) (p : Process) (transitions : List Transition) :
    ∃ invalidations, p.invalidate settings transitions = { p with invalidations } := by
  unfold Process.invalidate
  split
  · exact ⟨_, rfl⟩
  · exact ⟨p.invalidations, rfl⟩

theorem Process.follow_eq (settings : Settings) (p : Process) (k : Nat) (task : Task)
    (moved : List Transition) (action : TaskAction) :
    ∃ invalidations owed, p.follow settings k task moved action = { p with invalidations, owed } := by
  unfold Process.follow
  split
  · obtain ⟨invalidations, same⟩ := p.invalidate_eq settings moved
    exact ⟨invalidations, p.owed, by rw [same]⟩
  · split
    · split
      · exact ⟨p.invalidations, _, rfl⟩
      · obtain ⟨invalidations, same⟩ := p.invalidate_eq settings moved
        exact ⟨invalidations, p.owed, by rw [same]⟩
    · exact ⟨p.invalidations, p.owed, rfl⟩
  · obtain ⟨invalidations, same⟩ := p.invalidate_eq settings (p.owed k)
    exact ⟨invalidations, Function.update p.owed k [], by rw [same]⟩
  · exact ⟨p.invalidations, p.owed, rfl⟩

theorem Process.owns_congr (named : p'.workerId = p.workerId)
    (loops : p'.loops.length = p.loops.length) (worker : String) :
    p'.owns worker = p.owns worker := by
  rw [Process.owns, Process.owns, named, loops]

theorem Process.owns_loopId {i : Nat} (inLoops : i < p.loops.length) :
    p.owns (loopId p.workerId i) = true := by
  simp only [Process.owns, List.any_eq_true, List.mem_range, decide_eq_true_eq]
  exact ⟨i, inLoops, rfl⟩

/-- A process keeps its loops and their ids. -/
theorem ProcessStep.identity {action : ProcessAction}
    (step : ProcessStep settings skew p action p') :
    p'.workerId = p.workerId ∧ p'.loops.length = p.loops.length := by
  cases step with
  | task _ _ _ _ =>
    obtain ⟨invalidations, owed, same⟩ := Process.follow_eq settings _ _ _ _ _
    rw [same]
    exact ⟨rfl, rfl⟩
  | reaped _ _ =>
    obtain ⟨invalidations, same⟩ := Process.invalidate_eq settings _ _
    rw [same]
    exact ⟨rfl, rfl⟩
  | loopEnded _ _ _ => simp
  | polled _ _ _ _ _ => simp
  | claimed _ _ _ _ => simp
  | claimFailed _ => simp
  | _ => exact ⟨rfl, rfl⟩

/-- The world of a process moves as the worker system does, or a dispatcher writes the outbox. -/
theorem ProcessStep.world {action : ProcessAction}
    (step : ProcessStep settings skew p action p') :
    p'.world = p.world ∨ (∃ act, p.world.step settings skew act = some p'.world) ∨
      ∃ webhookOutbox, p'.world = (p.writeOutbox webhookOutbox).world := by
  cases step with
  | polled _ _ _ _ stepped => exact .inr (.inl ⟨_, stepped⟩)
  | claimed _ _ stepped _ => exact .inr (.inl ⟨_, stepped⟩)
  | outside _ stepped => exact .inr (.inl ⟨_, stepped⟩)
  | otherDispatchers => exact .inr (.inr ⟨_, rfl⟩)
  | claimedEvents _ _ _ => exact .inr (.inr ⟨_, rfl⟩)
  | dispatched _ _ _ => exact .inr (.inr ⟨_, rfl⟩)
  | reaped _ stepped =>
    obtain ⟨invalidations, same⟩ := Process.invalidate_eq settings _ _
    rw [same]
    exact .inr (.inl ⟨_, stepped⟩)
  | @task k action _ _ _ _ found _ _ moved =>
    obtain ⟨invalidations, owed, same⟩ := Process.follow_eq settings _ _ _ _ _
    rw [same]
    exact .inr (.inl ⟨.task k action, by simp only [World.step, found, moved]⟩)
  | _ => exact .inl rfl

/-! ## Tasks and the loops that wait for them -/

/-- A task that has ended only hears from the provider. -/
theorem Task.running_of_step {w : World} {task task' : Task} {action : TaskAction} {db : Db}
    {keys : Keys} (moved : task.step settings skew w action = some (task', db, keys))
    (own : action.isProvider = false) : task.stage.hasEnded = false := by
  cases Task.step_cases moved with
  | decided _ _ => contradiction
  | crashed running =>
    cases stage : task.stage with
    | ended ending => exact absurd stage (running ending)
    | _ => rfl
  | _ => simp_all [Stage.hasEnded]

/-- The provider's decision leaves a task where it is. -/
theorem TaskStep.stage_of_provider {w : World} {task task' : Task} {action : TaskAction} {db : Db}
    {keys : Keys} (step : TaskStep settings skew w task action (task', db, keys))
    (provider : action.isProvider = true) : task'.stage = task.stage := by
  cases step with
  | decided _ _ => rfl
  | _ => contradiction

structure Tracked (p : Process) : Prop where
  named : ∀ (i : Nat) (batch : Batch), p.loops[i]? = some (.claiming batch) →
    batch.worker = loopId p.workerId i
  tasks : ∀ (k : Nat) (task : Task), p.world.tasks[k]? = some task → p.owns task.worker = true →
    task.stage.hasEnded = true ∨
      ∃ (i : Nat) (ts : List Nat), p.loops[i]? = some (.processing ts) ∧ k ∈ ts

/-- One loop moves on, and perhaps the world with it. -/
theorem Tracked.set_loop (tracked : Tracked p) {i : Nat} {stage' : LoopStage} {world : World}
    (inLoops : i < p.loops.length)
    (named : ∀ batch, stage' = .claiming batch → batch.worker = loopId p.workerId i)
    (tasks : ∀ (k : Nat) (task : Task), world.tasks[k]? = some task → p.owns task.worker = true →
      task.stage.hasEnded = true ∨
        (∃ (i' : Nat) (ts : List Nat), i' ≠ i ∧ p.loops[i']? = some (.processing ts) ∧ k ∈ ts) ∨
        ∃ ts, stage' = .processing ts ∧ k ∈ ts) :
    Tracked { p with world, loops := p.loops.set i stage' } := by
  have owns : ∀ worker, Process.owns { p with world, loops := p.loops.set i stage' } worker =
      p.owns worker := Process.owns_congr rfl (by simp)
  constructor
  · intro i' batch claims
    by_cases same : i = i'
    · subst same
      rw [List.getElem?_set_self inLoops] at claims
      exact named batch (Option.some.inj claims)
    · rw [List.getElem?_set_ne same] at claims
      exact tracked.named i' batch claims
  · intro k task found owned
    rw [owns] at owned
    obtain ended | ⟨i', ts, other, waits, member⟩ | ⟨ts, new, member⟩ := tasks k task found owned
    · exact .inl ended
    · exact .inr ⟨i', ts, by rw [List.getElem?_set_ne (Ne.symm other), waits], member⟩
    · exact .inr ⟨i, ts, by rw [List.getElem?_set_self inLoops, new], member⟩

/-- A loop that waits for no running task moves on. -/
theorem Tracked.leave_loop (tracked : Tracked p) {i : Nat} {stage stage' : LoopStage} {world : World}
    (found : p.loops[i]? = some stage)
    (named : ∀ batch, stage' = .claiming batch → batch.worker = loopId p.workerId i)
    (same : world.tasks = p.world.tasks)
    (left : ∀ ts, stage = .processing ts → ∀ k ∈ ts, p.world.hasEnded k = true) :
    Tracked { p with world, loops := p.loops.set i stage' } := by
  refine tracked.set_loop (List.getElem?_eq_some_iff.mp found).1 named ?_
  intro k task inTasks owned
  rw [same] at inTasks
  cases tracked.tasks k task inTasks owned with
  | inl ended => exact .inl ended
  | inr waits =>
    obtain ⟨i', ts, waits, member⟩ := waits
    by_cases here : i' = i
    · subst here
      have ended := left ts (Option.some.inj (found.symm.trans waits)) k member
      exact .inl (by simpa only [World.hasEnded, inTasks, Option.any_some] using ended)
    · exact .inr (.inl ⟨i', ts, here, waits, member⟩)

theorem Process.ended_of_resumable {stage : LoopStage} (resumes : p.resumable stage = true) :
    ∀ ts, stage = .processing ts → ∀ k ∈ ts, p.world.hasEnded k = true := by
  rintro ts rfl k member
  exact List.all_eq_true.mp resumes k member

/-- What others do makes no task for this process and moves none of its tasks. -/
theorem Tracked.outside_step (tracked : Tracked p) {action : Action} {world : World}
    (allowed : p.allowsOutside action = true)
    (stepped : p.world.step settings skew action = some world) : Tracked { p with world } := by
  refine ⟨tracked.named, ?_⟩
  intro k task found owned
  have owned : p.owns task.worker = true := owned
  cases (World.step_cases stepped).origin found with
  | kept found _ => exact tracked.tasks k task found owned
  | @moved taskAction before label found moved _ =>
    subst label
    have worker : task.worker = before.worker := moved.identity.1
    have provider : taskAction.isProvider = true := by
      simp only [Process.allowsOutside, found, Option.all_some, Bool.or_eq_true,
        Bool.not_eq_true'] at allowed
      cases allowed with
      | inl provider => exact provider
      | inr foreign =>
        rw [worker, foreign] at owned
        contradiction
    rw [moved.stage_of_provider provider]
    exact tracked.tasks k before found (worker ▸ owned)
  | claimed label _ inWorld _ _ _ _ _ new =>
    subst label new
    simp only [Process.allowsOutside, inWorld, Option.all_some, Bool.not_eq_true'] at allowed
    rw [allowed] at owned
    contradiction

theorem Tracked.claim_step (tracked : Tracked p) {i b : Nat} {batch : Batch} {began : Time}
    {newToken : JobId → ClaimToken} {choices : Choices} {world : World} {tasks : List Nat}
    (found : p.loops[i]? = some (.claiming batch))
    (stepped : p.world.step settings skew (.claim b began newToken choices) = some world)
    (batched : tasks = List.range' p.world.tasks.length
      (world.tasks.length - p.world.tasks.length)) :
    Tracked { p with
      world, loops := p.loops.set i (if tasks = [] then .sleeping else .processing tasks) } := by
  apply tracked.set_loop (List.getElem?_eq_some_iff.mp found).1
  · intro batch claims
    split at claims <;> cases claims
  · intro k task inTasks owned
    by_cases old : k < p.world.tasks.length
    · -- the tasks of before are waited for by other loops
      have inTasks' : p.world.tasks[k]? = some task := by
        cases World.step_cases stepped with
        | claim _ _ _ _ => rwa [List.getElem?_append_left old] at inTasks
      cases tracked.tasks k task inTasks' owned with
      | inl ended => exact .inl ended
      | inr waits =>
        obtain ⟨i', ts, waits, member⟩ := waits
        refine .inr (.inl ⟨i', ts, ?_, waits, member⟩)
        rintro rfl
        cases found.symm.trans waits
    · have inBounds : k < world.tasks.length := (List.getElem?_eq_some_iff.mp inTasks).1
      have member : k ∈ tasks := by
        rw [batched, List.mem_range'_1]
        omega
      refine .inr (.inr ⟨tasks, ?_, member⟩)
      rw [if_neg (List.ne_nil_of_mem member)]

theorem Tracked.task_step (tracked : Tracked p) {k : Nat} {action : TaskAction} {task task' : Task}
    {db : Db} {keys : Keys} (found : p.world.tasks[k]? = some task)
    (own : action.isProvider = false)
    (moved : task.step settings skew p.world action = some (task', db, keys)) :
    Tracked { p with world := { p.world with db, keys, tasks := p.world.tasks.set k task' } } := by
  refine ⟨tracked.named, ?_⟩
  intro k' other found' owned
  by_cases same : k = k'
  · subst same
    have inBounds : k < p.world.tasks.length := (List.getElem?_eq_some_iff.mp found).1
    rw [List.getElem?_set_self inBounds, Option.some.injEq] at found'
    subst found'
    have worker : task'.worker = task.worker := (Task.step_cases moved).identity.1
    cases tracked.tasks k task found (worker ▸ owned) with
    | inl ended =>
      rw [Task.running_of_step moved own] at ended
      contradiction
    | inr waits => exact .inr waits
  · rw [List.getElem?_set_ne same] at found'
    exact tracked.tasks k' other found' owned

theorem Tracked.step {action : ProcessAction} (tracked : Tracked p)
    (step : ProcessStep settings skew p action p') : Tracked p' := by
  cases step with
  | loopEnded found resumes _ =>
    exact tracked.leave_loop found (fun _ claims => by cases claims) rfl
      (Process.ended_of_resumable resumes)
  | polled found resumes _ new stepped =>
    apply tracked.leave_loop found ?_ ?_ (Process.ended_of_resumable resumes)
    · intro batch claims
      cases claims
      rw [new]
    · cases stepped
      rfl
  | claimed found _ stepped batched => exact tracked.claim_step found stepped batched
  | claimFailed found =>
    exact tracked.leave_loop found (fun _ claims => by cases claims) rfl
      (fun ts waits => by cases waits)
  | task found _ own moved =>
    obtain ⟨invalidations, owed, same⟩ := Process.follow_eq settings _ _ _ _ _
    rw [same]
    exact ⟨(tracked.task_step found own moved).named, (tracked.task_step found own moved).tasks⟩
  | reaped _ stepped =>
    obtain ⟨invalidations, same⟩ := Process.invalidate_eq settings _ _
    rw [same]
    have moved : Tracked { p with world := _ } := tracked.outside_step rfl stepped
    exact ⟨moved.named, moved.tasks⟩
  | outside allowed stepped => exact tracked.outside_step allowed stepped
  | _ => exact ⟨tracked.named, tracked.tasks⟩

end

end NotifyQueue
