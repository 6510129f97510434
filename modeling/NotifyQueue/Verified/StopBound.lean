import Mathlib.Algebra.Order.BigOperators.Group.List
import NotifyQueue.Verified.ClaimOrder
import NotifyQueue.Verified.GracefulStop
import NotifyQueue.Verified.ReaperPasses
import NotifyQueue.Verified.WebhookSteps

/-! # A stop comes to its end

`Process.remaining` counts the awaits that a stopping process has ahead of it.  Every step of
the process uses up one of them, and nothing that others do adds to it; as long as the process
has not returned, one of its awaits can end in the ordinary way. -/

namespace NotifyQueue

open Runs

/-! ## Counting awaits -/

/-- The awaits of `_deliver` from a stage on, with the invalidation that it may start. -/
def Stage.remaining : Stage → Nat
  | .acquiring => 8
  | .admitted => 7
  | .sending _ => 6
  | .recording _ _ => 5
  | .committing _ _ => 4
  | .returning _ _ => 4
  | .releasing => 2
  | .ended _ => 0

def World.remaining (w : World) (k : Nat) : Nat :=
  (w.tasks[k]?.map fun task => task.stage.remaining).getD 0

def LoopStage.remaining (settings : Settings) (w : World) : LoopStage → Nat
  | .starting => 1
  | .sleeping => 1
  | .claiming _ => 8 * settings.batchSize + 2
  | .processing tasks => 1 + (tasks.map w.remaining).sum
  | .ended => 0

def ReaperStage.remaining (settings : Settings) : ReaperStage → Nat
  | .starting => 1
  | .sleeping => 1
  | .reaping => settings.reaperBatchSize + 2
  | .ended => 0

/-- The awaits of `_dispatch`. -/
def DispatchStage.remaining : DispatchStage → Nat
  | .posting => 2
  | .recording _ _ => 1
  | .recorded => 0
  | .abandoned => 0

/-- What the dispatcher has ahead of it, with the dispatches that it may start. -/
def DispatcherStage.remaining (settings : Settings) : DispatcherStage → Nat
  | .starting => 1
  | .sleeping => 1
  | .claiming => 2 * settings.webhookBatchSize + 3
  | .dispatching _ => 2
  | .ended => 0

def WatchStage.remaining : WatchStage → Nat
  | .starting => 1
  | .sleeping => 1
  | .ended => 0

def GatherStage.remaining : GatherStage → Nat
  | .gathering => 2
  | .draining _ => 1
  | .ended => 0

namespace Process

variable (settings : Settings) (p : Process)

/-- The invalidations that have not ended. -/
def unfinished : Nat := p.invalidations.countP fun invalidation => !invalidation.ended

def loopsRemaining (w : World) : Nat := (p.loops.map (LoopStage.remaining settings w)).sum

def dispatchesRemaining : Nat := (p.dispatches.map fun dispatch => dispatch.stage.remaining).sum

/-- The dispatches that have not ended. -/
def underWay : Nat := p.dispatches.countP Dispatch.underWay

def watchRemaining : Nat := (p.idleWatch.map WatchStage.remaining).getD 0

/-- What runs beside the loops and the tasks that were started. -/
def stagesRemaining : Nat :=
  p.reaper.remaining settings + p.dispatcher.remaining settings + p.report.remaining +
    p.watchRemaining + p.worker.remaining + p.main.remaining

def remaining : Nat :=
  p.loopsRemaining settings p.world + p.unfinished + p.dispatchesRemaining +
    p.stagesRemaining settings

end Process

/-- What the process does itself, once the stop has come. -/
def ProcessAction.isOwn : ProcessAction → Bool
  | .stop => false
  | .outside _ => false
  | .otherDispatchers _ => false
  | _ => true

/-- A sum that is nowhere larger, and smaller by `d` at one place. -/
theorem sum_map_add_le {α : Type} {f g : α → Nat} {items : List α} {d : Nat}
    (le : ∀ a ∈ items, g a ≤ f a) {a : α} (member : a ∈ items) (smaller : g a + d ≤ f a) :
    (items.map g).sum + d ≤ (items.map f).sum := by
  induction items with
  | nil => cases member
  | cons first items inductionHypothesis =>
    simp only [List.map_cons, List.sum_cons]
    have leTail : ∀ a ∈ items, g a ≤ f a := fun a member => le a (List.mem_cons_of_mem _ member)
    have rest : (items.map g).sum ≤ (items.map f).sum := List.sum_le_sum leTail
    have head := le first List.mem_cons_self
    cases member with
    | head => omega
    | tail _ member =>
      have tail := inductionHypothesis leTail member
      omega

/-- A sum in which one item was replaced. -/
theorem sum_map_set {α : Type} (f : α → Nat) {items : List α} {i : Nat} {old : α} (new : α)
    (found : items[i]? = some old) :
    ((items.set i new).map f).sum + f old = (items.map f).sum + f new := by
  induction items generalizing i with
  | nil => cases found
  | cons first items inductionHypothesis =>
    cases i with
    | zero =>
      cases found
      simp only [List.set_cons_zero, List.map_cons, List.sum_cons]
      omega
    | succ i =>
      have rest := inductionHypothesis found
      simp only [List.set_cons_succ, List.map_cons, List.sum_cons]
      omega

section

variable {settings : Settings} {skew : String → Time} {p p' : Process}

/-! ## The steps of a task -/

/-- Each step of a task uses up an await. -/
theorem Task.remaining_of_step {w : World} {task task' : Task} {action : TaskAction} {db : Db}
    {keys : Keys} (moved : task.step settings skew w action = some (task', db, keys))
    (own : action.isProvider = false) :
    task'.stage.remaining + 1 ≤ task.stage.remaining := by
  cases Task.step_cases moved with
  | decided _ _ => contradiction
  | crashed running =>
    have runs := Task.running_of_step moved own
    cases stage : task.stage <;> simp_all [Task.to, Stage.remaining, Stage.hasEnded]
  | returned stage _ _ => rw [stage]; simp only [Task.to]; split <;> simp [Stage.remaining]
  | recorded stage _ _ _ => rw [stage]; simp only [Task.to]; split <;> simp [Stage.remaining]
  | _ => simp_all [Task.to, Stage.remaining]

/-- A task commits at most one transition in a step. -/
theorem Task.transitions_length (settings : Settings) (w : World) (task : Task) (action : TaskAction) :
    (task.transitions settings w action).length ≤ 1 := by
  have one : ∀ result : Option Transition, result.toList.length ≤ 1 := by
    intro result
    cases result <;> simp
  cases action with
  | returnUnsent began =>
    cases stage : task.stage with
    | returning delaySeconds givesBack =>
      simp only [Task.transitions, stage, commit_returnToQueue]
      exact one _
    | _ => simp [Task.transitions, stage]
  | finalize began eventId draw =>
    cases stage : task.stage with
    | committing result since =>
      cases records : task.recordOp settings result eventId draw with
      | none => simp [Task.transitions, stage, records]
      | some op =>
        cases committed : op.commit began w.db with
        | mk answer db' =>
          simp only [Task.transitions, stage, records, committed]
          cases finalized_of_presents (recordOp_presents records) committed with
          | _ => simp [Answer.transitions]
    | _ => simp [Task.transitions, stage]
  | _ => simp [Task.transitions]

theorem Process.unfinished_invalidate (settings : Settings) (p : Process)
    (transitions : List Transition) :
    (p.invalidate settings transitions).unfinished ≤ p.unfinished + transitions.length := by
  unfold Process.invalidate
  split
  · have new : (transitions.map fun t => (⟨t, false⟩ : Invalidation)).countP
        (fun invalidation => !invalidation.ended) ≤ transitions.length := by
      simpa using List.countP_le_length (p := fun invalidation : Invalidation => !invalidation.ended)
        (l := transitions.map fun t => ⟨t, false⟩)
    simp only [Process.unfinished, List.countP_append]
    omega
  · simp

/-- What a step of a task starts in the `CacheInvalidator` was part of what the task had ahead of
    it. -/
theorem Process.follow_spends (settings : Settings) {w : World} {task task' : Task}
    {action : TaskAction} {db : Db} {keys : Keys} {k : Nat} (owed : (p.owed k).length ≤ 1)
    (moved : task.step settings skew w action = some (task', db, keys))
    (own : action.isProvider = false) :
    ∃ handed, task'.stage.remaining + (handed + 1) ≤ task.stage.remaining ∧
      (p.follow settings k task (task.transitions settings w action) action).unfinished ≤
        p.unfinished + handed := by
  have length := task.transitions_length settings w action
  have invalidated := p.unfinished_invalidate settings (task.transitions settings w action)
  have spends := Task.remaining_of_step moved own
  cases Task.step_cases moved with
  | @returned began delaySeconds givesBack t db stage past committed =>
    refine ⟨1, ?_, by simp only [Process.follow]; omega⟩
    rw [stage]
    cases givesBack <;> simp [Task.to, Stage.remaining]
  | returnLost stage =>
    refine ⟨1, by simp [stage, Task.to, Stage.remaining], ?_⟩
    simp only [Process.follow]
    omega
  | @recorded result since began eventId draw op t db stage past records committed =>
    refine ⟨1, ?_, ?_⟩
    · rw [stage]
      simp only [Task.to]
      split <;> simp [Stage.remaining]
    · simp only [Process.follow, stage]
      split
      · exact Nat.le_add_right _ _
      · omega
  | recordLost stage _ _ =>
    refine ⟨1, by simp [stage, Task.to, Stage.remaining], ?_⟩
    simp only [Process.follow, stage]
    split
    · exact Nat.le_add_right _ _
    · omega
  | recordRaised stage =>
    refine ⟨1, by simp [stage, Task.to, Stage.remaining], ?_⟩
    simp only [Process.follow, stage]
    split
    · exact Nat.le_add_right _ _
    · omega
  | released reachable stage =>
    have handed := p.unfinished_invalidate settings (p.owed k)
    refine ⟨1, by simp [stage, Task.to, Stage.remaining], ?_⟩
    have same : (p.follow settings k task (task.transitions settings w (.release reachable))
        (.release reachable)).unfinished = (p.invalidate settings (p.owed k)).unfinished := rfl
    omega
  | _ => exact ⟨0, spends, le_rfl⟩

/-! ## What the loops wait for -/

/-- The loop's batch can be claimed, and its tasks are its own. -/
def LoopStage.Backed (settings : Settings) (p : Process) : LoopStage → Prop
  | .claiming batch => batch ∈ p.world.batches ∧ batch.polledAt ≤ p.world.now
  | .processing tasks => tasks.length ≤ settings.batchSize ∧
      ∀ k ∈ tasks, ∃ task, p.world.tasks[k]? = some task ∧ p.owns task.worker = true
  | _ => True

structure Backed (settings : Settings) (p : Process) : Prop where
  loops : ∀ (i : Nat) (stage : LoopStage), p.loops[i]? = some stage → stage.Backed settings p
  owed : ∀ k, (p.owed k).length ≤ 1

/-- The tasks of the process are where they were. -/
def KeepsTasks (p : Process) (world : World) : Prop :=
  ∀ (k : Nat) (task : Task), p.world.tasks[k]? = some task → p.owns task.worker = true →
    ∃ task', world.tasks[k]? = some task' ∧ task'.worker = task.worker

theorem LoopStage.Backed.kept {stage : LoopStage} (backed : stage.Backed settings p)
    (owns : ∀ worker, p'.owns worker = p.owns worker)
    (batches : ∀ batch, stage = .claiming batch → batch ∈ p.world.batches → batch ∈ p'.world.batches)
    (now : p.world.now ≤ p'.world.now) (tasks : KeepsTasks p p'.world) :
    stage.Backed settings p' := by
  cases stage with
  | claiming batch => exact ⟨batches batch rfl backed.1, backed.2.trans now⟩
  | processing ts =>
    refine ⟨backed.1, fun k member => ?_⟩
    obtain ⟨task, found, owned⟩ := backed.2 k member
    obtain ⟨task', found', worker⟩ := tasks k task found owned
    exact ⟨task', found', by rw [owns, worker, owned]⟩
  | _ => trivial

/-- A loop moves on while the world stands still. -/
theorem Backed.set_loop (backed : Backed settings p) (i : Nat) {stage : LoopStage}
    (idle : stage = .ended ∨ stage = .sleeping) :
    Backed settings { p with loops := p.loops.set i stage } := by
  refine ⟨fun i' stage' found => ?_, backed.owed⟩
  have owns : ∀ worker, Process.owns { p with loops := p.loops.set i stage } worker =
      p.owns worker := Process.owns_congr rfl (by simp)
  cases List.mem_or_eq_of_mem_set (List.mem_of_getElem? found) with
  | inl old =>
    obtain ⟨i', found'⟩ := List.mem_iff_getElem?.mp old
    exact (backed.loops i' stage' found').kept owns (fun _ _ member => member) le_rfl
      (fun k task inTasks _ => ⟨task, inTasks, rfl⟩)
  | inr new =>
    subst new
    cases idle with
    | inl ended => subst ended; trivial
    | inr sleeping => subst sleeping; trivial

theorem loopId_injective {workerId : String} {i i' : Nat}
    (same : loopId workerId i = loopId workerId i') :
    i = i' := by
  apply Texts.repr_injective
  have texts := congrArg String.toList same
  have digits : Nat.toDigits 10 i = Nat.toDigits 10 i' := by simpa [loopId] using texts
  exact String.toList_inj.mp (by rw [Nat.toList_repr, Nat.toList_repr, digits])

/-- A batch stays until it is claimed. -/
theorem World.batch_kept {w w' : World} {action : Action} {batch : Batch}
    (stepped : w.step settings skew action = some w') (member : batch ∈ w.batches)
    (other : ∀ b began newToken choices, action = .claim b began newToken choices →
      w.batches[b]? ≠ some batch) : batch ∈ w'.batches := by
  cases World.step_cases stepped with
  | poll worker => exact List.mem_append_left _ member
  | @claim b claimed began newToken choices jobs db found _ _ _ =>
    obtain ⟨b', found'⟩ := List.mem_iff_getElem?.mp member
    refine List.mem_eraseIdx_iff_getElem?.mpr ⟨b', ?_, found'⟩
    rintro rfl
    exact other b' began newToken choices rfl found'
  | _ => exact member

theorem KeepsTasks.of_outside {action : Action} {world : World}
    (allowed : p.allowsOutside action = true)
    (stepped : p.world.step settings skew action = some world) : KeepsTasks p world := by
  intro k task found owned
  obtain ⟨task', found', worker, _⟩ := Process.outside_task allowed stepped found owned
  exact ⟨task', found', worker⟩

/-- What others do leaves the loops their batches. -/
theorem Backed.outside_step (backed : Backed settings p) (tracked : Tracked p) {action : Action}
    {world : World} (allowed : p.allowsOutside action = true)
    (stepped : p.world.step settings skew action = some world) :
    Backed settings { p with world } := by
  refine ⟨fun i stage found => ?_, backed.owed⟩
  refine (backed.loops i stage found).kept (by intro _; rfl) ?_ (World.step_cases stepped).now_le
    (KeepsTasks.of_outside allowed stepped)
  intro batch claims member
  subst claims
  apply World.batch_kept stepped member
  intro b began newToken choices label inWorld
  subst label
  -- others do not claim the batch of a loop of this process
  have owned : p.owns batch.worker = true := by
    rw [tracked.named i batch found]
    exact Process.owns_loopId (List.getElem?_eq_some_iff.mp found).1
  simp [Process.allowsOutside, inWorld, owned] at allowed

/-- A claim makes no more tasks than the batch has room for. -/
theorem World.tasks_of_claim {w w' : World} {b : Nat} {batch : Batch} {began : Time}
    {newToken : JobId → ClaimToken} {choices : Choices} (found : w.batches[b]? = some batch)
    (stepped : w.step settings skew (.claim b began newToken choices) = some w') :
    ∃ new, w'.tasks = w.tasks ++ new ∧ new.length ≤ settings.batchSize ∧
      ∀ task ∈ new, task.worker = batch.worker ∧ task.stage = .acquiring := by
  cases World.step_cases stepped with
  | @claim _ claimed _ _ _ jobs db found' _ _ ran =>
    obtain rfl : batch = claimed := Option.some.inj (found.symm.trans found')
    refine ⟨_, rfl, ?_, ?_⟩
    · have atMost := (claimsInOrder ran).count
      have made : (newTasks batch.worker batch.leaseDeadline jobs).length ≤ jobs.length :=
        List.length_filterMap_le _ _
      omega
    · intro task member
      simp only [newTasks, List.mem_filterMap, Option.map_eq_some_iff] at member
      obtain ⟨job, _, claimToken, _, rfl⟩ := member
      exact ⟨rfl, rfl⟩

theorem Backed.claim_step (backed : Backed settings p) (tracked : Tracked p) {i b : Nat}
    {batch : Batch} {began : Time} {newToken : JobId → ClaimToken} {choices : Choices}
    {world : World} {tasks : List Nat} (found : p.loops[i]? = some (.claiming batch))
    (inWorld : p.world.batches[b]? = some batch)
    (stepped : p.world.step settings skew (.claim b began newToken choices) = some world)
    (batched : tasks = List.range' p.world.tasks.length
      (world.tasks.length - p.world.tasks.length)) :
    Backed settings { p with
      world, loops := p.loops.set i (if tasks = [] then .sleeping else .processing tasks) } := by
  have inLoops : i < p.loops.length := (List.getElem?_eq_some_iff.mp found).1
  obtain ⟨new, appended, atMost, fresh⟩ := World.tasks_of_claim inWorld stepped
  have count : world.tasks.length - p.world.tasks.length = new.length := by
    rw [appended, List.length_append]
    omega
  have owns : ∀ stage worker, Process.owns { p with world, loops := p.loops.set i stage } worker =
      p.owns worker := fun _ => Process.owns_congr rfl (by simp)
  refine ⟨fun i' stage found' => ?_, backed.owed⟩
  by_cases same : i = i'
  · subst same
    rw [List.getElem?_set_self inLoops, Option.some.injEq] at found'
    subst found'
    split
    · trivial
    · refine ⟨by rw [batched, List.length_range', count]; exact atMost, fun k member => ?_⟩
      rw [batched, List.mem_range'_1, count] at member
      have late : p.world.tasks.length ≤ k := member.1
      have inNew : k - p.world.tasks.length < new.length := by omega
      refine ⟨new[k - p.world.tasks.length], ?_, ?_⟩
      · show world.tasks[k]? = _
        rw [appended, List.getElem?_append_right late, List.getElem?_eq_getElem inNew]
      · have owned : p.owns new[k - p.world.tasks.length].worker = true := by
          rw [(fresh _ (List.getElem_mem inNew)).1, tracked.named i batch found,
            Process.owns_loopId inLoops]
        rw [owns, owned]
  · rw [List.getElem?_set_ne same] at found'
    apply (backed.loops i' stage found').kept (owns _) ?_ (World.step_cases stepped).now_le ?_
    · intro other claims member
      subst claims
      apply World.batch_kept stepped member
      intro b' _ _ _ label inWorld'
      cases label
      -- two loops do not share a batch
      obtain rfl : batch = other := Option.some.inj (inWorld.symm.trans inWorld')
      have names := (tracked.named i batch found).symm.trans (tracked.named i' batch found')
      exact same (loopId_injective names)
    · intro k task inTasks _
      refine ⟨task, ?_, rfl⟩
      show world.tasks[k]? = some task
      rw [appended, List.getElem?_append_left (List.getElem?_eq_some_iff.mp inTasks).1, inTasks]

theorem Process.follow_owed (settings : Settings) {k : Nat} {task : Task}
    {w : World} {action : TaskAction} (owed : ∀ k, (p.owed k).length ≤ 1) (other : Nat) :
    ((p.follow settings k task (task.transitions settings w action) action).owed other).length ≤ 1 := by
  by_cases same : other = k
  · subst same
    unfold Process.follow
    split
    · simpa using owed other
    · split
      · split
        · simpa using task.transitions_length settings w _
        · simpa using owed other
      · exact owed other
    · simp
    · exact owed other
  · rw [Process.follow_owed_other same]
    exact owed other

theorem Backed.task_step (backed : Backed settings p) {k : Nat} {action : TaskAction}
    {task task' : Task} {db : Db} {keys : Keys} (found : p.world.tasks[k]? = some task)
    (moved : task.step settings skew p.world action = some (task', db, keys)) :
    Backed settings ({ p with world := { p.world with
        db, keys, tasks := p.world.tasks.set k task' } }.follow settings k task
      (task.transitions settings p.world action) action) := by
  have inBounds : k < p.world.tasks.length := (List.getElem?_eq_some_iff.mp found).1
  obtain ⟨invalidations, owed', same⟩ := Process.follow_eq settings
    { p with world := { p.world with db, keys, tasks := p.world.tasks.set k task' } } k task
    (task.transitions settings p.world action) action
  refine ⟨fun i stage inLoops => ?_, Process.follow_owed settings backed.owed⟩
  rw [same] at inLoops ⊢
  refine (backed.loops i stage inLoops).kept (by intro _; rfl) (by intro _ _ member; exact member)
    le_rfl ?_
  intro k' other found' _
  by_cases here : k = k'
  · subst here
    obtain rfl : task = other := Option.some.inj (found.symm.trans found')
    exact ⟨task', List.getElem?_set_self inBounds, (Task.step_cases moved).identity.1⟩
  · exact ⟨other, by simpa only [List.getElem?_set_ne here] using found', rfl⟩

theorem Backed.step {action : ProcessAction} (backed : Backed settings p) (tracked : Tracked p)
    (step : ProcessStep settings skew p action p') : Backed settings p' := by
  cases step with
  | loopEnded _ _ _ => exact backed.set_loop _ (.inl rfl)
  | claimFailed _ => exact backed.set_loop _ (.inr rfl)
  | @polled i stage batch world found _ _ new stepped =>
    have inLoops : i < p.loops.length := (List.getElem?_eq_some_iff.mp found).1
    have owns : ∀ worker, Process.owns { p with world, loops := p.loops.set i (.claiming batch) }
        worker = p.owns worker := Process.owns_congr rfl (by simp)
    refine ⟨fun i' stage' found' => ?_, backed.owed⟩
    by_cases same : i = i'
    · subst same
      rw [List.getElem?_set_self inLoops, Option.some.injEq] at found'
      subst found' new
      cases stepped
      exact ⟨List.mem_append_right _ (List.mem_singleton_self _), le_rfl⟩
    · rw [List.getElem?_set_ne same] at found'
      apply (backed.loops i' stage' found').kept owns ?_ (World.step_cases stepped).now_le ?_
      · exact fun _ _ member => World.batch_kept stepped member (fun _ _ _ _ label => by cases label)
      · cases stepped
        exact fun k task inTasks _ => ⟨task, inTasks, rfl⟩
  | claimed found inWorld stepped batched =>
    exact backed.claim_step tracked found inWorld stepped batched
  | task found _ _ moved => exact backed.task_step found moved
  | reaped _ stepped =>
    obtain ⟨invalidations, same⟩ := Process.invalidate_eq settings _ _
    rw [same]
    have moved := backed.outside_step tracked rfl stepped
    exact ⟨moved.loops, moved.owed⟩
  | outside allowed stepped => exact backed.outside_step tracked allowed stepped
  | _ => exact ⟨backed.loops, backed.owed⟩

/-! ## Dispatches -/

/-- The dispatcher's batch is among the dispatches, and what they record can be recorded now. -/
structure Hooked (p : Process) : Prop where
  batch : ∀ ks, p.dispatcher = .dispatching ks → ∀ k ∈ ks, k < p.dispatches.length
  recording : ∀ dispatch ∈ p.dispatches, ∀ error since,
    dispatch.stage = .recording error since → since ≤ p.world.now

/-- A step of a dispatch uses up one of its awaits. -/
theorem dispatch_spends {w w' : WebhookWorld} {k : Nat} {action : DispatchAction} {dispatch : Dispatch}
    (found : w.dispatches[k]? = some dispatch) (underWay : dispatch.underWay = true)
    (stepped : w.step settings (action.toWebhook k) = some w') :
    ∃ stage, w'.dispatches = w.dispatches.set k (dispatch.to stage) ∧
      stage.remaining + 1 ≤ dispatch.stage.remaining ∧
      ∀ error since, stage = .recording error since → since ≤ w.now := by
  cases action with
  | endPost result =>
    simp only [DispatchAction.toWebhook, WebhookWorld.step, found, Option.ite_none_right_eq_some,
      Option.some.injEq] at stepped
    obtain ⟨posting, rfl⟩ := stepped
    refine ⟨_, rfl, ?_, ?_⟩
    · rw [posting]
      split <;> simp [DispatchStage.remaining]
    · intro error since stage
      split at stage <;> cases stage
      exact le_rfl
  | record began draw =>
    simp only [DispatchAction.toWebhook, WebhookWorld.step, found] at stepped
    split at stepped
    · next error since stage =>
      simp only [Option.ite_none_right_eq_some, Option.some.injEq] at stepped
      obtain ⟨_, rfl⟩ := stepped
      -- a delay that overflows ends the dispatch as well
      unfold WebhookWorld.record
      split
      · exact ⟨.recorded, rfl, by simp [stage, DispatchStage.remaining], by simp⟩
      · exact ⟨.abandoned, rfl, by simp [stage, DispatchStage.remaining], by simp⟩
    · cases stepped
  | abandon =>
    simp only [DispatchAction.toWebhook, WebhookWorld.step, found, Option.ite_none_left_eq_some,
      Option.some.injEq] at stepped
    obtain ⟨_, rfl⟩ := stepped
    refine ⟨.abandoned, rfl, ?_, by simp⟩
    cases stage : dispatch.stage <;> simp_all [Dispatch.underWay, DispatchStage.remaining]

/-- A claim adds no more dispatches than the batch has room for. -/
theorem dispatches_of_claim {w w' : WebhookWorld} {began : Time} {choices : OutboxChoices}
    (stepped : w.step settings (.claim began choices) = some w') :
    ∃ new : List Dispatch, w'.dispatches = w.dispatches ++ new ∧
      new.length ≤ settings.webhookBatchSize ∧ ∀ dispatch ∈ new, dispatch.stage = .posting := by
  simp only [WebhookWorld.step, Option.ite_none_right_eq_some, Option.some.injEq] at stepped
  obtain ⟨_, rfl⟩ := stepped
  refine ⟨_, rfl, ?_, ?_⟩
  · have atMost := @length_claimedIds_le settings w began choices
    simpa [claimedIds] using atMost
  · intro dispatch member
    obtain ⟨event, _, rfl⟩ := List.mem_map.mp member
    rfl

theorem Hooked.kept (hooked : Hooked p) (dispatcher : p'.dispatcher = p.dispatcher)
    (dispatches : p'.dispatches = p.dispatches) (now : p.world.now ≤ p'.world.now) : Hooked p' := by
  constructor
  · rw [dispatcher, dispatches]
    exact hooked.batch
  · rw [dispatches]
    exact fun dispatch member error since stage =>
      (hooked.recording dispatch member error since stage).trans now

theorem ProcessStep.now_le {action : ProcessAction} (step : ProcessStep settings skew p action p') :
    p.world.now ≤ p'.world.now := by
  obtain same | ⟨act, moved⟩ | ⟨webhookOutbox, written⟩ := step.world
  · rw [same]
  · exact (World.step_cases moved).now_le
  · rw [written]
    exact le_rfl

theorem Hooked.step {action : ProcessAction} (hooked : Hooked p)
    (step : ProcessStep settings skew p action p') : Hooked p' := by
  have now := step.now_le
  -- a dispatcher that waits for no batch
  have unbatched : ∀ stage, (∀ ks, stage ≠ .dispatching ks) →
      Hooked { p with dispatcher := stage } := by
    intro stage other
    exact ⟨fun ks dispatching => absurd dispatching (other ks), hooked.recording⟩
  cases step with
  | task _ _ _ _ =>
    obtain ⟨invalidations, owed, same⟩ := Process.follow_eq settings _ _ _ _ _
    rw [same] at now ⊢
    exact hooked.kept rfl rfl now
  | reaped _ _ =>
    obtain ⟨invalidations, same⟩ := Process.invalidate_eq settings _ _
    rw [same] at now ⊢
    exact hooked.kept rfl rfl now
  | dispatcherResumed _ =>
    apply unbatched
    intro ks
    split <;> simp
  | claimEventsFailed _ => exact unbatched _ (by simp)
  | dispatchesFailed _ => exact unbatched _ (by simp)
  | claimedEvents _ stepped batched =>
    obtain ⟨new, appended, _, posting⟩ := dispatches_of_claim stepped
    have whole : ∀ w : WebhookWorld, (p.withWebhooks w).dispatches = w.dispatches := fun _ => rfl
    constructor
    · intro ks dispatching k member
      have dispatching : (if _ = [] then DispatcherStage.sleeping else .dispatching _) =
        .dispatching ks := dispatching
      split at dispatching <;> cases dispatching
      rw [batched, List.mem_range'_1] at member
      show k < _
      rw [whole]
      omega
    · intro dispatch member error since stage
      have member : dispatch ∈ _ := member
      rw [whole, appended] at member
      cases List.mem_append.mp member with
      | inl old => exact hooked.recording dispatch old error since stage
      | inr fresh =>
        rw [posting dispatch fresh] at stage
        cases stage
  | @dispatched k _ dispatch w found underWay stepped =>
    obtain ⟨stage, moved, _, recording⟩ := dispatch_spends found underWay stepped
    have moved : (p.withWebhooks w).dispatches = p.dispatches.set k (dispatch.to stage) := moved
    constructor
    · intro ks dispatching k member
      rw [moved, List.length_set]
      exact hooked.batch ks dispatching k member
    · intro other member error since same
      rw [moved] at member
      cases List.mem_or_eq_of_mem_set member with
      | inl old => exact hooked.recording other old error since same
      | inr new =>
        subst new
        exact recording error since same
  | _ => exact hooked.kept rfl rfl now

/-! ## Each step uses up an await -/

theorem World.remaining_of_stage {w w' : World} {k : Nat} {task task' : Task}
    (found : w.tasks[k]? = some task) (found' : w'.tasks[k]? = some task')
    (same : task'.stage = task.stage) : w'.remaining k = w.remaining k := by
  simp [World.remaining, found, found', same]

/-- The world moves, and what the loops wait for does not get longer. -/
theorem Backed.loopsRemaining_le (backed : Backed settings p) {world : World}
    (shorter : ∀ (k : Nat) (task : Task), p.world.tasks[k]? = some task → p.owns task.worker = true →
      world.remaining k ≤ p.world.remaining k) :
    p.loopsRemaining settings world ≤ p.loopsRemaining settings p.world := by
  apply List.sum_le_sum
  intro stage member
  obtain ⟨i, found⟩ := List.mem_iff_getElem?.mp member
  cases stage with
  | processing ts =>
    apply Nat.add_le_add_left
    apply List.sum_le_sum
    intro k member
    obtain ⟨task, inTasks, owned⟩ := (backed.loops i _ found).2 k member
    exact shorter k task inTasks owned
  | _ => exact le_rfl

theorem Backed.remaining_of_outside (backed : Backed settings p) {action : Action} {world : World}
    (allowed : p.allowsOutside action = true)
    (stepped : p.world.step settings skew action = some world) :
    p.loopsRemaining settings world ≤ p.loopsRemaining settings p.world := by
  apply backed.loopsRemaining_le
  intro k task found owned
  obtain ⟨task', found', _, stage⟩ := Process.outside_task allowed stepped found owned
  exact (World.remaining_of_stage found found' stage).le

/-- A task of the process uses up awaits of a loop that waits for it. -/
theorem Tracked.remaining_of_task (tracked : Tracked p) (settings : Settings) (world : World)
    {k d : Nat} {task task' : Task} (found : p.world.tasks[k]? = some task)
    (owned : p.owns task.worker = true)
    (runs : task.stage.hasEnded = false) (moved : world.tasks = p.world.tasks.set k task')
    (spends : task'.stage.remaining + d ≤ task.stage.remaining) :
    p.loopsRemaining settings world + d ≤ p.loopsRemaining settings p.world := by
  have inBounds : k < p.world.tasks.length := (List.getElem?_eq_some_iff.mp found).1
  have here : world.remaining k + d ≤ p.world.remaining k := by
    simpa [World.remaining, found, moved, List.getElem?_set_self inBounds] using spends
  have shorter : ∀ k', world.remaining k' ≤ p.world.remaining k' := by
    intro k'
    by_cases same : k = k'
    · subst same
      omega
    · simp [World.remaining, moved, List.getElem?_set_ne same]
  cases tracked.tasks k task found owned with
  | inl ended =>
    rw [runs] at ended
    contradiction
  | inr waits =>
    obtain ⟨i, ts, waits, member⟩ := waits
    refine sum_map_add_le (fun stage _ => ?_) (List.mem_of_getElem? waits) ?_
    · cases stage with
      | processing ts => exact Nat.add_le_add_left (List.sum_le_sum fun k' _ => shorter k') 1
      | _ => exact le_rfl
    · have sum := sum_map_add_le (fun k' _ => shorter k') member here
      simp only [LoopStage.remaining]
      omega

/-- A loop moves on. -/
theorem loopsRemaining_set (settings : Settings) {i : Nat} {stage : LoopStage} (stage' : LoopStage)
    (w : World) (found : p.loops[i]? = some stage) :
    Process.loopsRemaining settings { p with loops := p.loops.set i stage' } w +
        stage.remaining settings w =
      p.loopsRemaining settings w + stage'.remaining settings w :=
  sum_map_set _ stage' found

theorem LoopStage.remaining_pos (settings : Settings) {stage : LoopStage} (w : World)
    (runs : stage ≠ .ended) :
    1 ≤ stage.remaining settings w := by
  cases stage <;> simp_all [LoopStage.remaining]

/-- What a claim leaves ahead of the loop is less than what it had ahead of it. -/
theorem remaining_of_claim {w world : World} {b : Nat} {batch : Batch} {began : Time}
    {newToken : JobId → ClaimToken} {choices : Choices} {tasks : List Nat}
    (inWorld : w.batches[b]? = some batch)
    (stepped : w.step settings skew (.claim b began newToken choices) = some world)
    (batched : tasks = List.range' w.tasks.length (world.tasks.length - w.tasks.length)) :
    LoopStage.remaining settings world (if tasks = [] then .sleeping else .processing tasks) + 1 ≤
      8 * settings.batchSize + 2 := by
  obtain ⟨new, appended, atMost, fresh⟩ := World.tasks_of_claim inWorld stepped
  have count : tasks.length = new.length := by
    rw [batched, List.length_range', appended, List.length_append]
    omega
  split
  · simp [LoopStage.remaining]
  · have each : ∀ k ∈ tasks, world.remaining k ≤ 8 := by
      intro k member
      rw [batched, List.mem_range'_1] at member
      have late : w.tasks.length ≤ k := member.1
      rw [World.remaining, appended, List.getElem?_append_right late]
      cases found : new[k - w.tasks.length]? with
      | none => simp
      | some task => simp [(fresh task (List.mem_of_getElem? found)).2, Stage.remaining]
    have sum : (tasks.map world.remaining).sum ≤ (tasks.map fun _ => 8).sum := List.sum_le_sum each
    rw [List.map_const', List.sum_replicate_nat] at sum
    simp only [LoopStage.remaining]
    omega

/-- A pass of the reaper commits no more transitions than its batch has room for. -/
theorem reapOp_transitions (settings : Settings)
    (newEvent : JobId → EventId) (choices : Choices) (began : Time) (db : Db) :
    ((Process.reapOp settings newEvent choices).commit began db).1.transitions.length ≤
      settings.reaperBatchSize := by
  rw [Process.reapOp, commit_reapExpiredLeases]
  cases reaped : reapExpiredLeases began settings.reaperBatchSize settings.defaultCallbackUrl newEvent
      choices db with
  | error _ => simp [Answer.transitions]
  | ok result =>
    obtain ⟨transitions, db'⟩ := result
    obtain ⟨rest, takes⟩ := expiredJobs_takes began settings.reaperBatchSize choices db
    have length := (reaped_perm reaped).length_eq
    rw [List.length_map, takes.length] at length
    simp only [Answer.transitions]
    omega

theorem Process.unfinished_set {k : Nat} {transition : Transition}
    (found : p.invalidations[k]? = some ⟨transition, false⟩) :
    Process.unfinished { p with invalidations := p.invalidations.set k ⟨transition, true⟩ } + 1 =
      p.unfinished := by
  obtain ⟨inBounds, running⟩ := List.getElem?_eq_some_iff.mp found
  have positive : 0 < p.unfinished :=
    List.countP_pos_iff.mpr ⟨_, List.mem_of_getElem? found, rfl⟩
  simp only [Process.unfinished] at positive ⊢
  rw [List.countP_set inBounds, running]
  simp only [Bool.not_false, if_true, Bool.not_true, Bool.false_eq_true, if_false]
  omega

/-- One dispatch moves on. -/
theorem dispatchesRemaining_set {k : Nat} {dispatch : Dispatch} (stage : DispatchStage)
    (found : p.dispatches[k]? = some dispatch) :
    Process.dispatchesRemaining { p with dispatches := p.dispatches.set k (dispatch.to stage) } +
        dispatch.stage.remaining =
      p.dispatchesRemaining + stage.remaining :=
  sum_map_set (fun dispatch : Dispatch => dispatch.stage.remaining) (dispatch.to stage) found

theorem dispatchesRemaining_append {new : List Dispatch}
    (posting : ∀ dispatch ∈ new, dispatch.stage = .posting) :
    Process.dispatchesRemaining { p with dispatches := p.dispatches ++ new } =
      p.dispatchesRemaining + 2 * new.length := by
  have each : new.map (fun dispatch => dispatch.stage.remaining) = new.map fun _ => 2 := by
    apply List.map_congr_left
    intro dispatch member
    rw [posting dispatch member]
    rfl
  rw [Process.dispatchesRemaining, List.map_append, List.sum_append, each, List.map_const',
    List.sum_replicate_nat, Process.dispatchesRemaining]
  omega

theorem WatchStage.remaining_pos {stage : WatchStage} (running : stage ≠ .ended) :
    1 ≤ stage.remaining := by
  cases stage <;> simp_all [WatchStage.remaining]

theorem DispatcherStage.remaining_pos (settings : Settings) (resumes : p.dispatcherResumes = true) :
    1 ≤ p.dispatcher.remaining settings := by
  cases stage : p.dispatcher <;> simp_all [Process.dispatcherResumes, DispatcherStage.remaining]

theorem WatchStage.next_remaining (stopping : p.stopping = true) :
    (WatchStage.next p.stopping).remaining = 0 := by
  simp [WatchStage.next, stopping, WatchStage.remaining]

theorem Process.drain_remaining : p.drain.remaining ≤ 1 := by
  unfold Process.drain
  split <;> simp [GatherStage.remaining]

/-- A step in which one of the stages moves on and nothing is started. -/
theorem Process.remaining_of_stage (loops : p'.loops = p.loops) (world : p'.world = p.world)
    (invalidations : p'.invalidations = p.invalidations) (dispatches : p'.dispatches = p.dispatches)
    (moves : p'.stagesRemaining settings + 1 ≤ p.stagesRemaining settings) :
    p'.remaining settings + 1 ≤ p.remaining settings := by
  unfold Process.remaining Process.loopsRemaining Process.unfinished Process.dispatchesRemaining
  rw [loops, world, invalidations, dispatches]
  omega

/-- A step in which one of the loops moves on and the world stands still. -/
theorem Process.remaining_of_loop {i : Nat} {stage stage' : LoopStage}
    (found : p.loops[i]? = some stage)
    (moves : stage'.remaining settings p.world + 1 ≤ stage.remaining settings p.world) :
    Process.remaining settings { p with loops := p.loops.set i stage' } + 1 ≤
      p.remaining settings := by
  have moved := loopsRemaining_set settings stage' p.world found
  show Process.loopsRemaining settings { p with loops := p.loops.set i stage' } p.world +
    p.unfinished + p.dispatchesRemaining + p.stagesRemaining settings + 1 ≤ p.remaining settings
  unfold Process.remaining
  omega

/-- A claim takes its batch on, with the tasks that it makes. -/
theorem Backed.remaining_of_claimed (backed : Backed settings p) {i b : Nat} {batch : Batch}
    {began : Time} {newToken : JobId → ClaimToken} {choices : Choices} {world : World}
    {tasks : List Nat} (found : p.loops[i]? = some (.claiming batch))
    (inWorld : p.world.batches[b]? = some batch)
    (stepped : p.world.step settings skew (.claim b began newToken choices) = some world)
    (batched : tasks = List.range' p.world.tasks.length
      (world.tasks.length - p.world.tasks.length)) :
    Process.remaining settings { p with
        world, loops := p.loops.set i (if tasks = [] then .sleeping else .processing tasks) } + 1 ≤
      p.remaining settings := by
  have kept : p.loopsRemaining settings world ≤ p.loopsRemaining settings p.world := by
    apply backed.loopsRemaining_le
    intro k task inTasks _
    obtain ⟨new, appended, _, _⟩ := World.tasks_of_claim inWorld stepped
    refine (World.remaining_of_stage inTasks ?_ rfl).le
    rw [appended, List.getElem?_append_left (List.getElem?_eq_some_iff.mp inTasks).1, inTasks]
  have moved := loopsRemaining_set settings
    (if tasks = [] then .sleeping else .processing tasks) world found
  have smaller := remaining_of_claim inWorld stepped batched
  have before : LoopStage.remaining settings world (.claiming batch) =
      8 * settings.batchSize + 2 := rfl
  show Process.loopsRemaining settings { p with loops := p.loops.set i _ } world + p.unfinished +
    p.dispatchesRemaining + p.stagesRemaining settings + 1 ≤ p.remaining settings
  unfold Process.remaining
  omega

/-- A task takes a step, with the invalidations that it starts. -/
theorem Backed.remaining_of_task (backed : Backed settings p) (tracked : Tracked p) {k : Nat}
    {action : TaskAction} {task task' : Task} {db : Db} {keys : Keys}
    (found : p.world.tasks[k]? = some task) (owned : p.owns task.worker = true)
    (own : action.isProvider = false)
    (moved : task.step settings skew p.world action = some (task', db, keys)) :
    Process.remaining settings
        ({ p with world := { p.world with db, keys, tasks := p.world.tasks.set k task' } }.follow
          settings k task (task.transitions settings p.world action) action) + 1 ≤
      p.remaining settings := by
  let world : World := { p.world with db, keys, tasks := p.world.tasks.set k task' }
  obtain ⟨handed, spends, new⟩ :=
    Process.follow_spends settings (p := { p with world }) (backed.owed k) moved own
  have loops := tracked.remaining_of_task settings world found owned
    (Task.running_of_step moved own) rfl spends
  obtain ⟨invalidations, owed, same⟩ := Process.follow_eq settings { p with world } k task
    (task.transitions settings p.world action) action
  rw [same] at new ⊢
  have new : Process.unfinished { p with invalidations } ≤ p.unfinished + handed := new
  show p.loopsRemaining settings world + Process.unfinished { p with invalidations } +
    p.dispatchesRemaining + p.stagesRemaining settings + 1 ≤ p.remaining settings
  unfold Process.remaining
  omega

/-- A pass of the reaper ends, with the invalidations that it starts. -/
theorem Backed.remaining_of_reaped (backed : Backed settings p) {began : Time}
    {newEvent : JobId → EventId} {choices : Choices} {world : World} (reaping : p.reaper = .reaping)
    (stepped : p.world.step settings skew
      (.outside (Process.reapOp settings newEvent choices) began) = some world) :
    Process.remaining settings ({ p with world, reaper := .sleeping }.invalidate settings
        ((Process.reapOp settings newEvent choices).commit began p.world.db).1.transitions) + 1 ≤
      p.remaining settings := by
  have loops := backed.remaining_of_outside (by rfl) stepped
  have few := reapOp_transitions settings newEvent choices began p.world.db
  have new := Process.unfinished_invalidate settings { p with world, reaper := .sleeping }
    ((Process.reapOp settings newEvent choices).commit began p.world.db).1.transitions
  obtain ⟨invalidations, same⟩ := Process.invalidate_eq settings
    { p with world, reaper := .sleeping }
    ((Process.reapOp settings newEvent choices).commit began p.world.db).1.transitions
  rw [same] at new ⊢
  have new : Process.unfinished { p with invalidations } ≤ p.unfinished + settings.reaperBatchSize :=
    new.trans (Nat.add_le_add_left few _)
  have sleeps : Process.stagesRemaining settings { p with reaper := .sleeping } +
      settings.reaperBatchSize + 1 = p.stagesRemaining settings := by
    simp only [Process.stagesRemaining, Process.watchRemaining, reaping, ReaperStage.remaining]
    omega
  show p.loopsRemaining settings world + Process.unfinished { p with invalidations } +
    p.dispatchesRemaining + Process.stagesRemaining settings { p with reaper := .sleeping } + 1 ≤
      p.remaining settings
  unfold Process.remaining
  omega

/-- A claim of the dispatcher ends, with the dispatches that it starts. -/
theorem Process.remaining_of_claimedEvents {began : Time} {choices : OutboxChoices}
    {w : WebhookWorld} (new : List Nat) (claiming : p.dispatcher = .claiming)
    (stepped : p.webhooks.step settings (.claim began choices) = some w) :
    Process.remaining settings { p.withWebhooks w with
        dispatcher := if new = [] then .sleeping else .dispatching new } + 1 ≤
      p.remaining settings := by
  obtain ⟨fresh, appended, atMost, posting⟩ := dispatches_of_claim stepped
  have dispatches := dispatchesRemaining_append (p := p) posting
  have appended : p.dispatches ++ fresh = w.dispatches := appended.symm
  rw [appended] at dispatches
  have waits : DispatcherStage.remaining settings
      (if new = [] then .sleeping else .dispatching new) ≤ 2 := by
    split <;> simp [DispatcherStage.remaining]
  have stages : Process.stagesRemaining settings { p with
      dispatcher := if new = [] then .sleeping else .dispatching new } +
        2 * settings.webhookBatchSize + 1 ≤ p.stagesRemaining settings := by
    have before : DispatcherStage.remaining settings .claiming =
        2 * settings.webhookBatchSize + 3 := rfl
    simp only [Process.stagesRemaining, Process.watchRemaining, claiming]
    omega
  show p.loopsRemaining settings p.world + p.unfinished +
    Process.dispatchesRemaining { p with dispatches := w.dispatches } +
      Process.stagesRemaining settings { p with dispatcher := _ } + 1 ≤ p.remaining settings
  unfold Process.remaining
  omega

/-- A dispatch takes a step. -/
theorem Process.remaining_of_dispatched {k : Nat} {action : DispatchAction} {dispatch : Dispatch}
    {w : WebhookWorld} (found : p.dispatches[k]? = some dispatch)
    (underWay : dispatch.underWay = true)
    (stepped : p.webhooks.step settings (action.toWebhook k) = some w) :
    (p.withWebhooks w).remaining settings + 1 ≤ p.remaining settings := by
  obtain ⟨stage, moved, spends, _⟩ := dispatch_spends found underWay stepped
  have dispatches := dispatchesRemaining_set stage found
  have moved : p.dispatches.set k (dispatch.to stage) = w.dispatches := moved.symm
  rw [moved] at dispatches
  show p.loopsRemaining settings p.world + p.unfinished +
    Process.dispatchesRemaining { p with dispatches := w.dispatches } +
      p.stagesRemaining settings + 1 ≤ p.remaining settings
  unfold Process.remaining
  omega

theorem ProcessStep.remaining {action : ProcessAction} (backed : Backed settings p)
    (tracked : Tracked p) (stopping : p.stopping = true)
    (step : ProcessStep settings skew p action p') :
    p'.remaining settings + (if action.isOwn then 1 else 0) ≤ p.remaining settings := by
  cases step with
  | stop => exact le_rfl
  | otherDispatchers => exact le_rfl
  | outside allowed stepped =>
    have loops := backed.remaining_of_outside allowed stepped
    exact Nat.add_le_add_right (Nat.add_le_add_right (Nat.add_le_add_right loops _) _) _
  | loopEnded found resumes _ =>
    apply Process.remaining_of_loop found
    exact LoopStage.remaining_pos settings p.world (Process.runs_of_resumable resumes)
  | polled _ _ goesOn _ _ =>
    rw [stopping] at goesOn
    contradiction
  | claimed found inWorld stepped batched =>
    exact backed.remaining_of_claimed found inWorld stepped batched
  | claimFailed found =>
    apply Process.remaining_of_loop found
    simp [LoopStage.remaining]
  | task found owned own moved => exact backed.remaining_of_task tracked found owned own moved
  | reaped reaping stepped => exact backed.remaining_of_reaped reaping stepped
  | claimedEvents claiming stepped _ => exact Process.remaining_of_claimedEvents _ claiming stepped
  | dispatched found underWay stepped =>
    exact Process.remaining_of_dispatched found underWay stepped
  | @invalidated k transition found =>
    have one := Process.unfinished_set found
    show p.loopsRemaining settings p.world +
      Process.unfinished { p with invalidations := p.invalidations.set k ⟨transition, true⟩ } +
        p.dispatchesRemaining + p.stagesRemaining settings + 1 ≤ p.remaining settings
    unfold Process.remaining
    omega
  | reaperResumed resumes =>
    refine Process.remaining_of_stage rfl rfl rfl rfl ?_
    have before : p.reaper.remaining settings = 1 := by cases resumes <;> simp [*, ReaperStage.remaining]
    have ended : ReaperStage.remaining settings (if p.stopping then .ended else .reaping) = 0 := by
      simp [stopping, ReaperStage.remaining]
    simp only [Process.stagesRemaining, Process.watchRemaining, before, ended]
    omega
  | reapFailed reaping =>
    refine Process.remaining_of_stage rfl rfl rfl rfl ?_
    simp only [Process.stagesRemaining, Process.watchRemaining, reaping, ReaperStage.remaining]
    omega
  | dispatcherResumed resumes =>
    refine Process.remaining_of_stage rfl rfl rfl rfl ?_
    have positive := DispatcherStage.remaining_pos settings resumes
    have ended : DispatcherStage.remaining settings (if p.stopping then .ended else .claiming) = 0 := by
      simp [stopping, DispatcherStage.remaining]
    simp only [Process.stagesRemaining, Process.watchRemaining, ended]
    omega
  | claimEventsFailed claiming =>
    refine Process.remaining_of_stage rfl rfl rfl rfl ?_
    simp only [Process.stagesRemaining, Process.watchRemaining, claiming, DispatcherStage.remaining]
    omega
  | dispatchesFailed dispatching =>
    refine Process.remaining_of_stage rfl rfl rfl rfl ?_
    simp only [Process.stagesRemaining, Process.watchRemaining, dispatching,
      DispatcherStage.remaining]
    omega
  | reported running =>
    refine Process.remaining_of_stage rfl rfl rfl rfl ?_
    have positive := WatchStage.remaining_pos running
    have ended := WatchStage.next_remaining stopping
    simp only [Process.stagesRemaining, Process.watchRemaining, ended]
    omega
  | watched watching running =>
    refine Process.remaining_of_stage rfl rfl rfl rfl ?_
    have positive := WatchStage.remaining_pos running
    have ended := WatchStage.next_remaining stopping
    simp only [Process.stagesRemaining, Process.watchRemaining, watching, ended, Option.map_some,
      Option.getD_some]
    omega
  | workerGathered gathering _ =>
    refine Process.remaining_of_stage rfl rfl rfl rfl ?_
    have drains := p.drain_remaining
    have before : GatherStage.remaining .gathering = 2 := rfl
    simp only [Process.stagesRemaining, Process.watchRemaining, gathering]
    omega
  | workerDrained draining _ =>
    refine Process.remaining_of_stage rfl rfl rfl rfl ?_
    simp only [Process.stagesRemaining, Process.watchRemaining, draining, GatherStage.remaining]
    omega
  | gathered gathering _ _ =>
    refine Process.remaining_of_stage rfl rfl rfl rfl ?_
    have drains := p.drain_remaining
    have before : GatherStage.remaining .gathering = 2 := rfl
    simp only [Process.stagesRemaining, Process.watchRemaining, gathering]
    omega
  | drained draining _ =>
    refine Process.remaining_of_stage rfl rfl rfl rfl ?_
    simp only [Process.stagesRemaining, Process.watchRemaining, draining, GatherStage.remaining]
    omega

/-! ## Something can always be done -/

/-- What a task waits for can come. -/
structure Task.Answerable (now : Time) (task : Task) : Prop where
  request : ∀ startedAt, task.stage = .sending startedAt → task.request ≠ none
  since : ∀ result since, task.stage = .committing result since → since ≤ now

theorem Task.answerable_step {w : World} {task task' : Task} {action : TaskAction} {db : Db}
    {keys : Keys} (answerable : task.Answerable w.now)
    (step : TaskStep settings skew w task action (task', db, keys)) : task'.Answerable w.now := by
  cases step with
  | decided verdict _ => exact ⟨fun _ _ => by simp, answerable.since⟩
  | connected stage =>
    constructor
    · intro _ sending
      cases sending
    · intro _ _ committing
      cases committing
      exact le_rfl
  | sendStarted _ _ => constructor <;> simp [Task.to]
  | @returned _ _ givesBack _ _ _ _ _ =>
    constructor <;> cases givesBack <;> simp [Task.to]
  | @recorded result _ _ _ _ _ _ _ _ _ _ _ =>
    constructor <;> cases refunds : result.refundSlot <;> simp [Task.to]
  | _ => constructor <;> simp [Task.to]

theorem answerable_of_step {w w' : World} {action : Action}
    (answerable : ∀ task ∈ w.tasks, task.Answerable w.now)
    (stepped : w.step settings skew action = some w') : ∀ task ∈ w'.tasks, task.Answerable w'.now := by
  intro task member
  obtain ⟨k, found⟩ := List.mem_iff_getElem?.mp member
  cases (World.step_cases stepped).origin found with
  | kept found' _ =>
    have before := answerable task (List.mem_of_getElem? found')
    exact ⟨before.request, fun result since committing =>
      (before.since result since committing).trans (World.step_cases stepped).now_le⟩
  | moved _ found' moved sameTime =>
    rw [sameTime]
    exact Task.answerable_step (answerable _ (List.mem_of_getElem? found')) moved
  | claimed _ _ _ _ _ _ _ _ new =>
    subst new
    constructor <;> simp

/-- What holds of a process from the stop on. -/
structure Stopping (settings : Settings) (p : Process) : Prop where
  stopping : p.stopping = true
  tracked : Tracked p
  backed : Backed settings p
  hooked : Hooked p
  answerable : ∀ task ∈ p.world.tasks, task.Answerable p.world.now

theorem ProcessStep.stopping {action : ProcessAction}
    (step : ProcessStep settings skew p action p') (stopping : p.stopping = true) :
    p'.stopping = true := by
  cases step with
  | task _ _ _ _ =>
    obtain ⟨invalidations, owed, same⟩ := Process.follow_eq settings _ _ _ _ _
    rw [same]
    exact stopping
  | reaped _ _ =>
    obtain ⟨invalidations, same⟩ := Process.invalidate_eq settings _ _
    rw [same]
    exact stopping
  | stop => rfl
  | watched _ _ => simp [stopping]
  | _ => exact stopping

theorem ProcessStep.answerable {action : ProcessAction}
    (step : ProcessStep settings skew p action p')
    (answerable : ∀ task ∈ p.world.tasks, task.Answerable p.world.now) :
    ∀ task ∈ p'.world.tasks, task.Answerable p'.world.now := by
  obtain same | ⟨act, moved⟩ | ⟨webhookOutbox, written⟩ := step.world
  · exact same ▸ answerable
  · exact answerable_of_step answerable moved
  · rw [written]
    exact answerable

theorem Stopping.step {action : ProcessAction} (holds : Stopping settings p)
    (step : ProcessStep settings skew p action p') : Stopping settings p' where
  stopping := step.stopping holds.stopping
  tracked := holds.tracked.step step
  backed := holds.backed.step holds.tracked step
  hooked := holds.hooked.step step
  answerable := step.answerable holds.answerable

end

end NotifyQueue
