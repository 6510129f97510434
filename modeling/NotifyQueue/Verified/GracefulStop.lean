import NotifyQueue.Verified.ProcessSteps

/-! # A graceful stop leaves nothing behind

`run_worker` returns after its loops, what runs beside them and the tasks of the
`CacheInvalidator` have ended.  When it does, the process has no job in its hands but those whose
`_process` died of an exception, which wait for a reaper, and every transition that it committed
has had its invalidation — though loops, reaper and invalidations only meet in two gathers and
two drains, and a drain waits just for what it finds. -/

namespace NotifyQueue

open Runs

section

variable {settings : Settings} {skew : String → Time} {p p' : Process}

/-! ## Nothing starts after the gathers -/

/-- What the gathers and the drains have waited for. -/
structure Ordered (p : Process) : Prop where
  loops : p.worker ≠ .gathering → ∀ stage ∈ p.loops, stage = .ended
  gathered : p.main ≠ .gathering → p.worker = .ended ∧ p.OthersEnded
  draining : ∀ ks, p.main = .draining ks → ∀ (k : Nat) (invalidation : Invalidation),
    p.invalidations[k]? = some invalidation → invalidation.ended = false → k ∈ ks
  ended : p.main = .ended → ∀ invalidation ∈ p.invalidations, invalidation.ended = true

theorem Ordered.of_gathering (worker : p.worker = .gathering) (main : p.main = .gathering) :
    Ordered p := by
  constructor <;> simp [worker, main]

/-- While the worker gathers, so does the process. -/
theorem Ordered.main_of_worker (ordered : Ordered p) (worker : p.worker ≠ .ended) :
    p.main = .gathering := by
  by_contra past
  exact worker (ordered.gathered past).1

/-- What runs beside the loops is waited for. -/
theorem Ordered.beside (ordered : Ordered p) (running : ¬ p.OthersEnded)
    (loops : p'.loops = p.loops) (worker : p'.worker = p.worker) (main : p'.main = p.main) :
    Ordered p' := by
  have gathering : p'.main = .gathering := by
    rw [main]
    by_contra past
    exact running (ordered.gathered past).2
  refine ⟨?_, fun past => absurd gathering past, by simp [gathering], by simp [gathering]⟩
  rw [loops, worker]
  exact ordered.loops

/-- A loop that still runs is waited for. -/
theorem Ordered.gathering_of_loop (ordered : Ordered p) {i : Nat} {stage : LoopStage}
    (found : p.loops[i]? = some stage) (runs : stage ≠ .ended) :
    p.worker = .gathering ∧ p.main = .gathering := by
  have worker : p.worker = .gathering := by
    by_contra past
    exact runs (ordered.loops past stage (List.mem_of_getElem? found))
  exact ⟨worker, ordered.main_of_worker (by simp [worker])⟩

/-- So is a task of the process. -/
theorem Ordered.gathering_of_task (ordered : Ordered p) (tracked : Tracked p) {k : Nat} {task : Task}
    (found : p.world.tasks[k]? = some task) (owned : p.owns task.worker = true)
    (runs : task.stage.hasEnded = false) : p.worker = .gathering ∧ p.main = .gathering := by
  cases tracked.tasks k task found owned with
  | inl ended =>
    rw [runs] at ended
    contradiction
  | inr waits =>
    obtain ⟨i, ts, waits, _⟩ := waits
    exact ordered.gathering_of_loop waits (by simp)

theorem Process.runs_of_resumable {stage : LoopStage} (resumes : p.resumable stage = true) :
    stage ≠ .ended := by
  rintro rfl
  simp [Process.resumable] at resumes

theorem Process.mem_pending {k : Nat} :
    k ∈ p.pending ↔ ∃ invalidation, p.invalidations[k]? = some invalidation ∧
      invalidation.ended = false := by
  simp only [Process.pending, List.mem_filter, List.mem_range, Option.any_eq_true,
    Bool.not_eq_true']
  constructor
  · exact fun both => both.2
  · intro running
    have ⟨_, found, _⟩ := running
    exact ⟨(List.getElem?_eq_some_iff.mp found).1, running⟩

theorem Ordered.step {action : ProcessAction} (ordered : Ordered p) (tracked : Tracked p)
    (step : ProcessStep settings skew p action p') : Ordered p' := by
  cases step with
  | stop => exact ⟨ordered.loops, ordered.gathered, ordered.draining, ordered.ended⟩
  | outside _ _ => exact ⟨ordered.loops, ordered.gathered, ordered.draining, ordered.ended⟩
  | otherDispatchers => exact ⟨ordered.loops, ordered.gathered, ordered.draining, ordered.ended⟩
  | dispatched _ _ _ => exact ⟨ordered.loops, ordered.gathered, ordered.draining, ordered.ended⟩
  | loopEnded found resumes _ =>
    have gathering := ordered.gathering_of_loop found (Process.runs_of_resumable resumes)
    exact .of_gathering gathering.1 gathering.2
  | polled found resumes _ _ _ =>
    have gathering := ordered.gathering_of_loop found (Process.runs_of_resumable resumes)
    exact .of_gathering gathering.1 gathering.2
  | claimed found _ _ _ =>
    have gathering := ordered.gathering_of_loop found (by simp)
    exact .of_gathering gathering.1 gathering.2
  | claimFailed found =>
    have gathering := ordered.gathering_of_loop found (by simp)
    exact .of_gathering gathering.1 gathering.2
  | task found owned own moved =>
    obtain ⟨invalidations, owed, same⟩ := Process.follow_eq settings _ _ _ _ _
    have gathering := ordered.gathering_of_task tracked found owned (Task.running_of_step moved own)
    rw [same]
    exact .of_gathering gathering.1 gathering.2
  | reaperResumed resumes =>
    exact ordered.beside (fun others => by simp [others.1] at resumes) rfl rfl rfl
  | reaped reaping _ =>
    obtain ⟨invalidations, same⟩ := Process.invalidate_eq settings _ _
    rw [same]
    exact ordered.beside (fun others => by simp [others.1] at reaping) rfl rfl rfl
  | reapFailed reaping =>
    exact ordered.beside (fun others => by simp [others.1] at reaping) rfl rfl rfl
  | dispatcherResumed resumes =>
    refine ordered.beside (fun others => ?_) rfl rfl rfl
    simp [Process.dispatcherResumes, others.2.1] at resumes
  | claimedEvents claiming _ _ =>
    exact ordered.beside (fun others => by simp [others.2.1] at claiming) rfl rfl rfl
  | claimEventsFailed claiming =>
    exact ordered.beside (fun others => by simp [others.2.1] at claiming) rfl rfl rfl
  | dispatchesFailed dispatching =>
    exact ordered.beside (fun others => by simp [others.2.1] at dispatching) rfl rfl rfl
  | reported running => exact ordered.beside (fun others => running others.2.2.1) rfl rfl rfl
  | watched watching running =>
    exact ordered.beside (fun others => running (others.2.2.2 _ watching)) rfl rfl rfl
  | workerGathered gathering done =>
    have main : p.main = .gathering := ordered.main_of_worker (by simp [gathering])
    exact ⟨fun _ => done, fun past => absurd main past, by simp [main], by simp [main]⟩
  | workerDrained draining _ =>
    have main : p.main = .gathering := ordered.main_of_worker (by simp [draining])
    have loops := ordered.loops (by simp [draining])
    exact ⟨fun _ => loops, fun past => absurd main past, by simp [main], by simp [main]⟩
  | invalidated found =>
    refine ⟨ordered.loops, ordered.gathered, ?_, ?_⟩
    · intro ks draining k' invalidation found' running
      -- the one that ended is not among those that run
      rw [List.getElem?_set] at found'
      split at found'
      · split at found' <;> cases found'
        contradiction
      · exact ordered.draining ks draining k' invalidation found' running
    · intro main invalidation member
      cases List.mem_or_eq_of_mem_set member with
      | inl old => exact ordered.ended main invalidation old
      | inr new => rw [new]
  | gathered _ worker others =>
    refine ⟨ordered.loops, fun _ => ⟨worker, others⟩, ?_, ?_⟩
    · intro ks draining k invalidation found running
      have member : k ∈ p.pending := Process.mem_pending.mpr ⟨invalidation, found, running⟩
      simp only [Process.drain, if_neg (List.ne_nil_of_mem member)] at draining
      cases draining
      exact member
    · intro main invalidation member
      by_contra running
      obtain ⟨k, found⟩ := List.mem_iff_getElem?.mp member
      have pending : k ∈ p.pending :=
        Process.mem_pending.mpr ⟨invalidation, found, by simpa using running⟩
      simp only [Process.drain, if_neg (List.ne_nil_of_mem pending)] at main
      cases main
  | drained draining done =>
    have gathered := ordered.gathered (by simp [draining])
    refine ⟨ordered.loops, fun _ => gathered, fun _ main => (by cases main), ?_⟩
    intro _ invalidation member
    by_contra running
    obtain ⟨k, found⟩ := List.mem_iff_getElem?.mp member
    have waited := ordered.draining _ draining k invalidation found (by simpa using running)
    have finished := List.all_eq_true.mp done k waited
    rw [found] at finished
    exact running finished

/-! ## Every transition is handed over -/

/-- A task of the process stays where others leave it. -/
theorem Process.outside_task {action : Action} {world : World}
    (allowed : p.allowsOutside action = true)
    (stepped : p.world.step settings skew action = some world) {k : Nat} {task : Task}
    (found : p.world.tasks[k]? = some task) (owned : p.owns task.worker = true) :
    ∃ task', world.tasks[k]? = some task' ∧ task'.worker = task.worker ∧ task'.stage = task.stage := by
  have inBounds : k < p.world.tasks.length := (List.getElem?_eq_some_iff.mp found).1
  cases World.step_cases stepped with
  | tick _ => exact ⟨task, found, rfl, rfl⟩
  | poll _ => exact ⟨task, found, rfl, rfl⟩
  | outside _ _ _ => exact ⟨task, found, rfl, rfl⟩
  | claim _ _ _ _ => exact ⟨task, by rw [List.getElem?_append_left inBounds, found], rfl, rfl⟩
  | @task i taskAction moving task' _ _ found' moved =>
    by_cases same : i = k
    · subst same
      obtain rfl : moving = task := Option.some.inj (found'.symm.trans found)
      simp only [Process.allowsOutside, found, Option.all_some, owned, Bool.not_true,
        Bool.or_false] at allowed
      exact ⟨task', List.getElem?_set_self inBounds, moved.identity.1,
        moved.stage_of_provider allowed⟩
    · exact ⟨task, by rw [List.getElem?_set_ne same, found], rfl, rfl⟩

/-- What is owed is owed by a task that releases its slot, or that died while it did. -/
def Owes (p : Process) : Prop :=
  ∀ k, p.owed k ≠ [] → ∃ task, p.world.tasks[k]? = some task ∧ p.owns task.worker = true ∧
    (task.stage = .releasing ∨ task.stage = .ended .crashed)

/-- The world moves, and every task of the process stays where it is. -/
theorem Owes.of_world (owes : Owes p) (owed : p'.owed = p.owed)
    (owns : ∀ worker, p'.owns worker = p.owns worker)
    (kept : ∀ (k : Nat) (task : Task), p.world.tasks[k]? = some task → p.owns task.worker = true →
      ∃ task', p'.world.tasks[k]? = some task' ∧ task'.worker = task.worker ∧
        task'.stage = task.stage) : Owes p' := by
  intro k something
  rw [owed] at something
  obtain ⟨task, found, owned, stage⟩ := owes k something
  obtain ⟨task', found', worker, same⟩ := kept k task found owned
  exact ⟨task', found', by rw [owns, worker, owned], by rw [same]; exact stage⟩

/-- A task that runs and does not release its slot owes nothing. -/
theorem Owes.nothing (owes : Owes p) {k : Nat} {task : Task} (found : p.world.tasks[k]? = some task)
    (runs : task.stage.hasEnded = false) (busy : task.stage ≠ .releasing) : p.owed k = [] := by
  by_contra something
  obtain ⟨task', found', _, stage⟩ := owes k something
  obtain rfl : task = task' := Option.some.inj (found.symm.trans found')
  cases stage with
  | inl releasing => exact busy releasing
  | inr crashed => simp [crashed, Stage.hasEnded] at runs

/-- A result whose slot is refunded is recorded before the release. -/
theorem Task.releasing_of_finalize {w : World} {task task' : Task} {began draw : Time}
    {eventId : EventId} {result : SendResult} {since : Time} {db : Db} {keys : Keys}
    (moved : task.step settings skew w (.finalize began eventId draw) = some (task', db, keys))
    (stage : task.stage = .committing result since) (refunds : result.refundSlot = true)
    (something : task.transitions settings w (.finalize began eventId draw) ≠ []) :
    task'.stage = .releasing := by
  simp only [Task.step, stage, Option.ite_none_right_eq_some, Option.some.injEq] at moved
  have effect := moved.2
  simp only [Task.transitions, stage] at something
  cases records : task.recordOp settings result eventId draw with
  | none => simp [records] at something
  | some op =>
    cases committed : op.commit began w.db with
    | mk answer db' =>
      simp only [records, committed] at something
      cases finalized_of_presents (recordOp_presents records) committed with
      | fencedOut _ => simp [Answer.transitions] at something
      | rolledBack _ _ _ => simp [Answer.transitions] at something
      | moved _ _ _ =>
        simp only [Task.finalize, records, committed, refunds, if_true] at effect
        cases effect
        rfl

@[simp] theorem Process.invalidate_owed (transitions : List Transition) :
    (p.invalidate settings transitions).owed = p.owed := by
  obtain ⟨invalidations, same⟩ := p.invalidate_eq settings transitions
  rw [same]

theorem Process.follow_owed_other {k other : Nat} (different : other ≠ k) (task : Task)
    (moved : List Transition) (action : TaskAction) :
    (p.follow settings k task moved action).owed other = p.owed other := by
  unfold Process.follow
  split
  · simp
  · split
    · split <;> simp [different]
    · rfl
  · simp [different]
  · rfl

/-- Only a release or a crash finds a task that releases. -/
theorem Task.busy_of_step {w : World} {task task' : Task} {action : TaskAction} {db : Db} {keys : Keys}
    (moved : task.step settings skew w action = some (task', db, keys))
    (own : action.isProvider = false) (stays : ∀ reachable, action ≠ .release reachable)
    (lives : action ≠ .crash) : task.stage ≠ .releasing := by
  cases Task.step_cases moved with
  | released reachable _ => exact absurd rfl (stays reachable)
  | crashed _ => exact absurd rfl lives
  | decided _ _ => contradiction
  | _ => simp_all

/-- What the task of a step owes after it. -/
theorem Owes.task_stage (owes : Owes p) {k : Nat} {action : TaskAction} {task task' : Task}
    {db : Db} {keys : Keys} (found : p.world.tasks[k]? = some task)
    (own : action.isProvider = false)
    (moved : task.step settings skew p.world action = some (task', db, keys)) {world : World}
    (something : ({ p with world }.follow settings k task
      (task.transitions settings p.world action) action).owed k ≠ []) :
    task'.stage = .releasing ∨ task'.stage = .ended .crashed := by
  have runs := Task.running_of_step moved own
  have nothing : (∀ reachable, action ≠ .release reachable) → action ≠ .crash → p.owed k = [] :=
    fun stays lives => owes.nothing found runs (Task.busy_of_step moved own stays lives)
  cases action with
  | crash =>
    cases Task.step_cases moved with
    | crashed _ => exact .inr rfl
  | release reachable => simp [Process.follow] at something
  | finalize began eventId draw =>
    have none := nothing (by simp) (by simp)
    cases stage : task.stage with
    | committing result since =>
      by_cases refunds : result.refundSlot = true
      · refine .inl (Task.releasing_of_finalize moved stage refunds ?_)
        simpa [Process.follow, stage, refunds] using something
      · simp [Process.follow, stage, refunds, none] at something
    | _ => simp [Process.follow, stage, none] at something
  | _ =>
    have none := nothing (by simp) (by simp)
    simp [Process.follow, none] at something

theorem Owes.step {action : ProcessAction} (owes : Owes p)
    (step : ProcessStep settings skew p action p') : Owes p' := by
  have ⟨workerId, loops⟩ := step.identity
  have owns := Process.owns_congr workerId loops
  cases step with
  | polled _ _ _ _ stepped =>
    refine owes.of_world rfl owns fun k task found _ => ⟨task, ?_, rfl, rfl⟩
    cases stepped
    exact found
  | claimed _ _ stepped _ =>
    refine owes.of_world rfl owns fun k task found _ => ⟨task, ?_, rfl, rfl⟩
    cases World.step_cases stepped with
    | claim _ _ _ _ => rw [List.getElem?_append_left (List.getElem?_eq_some_iff.mp found).1, found]
  | outside allowed stepped =>
    exact owes.of_world rfl owns fun k task found owned =>
      Process.outside_task allowed stepped found owned
  | reaped _ stepped =>
    obtain ⟨invalidations, same⟩ := Process.invalidate_eq settings _ _
    rw [same] at owns ⊢
    exact owes.of_world rfl owns fun k task found owned =>
      Process.outside_task rfl stepped found owned
  | @task k action task task' db keys found owned own moved =>
    intro other something
    have inBounds : k < p.world.tasks.length := (List.getElem?_eq_some_iff.mp found).1
    have world : (Process.follow settings { p with world := { p.world with
        db, keys, tasks := p.world.tasks.set k task' } } k task
        (task.transitions settings p.world action) action).world.tasks =
        p.world.tasks.set k task' := by
      obtain ⟨invalidations, owed, same⟩ := Process.follow_eq settings _ _ _ _ _
      rw [same]
    rw [world]
    by_cases same : other = k
    · subst same
      have worker : task'.worker = task.worker := (Task.step_cases moved).identity.1
      exact ⟨task', List.getElem?_set_self inBounds, by rw [owns, worker, owned],
        owes.task_stage found own moved something⟩
    · rw [Process.follow_owed_other same] at something
      obtain ⟨holder, found', owned', stage⟩ := owes other something
      exact ⟨holder, by rw [List.getElem?_set_ne (Ne.symm same), found'], by rw [owns, owned'], stage⟩
  | _ => exact owes.of_world rfl owns fun k task found _ => ⟨task, found, rfl, rfl⟩

/-- The `CacheInvalidator` has the transition, or a task will hand it over. -/
def Process.Knows (p : Process) (t : Transition) : Prop :=
  (∃ invalidation ∈ p.invalidations, invalidation.transition = t) ∨ ∃ k, t ∈ p.owed k

theorem Process.knows_invalidate (enabled : settings.cacheEnabled = true) {transitions : List Transition}
    {t : Transition} (known : p.Knows t ∨ t ∈ transitions) :
    (p.invalidate settings transitions).Knows t := by
  rw [Process.invalidate, if_pos enabled]
  obtain (⟨invalidation, member, named⟩ | ⟨k, owed⟩) | new := known
  · exact .inl ⟨invalidation, List.mem_append_left _ member, named⟩
  · exact .inr ⟨k, owed⟩
  · exact .inl ⟨⟨t, false⟩, List.mem_append_right _ (List.mem_map_of_mem new), rfl⟩

/-- `_deliver` hands over, at once or later, whatever it committed. -/
theorem Process.knows_follow (enabled : settings.cacheEnabled = true) {k : Nat} {task : Task}
    {moved : List Transition} {action : TaskAction} {t : Transition}
    (settles : ∀ began eventId draw, action = .finalize began eventId draw → p.owed k = [])
    (commits : moved = [] ∨ (∃ began delaySeconds givesBack, action = .returnUnsent began ∧
      task.stage = .returning delaySeconds givesBack) ∨ ∃ began eventId draw result since,
        action = .finalize began eventId draw ∧ task.stage = .committing result since)
    (known : p.Knows t ∨ t ∈ moved) : (p.follow settings k task moved action).Knows t := by
  have kept : moved = [] → p.Knows t := by
    rintro rfl
    simpa using known
  cases action with
  | returnUnsent began => exact Process.knows_invalidate enabled known
  | finalize began eventId draw =>
    cases stage : task.stage with
    | committing result since =>
      simp only [Process.follow, stage]
      split
      · have none := settles began eventId draw rfl
        obtain (invalidated | ⟨other, owed⟩) | new := known
        · exact .inl invalidated
        · refine .inr ⟨other, ?_⟩
          have different : other ≠ k := by
            rintro rfl
            simp [none] at owed
          simpa [different] using owed
        · exact .inr ⟨k, by simpa using new⟩
      · exact Process.knows_invalidate enabled known
    | _ =>
      simp only [Process.follow, stage]
      exact kept (by simpa [stage] using commits)
  | release reachable =>
    have known := kept (by simpa using commits)
    have handed : (p.invalidate settings (p.owed k)).Knows t :=
      Process.knows_invalidate enabled (.inl known)
    obtain invalidated | ⟨other, owed⟩ := handed
    · exact .inl invalidated
    · by_cases same : other = k
      · subst same
        have new : t ∈ p.owed other := by simpa using owed
        rw [Process.follow, Process.invalidate, if_pos enabled]
        exact .inl ⟨⟨t, false⟩, List.mem_append_right _ (List.mem_map_of_mem new), rfl⟩
      · exact .inr ⟨other, by simpa [Process.follow, same] using owed⟩
  | _ => exact kept (by simpa using commits)

/-- The transitions that a step of the process committed. -/
def committedBy (settings : Settings)
    (taken : Taken Process ProcessAction) : List Transition :=
  match taken.label with
  | .task k action =>
    match taken.before.world.tasks[k]? with
    | some task => task.transitions settings taken.before.world action
    | none => []
  | .reap began newEvent choices =>
    ((Process.reapOp settings newEvent choices).commit began taken.before.world.db).1.transitions
  | _ => []

theorem Task.transitions_cases (settings : Settings) (w : World) (task : Task) (action : TaskAction) :
    task.transitions settings w action = [] ∨
      (∃ began delaySeconds givesBack, action = .returnUnsent began ∧
        task.stage = .returning delaySeconds givesBack) ∨
      ∃ began eventId draw result since, action = .finalize began eventId draw ∧
        task.stage = .committing result since := by
  cases action with
  | returnUnsent began =>
    cases stage : task.stage <;> simp [Task.transitions, stage]
  | finalize began eventId draw =>
    cases stage : task.stage <;> simp [Task.transitions, stage]
  | _ => exact .inl rfl

theorem ProcessStep.knows {action : ProcessAction} (enabled : settings.cacheEnabled = true)
    (owes : Owes p) (step : ProcessStep settings skew p action p') {t : Transition}
    (known : p.Knows t ∨ t ∈ committedBy settings ⟨p, action, p'⟩) : p'.Knows t := by
  have kept : committedBy settings ⟨p, action, p'⟩ = [] → p.Knows t := by
    intro none
    simpa [none] using known
  cases step with
  | reaped _ _ => exact Process.knows_invalidate enabled known
  | @task k action task task' db keys found _ own moved =>
    simp only [committedBy, found] at known
    refine Process.knows_follow (p := { p with world := _ }) enabled ?_
      (task.transitions_cases settings p.world action) known
    rintro began eventId draw rfl
    exact owes.nothing found (Task.running_of_step moved own)
      (Task.busy_of_step moved own (by simp) (by simp))
  | @invalidated k transition found =>
    obtain ⟨invalidation, member, named⟩ | owed := kept rfl
    · refine .inl ?_
      obtain ⟨other, inList⟩ := List.mem_iff_getElem?.mp member
      by_cases same : k = other
      · subst same
        obtain rfl : ⟨transition, false⟩ = invalidation :=
          Option.some.inj (found.symm.trans inList)
        exact ⟨⟨transition, true⟩,
          List.mem_set (List.getElem?_eq_some_iff.mp found).1 _, named⟩
      · refine ⟨invalidation, List.mem_iff_getElem?.mpr ⟨other, ?_⟩, named⟩
        rw [List.getElem?_set_ne same, inList]
    · exact .inr owed
  | _ => exact kept rfl

/-! ## Claims after the stop -/

def LoopStage.isClaiming : LoopStage → Bool
  | .claiming _ => true
  | _ => false

/-- The claim of a loop's batch. -/
def ProcessAction.claimsFor (i : Nat) : ProcessAction → Bool
  | .claim loop _ _ _ _ => loop = i
  | _ => false

/-- The batches that a loop claimed with `stop` set. -/
def claimsSinceStop (history : ProcessHistory) (i : Nat) : Nat :=
  history.countP fun taken => taken.before.stopping && taken.label.claimsFor i

/-- The loop is about to claim. -/
def Process.claiming (p : Process) (i : Nat) : Bool := p.loops[i]?.any LoopStage.isClaiming

def Process.claimsAhead (p : Process) (i : Nat) : Nat := if p.claiming i then 1 else 0

theorem Process.claimsAhead_le {i : Nat} (fewer : p'.claiming i = true → p.claiming i = true) :
    p'.claimsAhead i ≤ p.claimsAhead i := by
  unfold Process.claimsAhead
  split
  · next claims => rw [if_pos (fewer claims)]
  · exact Nat.zero_le _

/-- A loop that has claimed since the stop does not claim again. -/
structure FewClaims (history : ProcessHistory) (p : Process) : Prop where
  running : p.stopping = false → ∀ i, claimsSinceStop history i = 0
  atMost : ∀ i, claimsSinceStop history i + p.claimsAhead i ≤ 1

/-- A step that claims nothing, after which no more loops are about to claim. -/
theorem FewClaims.of_quiet {history : ProcessHistory} (few : FewClaims history p)
    {action : ProcessAction} (quiet : ∀ i, action.claimsFor i = false)
    (stopping : p'.stopping = false → p.stopping = false)
    (fewer : ∀ i, p'.claiming i = true → p.claiming i = true) :
    FewClaims (⟨p, action, p'⟩ :: history) p' := by
  have same : ∀ i, claimsSinceStop (⟨p, action, p'⟩ :: history) i = claimsSinceStop history i := by
    intro i
    simp [claimsSinceStop, quiet]
  constructor
  · intro goesOn i
    rw [same]
    exact few.running (stopping goesOn) i
  · intro i
    have atMost := few.atMost i
    have ahead := Process.claimsAhead_le (fewer i)
    rw [same]
    omega

/-- A loop that goes on to something else is not about to claim. -/
theorem Process.claiming_set {i k : Nat} {stage' : LoopStage} {world : World}
    (idle : stage'.isClaiming = false)
    (claims : Process.claiming { p with world, loops := p.loops.set i stage' } k = true) :
    k ≠ i ∧ p.claiming k = true := by
  have different : k ≠ i := by
    rintro rfl
    obtain ⟨stage, found, claiming⟩ := (Option.any_eq_true _ _).mp claims
    obtain ⟨_, rfl⟩ := List.getElem?_eq_some_iff.mp found
    rw [List.getElem_set_self, idle] at claiming
    contradiction
  refine ⟨different, ?_⟩
  simpa only [Process.claiming, List.getElem?_set_ne different.symm] using claims

theorem FewClaims.step {history : ProcessHistory} {action : ProcessAction} (few : FewClaims history p)
    (step : ProcessStep settings skew p action p') :
    FewClaims (⟨p, action, p'⟩ :: history) p' := by
  cases step with
  | stop => exact few.of_quiet (fun _ => rfl) (fun goesOn => by cases goesOn) fun _ claims => claims
  | loopEnded _ _ _ =>
    exact few.of_quiet (fun _ => rfl) id fun _ claims => (Process.claiming_set rfl claims).2
  | claimFailed _ =>
    exact few.of_quiet (fun _ => rfl) id fun _ claims => (Process.claiming_set rfl claims).2
  | polled _ _ goesOn _ _ =>
    -- only a loop that found `stop` unset polls
    have none := few.running goesOn
    have same : ∀ k i p', claimsSinceStop (⟨p, .resumeLoop k, p'⟩ :: history) i = 0 := by
      intro k i p'
      simpa [claimsSinceStop, ProcessAction.claimsFor] using none i
    constructor
    · exact fun _ i => same _ i _
    · intro i
      rw [same, Process.claimsAhead]
      split <;> omega
  | @claimed i _ _ _ _ _ _ tasks found _ _ _ =>
    have idle : LoopStage.isClaiming (if tasks = [] then .sleeping else .processing tasks) =
        false := by
      split <;> rfl
    have about : p.claiming i = true := by simp [Process.claiming, found, LoopStage.isClaiming]
    constructor
    · intro goesOn k
      have none := few.running goesOn k
      have running : p.stopping = false := goesOn
      simpa [claimsSinceStop, running] using none
    · intro k
      have atMost := few.atMost k
      by_cases here : k = i
      · subst here
        rw [Process.claimsAhead, if_pos about] at atMost
        rw [Process.claimsAhead, if_neg fun claims => (Process.claiming_set idle claims).1 rfl]
        simp only [claimsSinceStop, List.countP_cons] at atMost ⊢
        split <;> omega
      · have same : ∀ b began newToken choices p', claimsSinceStop
            (⟨p, .claim i b began newToken choices, p'⟩ :: history) k = claimsSinceStop history k := by
          intros
          simp [claimsSinceStop, ProcessAction.claimsFor, Ne.symm here]
        rw [same]
        exact (Nat.add_le_add_left (Process.claimsAhead_le fun claims =>
          (Process.claiming_set idle claims).2) _).trans atMost
  | watched _ _ =>
    refine few.of_quiet (fun _ => rfl) (fun goesOn => ?_) fun _ claims => claims
    exact (Bool.or_eq_false_iff.mp goesOn).1
  | task _ _ _ _ =>
    obtain ⟨invalidations, owed, same⟩ := Process.follow_eq settings _ _ _ _ _
    rw [same]
    exact few.of_quiet (fun _ => rfl) id fun _ claims => claims
  | reaped _ _ =>
    obtain ⟨invalidations, same⟩ := Process.invalidate_eq settings _ _
    rw [same]
    exact few.of_quiet (fun _ => rfl) id fun _ claims => claims
  | _ => exact few.of_quiet (fun _ => rfl) id fun _ claims => claims

/-! ## Every run -/

/-- The invariant of a process, with what it did so far. -/
structure Sound (settings : Settings) (history : ProcessHistory)
    (p : Process) : Prop where
  loops : p.loops.length = settings.workerConcurrency
  held : Held p.world
  tracked : Tracked p
  ordered : Ordered p
  owes : Owes p
  known : settings.cacheEnabled = true → ∀ t ∈ history.flatMap (committedBy settings), p.Knows t
  few : FewClaims history p

theorem sound_initial {workerId : String} {exitWhenIdle : Bool} {history : WorkerHistory}
    {w : World} (run : Run (workerSystem settings skew) history w)
    (unused : (Process.initial settings workerId exitWhenIdle w).Unused) :
    Sound settings [] (.initial settings workerId exitWhenIdle w) where
  loops := List.length_replicate
  held := held_of_run run
  tracked := by
    constructor
    · intro i batch claims
      simp [Process.initial, List.getElem?_replicate] at claims
    · intro k task found owned
      rw [unused.1 task (List.mem_of_getElem? found)] at owned
      contradiction
  ordered := .of_gathering rfl rfl
  owes := fun _ something => absurd rfl something
  known := by simp
  few := by
    refine ⟨fun _ _ => rfl, fun i => ?_⟩
    simp only [claimsSinceStop, List.countP_nil, Process.claimsAhead]
    split <;> omega

theorem sound_of_run {history : ProcessHistory}
    (run : Run (processSystem settings skew) history p) : Sound settings history p := by
  induction run with
  | start initial =>
    obtain ⟨history, workerId, exitWhenIdle, w, run, rfl, unused⟩ := initial
    exact sound_initial run unused
  | @next history p p' action _ stepped sound =>
    have step := Process.step_cases stepped
    constructor
    case loops => rw [step.identity.2, sound.loops]
    case held =>
      obtain same | ⟨act, moved⟩ | ⟨webhookOutbox, written⟩ := step.world
      · exact same ▸ sound.held
      · exact sound.held.step moved
      · rw [written]
        exact sound.held
    case tracked => exact sound.tracked.step step
    case ordered => exact sound.ordered.step sound.tracked step
    case owes => exact sound.owes.step step
    case known =>
      intro enabled t member
      rw [List.flatMap_cons, List.mem_append] at member
      apply step.knows enabled sound.owes
      cases member with
      | inl new => exact .inr new
      | inr old => exact .inl (sound.known enabled t old)
    case few => exact sound.few.step step

/-- What the process leaves behind when `run_worker` returns. -/
structure Stopped (settings : Settings) (history : ProcessHistory)
    (p : Process) : Prop where
  /-- Every batch was finished. -/
  tasks : ∀ task ∈ p.world.tasks, p.owns task.worker = true → task.stage.hasEnded = true
  /-- A job that is still in processing under one of its loops is one whose `_process` died. -/
  jobs : ∀ j row worker, getJob p.world.db j = some row → row.status = .processing →
    row.lockedBy = some worker → p.owns worker = true →
    ∃ task ∈ p.world.tasks, task.Holds row ∧
      (task.stage = .ended .failed ∨ task.stage = .ended .crashed)
  /-- Every transition has been invalidated, unless its task died between the two. -/
  invalidated : settings.cacheEnabled = true →
    ∀ t ∈ history.flatMap (committedBy settings),
      ⟨t, true⟩ ∈ p.invalidations ∨ ∃ (k : Nat) (task : Task), p.world.tasks[k]? = some task ∧
        t ∈ p.owed k ∧ task.stage = .ended .crashed
  /-- Each loop claimed at most one batch after the stop. -/
  claims : ∀ i, claimsSinceStop history i ≤ 1
  /-- Nothing that runs beside the loops goes on. -/
  others : p.OthersEnded

theorem graceful_stop {history : ProcessHistory}
    (run : Run (processSystem settings skew) history p) (returned : p.main = .ended) :
    Stopped settings history p := by
  have sound := sound_of_run run
  obtain ⟨worker, others⟩ := sound.ordered.gathered (by simp [returned])
  have loops := sound.ordered.loops (by simp [worker])
  have ended : ∀ task ∈ p.world.tasks, p.owns task.worker = true → task.stage.hasEnded = true := by
    intro task member owned
    obtain ⟨k, found⟩ := List.mem_iff_getElem?.mp member
    cases sound.tracked.tasks k task found owned with
    | inl ended => exact ended
    | inr waits =>
      obtain ⟨i, ts, waits, _⟩ := waits
      cases loops _ (List.mem_of_getElem? waits)
  constructor
  case tasks => exact ended
  case jobs =>
    intro j row worker found processing lockedBy owned
    obtain ⟨k, task, inTasks, holds⟩ := sound.held j row found processing
    have member := List.mem_of_getElem? inTasks
    have same : task.worker = worker := Option.some.inj (holds.lockedBy.symm.trans lockedBy)
    have finished := ended task member (same ▸ owned)
    have keeps := holds.keeps
    refine ⟨task, member, holds, ?_⟩
    cases stage : task.stage with
    | ended ending => cases ending <;> simp_all [Stage.letsGo]
    | _ => simp [stage, Stage.hasEnded] at finished
  case invalidated =>
    intro enabled t member
    cases sound.known enabled t member with
    | inl handed =>
      obtain ⟨invalidation, inList, rfl⟩ := handed
      have finished := sound.ordered.ended returned invalidation inList
      refine .inl ?_
      rw [← finished]
      exact inList
    | inr owed =>
      obtain ⟨k, owed⟩ := owed
      obtain ⟨task, found, owned, stage⟩ := sound.owes k (List.ne_nil_of_mem owed)
      refine .inr ⟨k, task, found, owed, ?_⟩
      cases stage with
      | inl releasing =>
        have finished := ended task (List.mem_of_getElem? found) owned
        simp [releasing, Stage.hasEnded] at finished
      | inr crashed => exact crashed
  case claims => exact fun i => (Nat.le_add_right _ _).trans (sound.few.atMost i)
  case others => exact others

end

/-- A loop that is about to claim when the stop comes: one job is refused by the provider, the task
    of the other dies. -/
def stoppedClaiming : ProcessHistory × Process :=
  processRun oneLoop (fun _ => 0) "host-1"
    [.outside (.outside (.createJob 1 (sampleJob 3)) 0),
      .outside (.outside (.createJob 2 (sampleJob 3)) 0), .resumeLoop 0, .resumeDispatcher,
      .resumeReport, .resumeIdleWatch false, .stop,
      .claim 0 0 0 (fun j => j + 70) .alone, .task 0 (.acquire .redis), .task 0 .checkBudget,
      .outside (.task 0 (.provider .rejected)), .task 0 (.endSend (.deliveryError "busy")),
      .task 0 .connect, .task 0 (.finalize 0 900 0), .task 0 (.release true),
      .task 1 (.acquire .redis), .task 1 .crash, .resumeReaper, .claimEvents 0 .alone,
      .dispatch 0 (.endPost (.response 200)), .dispatch 0 (.record 0 0), .resumeDispatcher,
      .resumeReport, .resumeIdleWatch false, .resumeLoop 0, .workerGathered, .invalidated 0,
      .workerDrained, .gathered]

theorem graceful_stop_claiming :
    claimsSinceStop stoppedClaiming.1 0 = 1 ∧
      Stopped oneLoop stoppedClaiming.1 stoppedClaiming.2 := by
  refine ⟨by decide +kernel, graceful_stop (run_processRun _ _ _ _) ?_⟩
  decide +kernel

end NotifyQueue
