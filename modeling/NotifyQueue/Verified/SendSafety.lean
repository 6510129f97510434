import NotifyQueue.Verified.Leases
import NotifyQueue.Verified.WorkerSteps

/-! # No duplicate sends inside the lease budget

A task takes its deadline before the database starts its lease, so the lease ends no
earlier than the deadline on the worker's own clock, and the budget check leaves room for
the send, the wait for a connection and the transaction that records the result.  `Safe` is
that argument as an invariant: as long as the three keep their limits, a task between its
send and its record holds the lease of its job. -/

namespace NotifyQueue

open Runs

/-! ## The assumptions -/

/-- A send has started and its result is not recorded. -/
def Stage.unrecorded : Stage → Bool
  | .sending _ => true
  | .recording _ _ => true
  | .committing _ _ => true
  | _ => false

def SendResult.isSent : SendResult → Bool
  | .sent _ => true
  | _ => false

/-- A request that was accepted is on its way to `mark_sent`. -/
def Stage.carriesSent : Stage → Bool
  | .sending _ => true
  | .recording result _ => result.isSent
  | .committing result _ => result.isSent
  | _ => false

section

variable (settings : Settings)

/-- The limit that the stage of a task sets to its end. -/
def Stage.endsBy : Stage → Option Time
  | .sending startedAt => some (startedAt + settings.sendTimeoutSeconds)
  | .recording _ since => some (since + settings.dbPoolTimeout)
  | .committing _ since => some (since + settings.leaseSafetyMarginSeconds)
  | _ => none

/-- How long the lease must last for the stage and the ones after it. -/
def Stage.needsUntil : Stage → Option Time
  | .sending startedAt => some (startedAt + settings.sendBudgetSeconds)
  | .recording _ since =>
    some (since + settings.dbPoolTimeout + settings.leaseSafetyMarginSeconds)
  | .committing _ since => some (since + settings.leaseSafetyMarginSeconds)
  | _ => none

def InTime (w : World) : Prop :=
  ∀ task ∈ w.tasks, ∀ latest ∈ task.stage.endsBy settings, w.now ≤ latest

instance (w : World) : Decidable (InTime settings w) :=
  inferInstanceAs (Decidable (∀ task ∈ w.tasks, ∀ latest ∈ task.stage.endsBy settings, w.now ≤ latest))

/-- What is assumed of a step of a task: no crash between the start of a send and its record,
    a send that returns normally exactly when the provider accepted, and a transaction that
    commits. -/
def Task.behaves (task task' : Task) : TaskAction → Bool
  | .crash => !task.stage.unrecorded
  | .provider verdict => verdict = .accepted → task.stage.isSending
  | .endSend result => result.isSent = decide (task.request = some .accepted)
  | .finalize _ _ _ => task'.stage ≠ .ended .failed
  | _ => true

/-- The same of a step of the system. -/
def behavesIn (taken : Taken World Action) : Bool :=
  match taken.label with
  | .task i action => taken.before.tasks[i]?.all fun task => taken.after.tasks[i]?.all fun task' =>
      task.behaves task' action
  | _ => true

/-- What is assumed of a step: it draws no token twice, and every task keeps its limits and
    behaves. -/
structure Timely (taken : Taken World Action) : Prop where
  distinct : (taken.after.tasks.map Task.claimToken).Nodup
  inTime : InTime settings taken.after
  behaves : behavesIn taken = true

instance (taken : Taken World Action) : Decidable (Timely settings taken) :=
  decidable_of_iff ((taken.after.tasks.map Task.claimToken).Nodup ∧ InTime settings taken.after ∧
      behavesIn taken = true)
    ⟨fun ⟨distinct, inTime, behaves⟩ => ⟨distinct, inTime, behaves⟩,
      fun timely => ⟨timely.distinct, timely.inTime, timely.behaves⟩⟩

end

theorem Timely.task {settings : Settings} {w w' : World} {i : Nat} {action : TaskAction}
    {task task' : Task}
    (timely : Timely settings ⟨w, .task i action, w'⟩) (found : w.tasks[i]? = some task)
    (found' : w'.tasks[i]? = some task') : task.behaves task' action = true := by
  have behaves := timely.behaves
  simpa only [behavesIn, found, found', Option.all_some] using behaves

/-! ## The invariant -/

/-- What holds of one task at a time, given the tables. -/
structure TaskSafe (settings : Settings) (skew : String → Time) (now : Time) (db : Db) (task : Task) :
    Prop where
  /-- The deadline is no later than the end of the lease, unless it has passed already. -/
  deadline : task.stage = .acquiring ∨ task.stage = .admitted →
    (∃ expiresAt, leaseOf db task.job.id task.claimToken = some expiresAt ∧
      task.leaseDeadline - skew task.worker ≤ expiresAt) ∨
    task.leaseDeadline - skew task.worker < now
  leased : ∀ needed ∈ task.stage.needsUntil settings, ∃ expiresAt,
    leaseOf db task.job.id task.claimToken = some expiresAt ∧ needed ≤ expiresAt
  unsent : task.request.isSome = true → task.stage.unrecorded = true ∨
    task.stage = .releasing ∨ ∃ ending, task.stage = .ended ending ∧ ending ≠ .leaseLost
  /-- An accepted request is on its way to `mark_sent`, or its job is sent. -/
  accepted : task.request = some .accepted → task.stage.carriesSent = true ∨
    ∃ row, getJob db task.job.id = some row ∧ row.status = .sent

structure Safe (settings : Settings) (skew : String → Time) (w : World) : Prop where
  distinct : (w.tasks.map Task.claimToken).Nodup
  inTime : InTime settings w
  /-- A deadline is taken before the claim, on the worker's clock. -/
  polled : ∀ batch ∈ w.batches,
    batch.leaseDeadline - skew batch.worker = batch.polledAt + settings.leaseSeconds
  tasks : ∀ task ∈ w.tasks, TaskSafe settings skew w.now w.db task
  once : ∀ task ∈ w.tasks, ∀ task' ∈ w.tasks, task.job.id = task'.job.id →
    task.request = some .accepted → task'.request = some .accepted → task = task'

/-! ## One step -/

section

variable {settings : Settings} {skew : String → Time}

theorem Stage.endsBy_le_needsUntil (pool : 0 ≤ settings.dbPoolTimeout)
    (margin : 0 ≤ settings.leaseSafetyMarginSeconds) {stage : Stage} {needed : Time}
    (needs : needed ∈ stage.needsUntil settings) :
    ∃ latest ∈ stage.endsBy settings, latest ≤ needed := by
  cases stage with
  | sending startedAt =>
    cases needs
    refine ⟨_, rfl, ?_⟩
    simp only [Settings.sendBudgetSeconds]
    linarith
  | recording result since =>
    cases needs
    exact ⟨_, rfl, by linarith⟩
  | committing result since =>
    cases needs
    exact ⟨_, rfl, le_rfl⟩
  | _ => cases needs

theorem sameIndex {tasks : List Task} (distinct : (tasks.map Task.claimToken).Nodup) {i k : Nat}
    {task task' : Task} (found : tasks[i]? = some task) (found' : tasks[k]? = some task')
    (tokens : task.claimToken = task'.claimToken) : i = k := by
  have bound : i < (tasks.map Task.claimToken).length := by
    rw [List.length_map]
    exact (List.getElem?_eq_some_iff.mp found).1
  apply (List.getElem?_inj bound distinct).mp
  simp only [List.getElem?_map, found, found', Option.map_some, tokens]

/-- What a step can do to the lease of a task that does not make it, and to a sent job. -/
structure Frame (now : Time) (db db' : Db) (task : Task) : Prop where
  lease : ∀ expiresAt, leaseOf db task.job.id task.claimToken = some expiresAt →
    leaseOf db' task.job.id task.claimToken = some expiresAt ∨ expiresAt < now
  sent : ∀ row, getJob db task.job.id = some row → row.status = .sent →
    getJob db' task.job.id = some row

theorem Frame.refl (now : Time) (db : Db) (task : Task) : Frame now db db task :=
  ⟨fun _ lease => .inl lease, fun _ found _ => found⟩

theorem WorldStep.frame {w w' : World} {action : Action} (step : WorldStep settings skew w action w')
    (distinct : (w.tasks.map Task.claimToken).Nodup) {k : Nat} {task : Task}
    (found : w.tasks[k]? = some task) (other : ∀ taskAction, action ≠ .task k taskAction) :
    Frame w.now w.db w'.db task := by
  cases step.commits with
  | inl same =>
    rw [same]
    exact .refl _ _ _
  | inr commits =>
    obtain ⟨op, began, answer, committed, past, presents⟩ := commits
    have foreign : op.presents ≠ some (task.job.id, task.claimToken) := by
      intro presented
      obtain ⟨i, taskAction, caller, label, found', named⟩ := presents _ presented
      exact other taskAction (by rw [label, sameIndex distinct found' found (Prod.mk.inj named).2.symm])
    constructor
    · intro expiresAt lease
      cases leaseOf_commit committed lease foreign with
      | inl kept => exact .inl kept
      | inr expired => exact .inr (lt_of_lt_of_le expired past)
    · intro row found sent
      exact sent_stays committed found sent

/-- A task that does not move stays safe. -/
theorem TaskSafe.frame (pool : 0 ≤ settings.dbPoolTimeout)
    (margin : 0 ≤ settings.leaseSafetyMarginSeconds) {now now' : Time} {db db' : Db} {task : Task}
    (safe : TaskSafe settings skew now db task) (frame : Frame now db db' task) (later : now ≤ now')
    (inTime : ∀ latest ∈ task.stage.endsBy settings, now ≤ latest) :
    TaskSafe settings skew now' db' task where
  deadline early := by
    cases safe.deadline early with
    | inr passed => exact .inr (lt_of_lt_of_le passed later)
    | inl leased =>
      obtain ⟨expiresAt, lease, covers⟩ := leased
      cases frame.lease expiresAt lease with
      | inl kept => exact .inl ⟨expiresAt, kept, covers⟩
      | inr expired => exact .inr (lt_of_le_of_lt covers (lt_of_lt_of_le expired later))
  leased needed needs := by
    obtain ⟨expiresAt, lease, covers⟩ := safe.leased needed needs
    obtain ⟨latest, ends, before⟩ := Stage.endsBy_le_needsUntil pool margin needs
    have unexpired : ¬ expiresAt < now := by
      have := inTime latest ends
      linarith
    exact ⟨expiresAt, (frame.lease expiresAt lease).resolve_right unexpired, covers⟩
  unsent := safe.unsent
  accepted yes := by
    cases safe.accepted yes with
    | inl carries => exact .inl carries
    | inr recorded =>
      obtain ⟨row, found, sent⟩ := recorded
      exact .inr ⟨row, frame.sent row found sent, sent⟩

/-- A task without a request is safe when its deadline is. -/
theorem TaskSafe.of_unsent {now : Time} {db : Db} {task : Task} (unsent : task.request = none)
    (quiet : task.stage.needsUntil settings = none)
    (deadline : task.stage = .acquiring ∨ task.stage = .admitted →
      (∃ expiresAt, leaseOf db task.job.id task.claimToken = some expiresAt ∧
        task.leaseDeadline - skew task.worker ≤ expiresAt) ∨
      task.leaseDeadline - skew task.worker < now) : TaskSafe settings skew now db task where
  deadline := deadline
  leased needed needs := by
    rw [quiet] at needs
    cases needs
  unsent sent := by
    rw [unsent] at sent
    cases sent
  accepted yes := by
    rw [unsent] at yes
    cases yes

/-- A task that is done with its request is safe. -/
theorem TaskSafe.of_done {now : Time} {db : Db} {task : Task}
    (done : task.stage = .releasing ∨ ∃ ending, task.stage = .ended ending ∧ ending ≠ .leaseLost)
    (accepted : task.request = some .accepted → ∃ row, getJob db task.job.id = some row ∧
      row.status = .sent) : TaskSafe settings skew now db task where
  deadline early := by
    obtain stage | ⟨ending, stage, _⟩ := done <;> rw [stage] at early <;> simp at early
  leased needed needs := by
    obtain stage | ⟨ending, stage, _⟩ := done <;> rw [stage] at needs <;> cases needs
  unsent _ := .inr done
  accepted yes := .inr (accepted yes)

/-- The stages that come before the send. -/
def Stage.unstarted : Stage → Bool
  | .acquiring => true
  | .admitted => true
  | .returning _ _ => true
  | _ => false

theorem TaskSafe.request_of_unstarted {now : Time} {db : Db} {task : Task}
    (safe : TaskSafe settings skew now db task) {stage : Stage} (at' : task.stage = stage)
    (unstarted : stage.unstarted = true) : task.request = none := by
  subst at'
  cases request : task.request with
  | none => rfl
  | some verdict =>
    -- a task with a request is past the stages before the send
    obtain unrecorded | releasing | ⟨ending, stage, _⟩ := safe.unsent (by rw [request]; rfl)
    · cases stage : task.stage <;> simp_all [Stage.unrecorded, Stage.unstarted]
    · rw [releasing] at unstarted
      contradiction
    · rw [stage] at unstarted
      contradiction

/-- A send that starts within the budget is covered by the lease. -/
theorem TaskSafe.startsSend {now : Time} {db : Db} {task : Task}
    (safe : TaskSafe settings skew now db task) (stage : task.stage = .admitted)
    (inBudget : settings.sendBudgetSeconds ≤ task.leaseDeadline - monotonic skew task.worker now)
    (ends : now ≤ now + settings.sendTimeoutSeconds) (pool : 0 ≤ settings.dbPoolTimeout)
    (margin : 0 ≤ settings.leaseSafetyMarginSeconds) :
    TaskSafe settings skew now db { task.to (.sending now) with request := some .undecided } := by
  have covers : now + settings.sendBudgetSeconds ≤ task.leaseDeadline - skew task.worker := by
    simp only [monotonic] at inBudget
    linarith
  have unpassed : ¬ task.leaseDeadline - skew task.worker < now := by
    simp only [Settings.sendBudgetSeconds] at covers
    linarith
  -- the budget still fits before the deadline, so the lease covers it
  obtain ⟨expiresAt, lease, before⟩ := (safe.deadline (.inr stage)).resolve_right unpassed
  exact
    { deadline := by simp [Task.to]
      leased := by
        intro needed needs
        cases needs
        exact ⟨expiresAt, lease, covers.trans before⟩
      unsent := fun _ => .inl rfl
      accepted := by simp }

/-- Once a task has recorded its result, the job of an accepted request is sent. -/
theorem TaskSafe.sent_of_recorded {now began since draw : Time} {db db' : Db} {task : Task}
    {result : SendResult} {eventId : EventId} {op : JobOp} {t : Transition}
    (safe : TaskSafe settings skew now db task) (stage : task.stage = .committing result since)
    (records : task.recordOp settings result eventId draw = some op)
    (committed : op.commit began db = (.finished (some t), db'))
    (yes : task.request = some .accepted) :
    ∃ row, getJob db' task.job.id = some row ∧ row.status = .sent := by
  cases safe.accepted yes with
  | inl carries =>
    rw [stage] at carries
    cases result with
    | sent providerMessageId =>
      cases records
      exact sent_of_markSent committed
    | _ => cases carries
  | inr recorded =>
    obtain ⟨row, found, sent⟩ := recorded
    exact ⟨row, sent_stays committed found sent, sent⟩

/-- The step lemma of one task. -/
theorem TaskStep.safe {w : World} {task task' : Task} {action : TaskAction} {db : Db} {keys : Keys}
    (step : TaskStep settings skew w task action (task', db, keys))
    (safe : TaskSafe settings skew w.now w.db task)
    (pool : 0 ≤ settings.dbPoolTimeout) (margin : 0 ≤ settings.leaseSafetyMarginSeconds)
    (inTime : ∀ latest ∈ task.stage.endsBy settings, w.now ≤ latest)
    (inTime' : ∀ latest ∈ task'.stage.endsBy settings, w.now ≤ latest)
    (behaves : task.behaves task' action = true) : TaskSafe settings skew w.now db task' := by
  cases step with
  | admitted key stage ran =>
    have unsent := safe.request_of_unstarted stage rfl
    exact .of_unsent unsent rfl fun _ => safe.deadline (.inl stage)
  | turnedAway key ms delaySeconds stage ran =>
    have unsent := safe.request_of_unstarted stage rfl
    exact .of_unsent unsent rfl (by simp [Task.to])
  | admittedByFallback stage =>
    have unsent := safe.request_of_unstarted stage rfl
    exact .of_unsent unsent rfl fun _ => safe.deadline (.inl stage)
  | turnedAwayByFallback delaySeconds stage =>
    have unsent := safe.request_of_unstarted stage rfl
    exact .of_unsent unsent rfl (by simp [Task.to])
  | acquireRaised stage =>
    have unsent := safe.request_of_unstarted stage rfl
    exact .of_unsent unsent rfl (by simp [Task.to])
  | overBudget stage late =>
    have unsent := safe.request_of_unstarted stage rfl
    exact .of_unsent unsent rfl (by simp [Task.to])
  | sendStarted stage inBudget =>
    -- the limit of the send itself shows that the timeout is not negative
    exact safe.startsSend stage inBudget (inTime' _ rfl) pool margin
  | @returned began delaySeconds givesBack t db stage past committed =>
    have unsent := safe.request_of_unstarted stage rfl
    cases givesBack <;> exact .of_unsent unsent rfl (by simp [Task.to])
  | returnLost stage =>
    have unsent := safe.request_of_unstarted stage rfl
    exact .of_unsent unsent rfl (by simp [Task.to])
  | decided verdict undecided =>
    exact
      { deadline := safe.deadline
        leased := safe.leased
        unsent := fun _ => safe.unsent (by rw [undecided]; rfl)
        accepted := by
          intro yes
          cases yes
          -- the provider decides only on a request that is open
          have sending : task.stage.isSending = true := by simpa [Task.behaves] using behaves
          refine .inl ?_
          show task.stage.carriesSent = true
          cases stage : task.stage <;> simp_all [Stage.isSending, Stage.carriesSent] }
  | @sendEnded startedAt result stage agrees =>
    obtain ⟨expiresAt, lease, covers⟩ := safe.leased (startedAt + settings.sendBudgetSeconds)
      (by rw [stage]; rfl)
    have ended : w.now ≤ startedAt + settings.sendTimeoutSeconds := inTime _ (by rw [stage]; rfl)
    exact
      { deadline := by simp [Task.to]
        leased := by
          intro needed needs
          cases needs
          refine ⟨expiresAt, lease, ?_⟩
          simp only [Settings.sendBudgetSeconds] at covers
          linarith
        unsent := fun _ => .inl rfl
        accepted := by
          intro yes
          have yes : task.request = some .accepted := yes
          refine .inl ?_
          show result.isSent = true
          simpa [Task.behaves, yes] using behaves }
  | @connected result since stage =>
    obtain ⟨expiresAt, lease, covers⟩ := safe.leased
      (since + settings.dbPoolTimeout + settings.leaseSafetyMarginSeconds) (by rw [stage]; rfl)
    have waited : w.now ≤ since + settings.dbPoolTimeout := inTime _ (by rw [stage]; rfl)
    exact
      { deadline := by simp [Task.to]
        leased := by
          intro needed needs
          cases needs
          exact ⟨expiresAt, lease, by linarith⟩
        unsent := fun _ => .inl rfl
        accepted := by
          intro yes
          have accepted := safe.accepted yes
          rw [stage] at accepted
          exact accepted }
  | @recorded result since began eventId draw op t db stage past records committed =>
    have sent := safe.sent_of_recorded stage records committed
    cases refunds : result.refundSlot with
    | false => exact .of_done (.inr ⟨.finished, by simp [Task.to], by simp⟩) sent
    | true => exact .of_done (.inl (by simp [Task.to])) sent
  | @recordLost result since began eventId draw op stage records committed =>
    -- the lease still stands, so the call was not fenced out
    obtain ⟨expiresAt, lease, _⟩ := safe.leased (since + settings.leaseSafetyMarginSeconds)
      (by rw [stage]; rfl)
    have recorded : (op.commit began w.db).1 ≠ .finished none :=
      not_fencedOut_of_lease lease (recordOp_presents records)
    rw [committed] at recorded
    exact absurd rfl recorded
  | recordRaised stage => simp [Task.behaves, Task.to] at behaves
  | released reachable stage =>
    refine .of_done (.inr ⟨.finished, rfl, by simp⟩) ?_
    intro yes
    have accepted := safe.accepted yes
    rw [stage] at accepted
    exact accepted.resolve_left (by simp [Stage.carriesSent])
  | crashed running =>
    refine .of_done (.inr ⟨.crashed, rfl, by simp⟩) ?_
    intro yes
    -- a worker that still has a result to record does not crash
    have recorded : task.stage.unrecorded = false := by simpa [Task.behaves] using behaves
    refine (safe.accepted yes).resolve_left ?_
    cases stage : task.stage <;> simp_all [Stage.unrecorded, Stage.carriesSent]

/-- Only a send of the provider's adds to the accepted requests. -/
theorem TaskStep.accepted {w : World} {task task' : Task} {action : TaskAction} {db : Db} {keys : Keys}
    (step : TaskStep settings skew w task action (task', db, keys))
    (behaves : task.behaves task' action = true) (yes : task'.request = some .accepted) :
    task.request = some .accepted ∨ task.stage.isSending = true := by
  cases step with
  | decided verdict undecided =>
    cases yes
    exact .inr (by simpa [Task.behaves] using behaves)
  | sendStarted _ _ => cases yes
  | _ => exact .inl yes

/-! ## One holder -/

theorem TaskSafe.lease_of_unrecorded {now : Time} {db : Db} {task : Task}
    (safe : TaskSafe settings skew now db task) (unrecorded : task.stage.unrecorded = true) :
    ∃ expiresAt, leaseOf db task.job.id task.claimToken = some expiresAt := by
  have needs : ∃ needed, needed ∈ task.stage.needsUntil settings := by
    cases stage : task.stage <;> rw [stage] at unrecorded <;> cases unrecorded <;> exact ⟨_, rfl⟩
  obtain ⟨needed, needs⟩ := needs
  obtain ⟨expiresAt, lease, _⟩ := safe.leased needed needs
  exact ⟨expiresAt, lease⟩

theorem Stage.unrecorded_of_carriesSent {stage : Stage} (carries : stage.carriesSent = true) :
    stage.unrecorded = true := by
  cases stage <;> first | rfl | cases carries

theorem Stage.unrecorded_of_isSending {stage : Stage} (sending : stage.isSending = true) :
    stage.unrecorded = true := by
  cases stage <;> first | rfl | cases sending

/-- While a task has a result to record, no other request of its job is accepted or open. -/
theorem TaskSafe.token_eq {now : Time} {db : Db} {task other : Task}
    (safe : TaskSafe settings skew now db task) (safe' : TaskSafe settings skew now db other)
    (sameJob : task.job.id = other.job.id) (unrecorded : task.stage.unrecorded = true)
    (open' : other.request = some .accepted ∨ other.stage.unrecorded = true) :
    task.claimToken = other.claimToken := by
  obtain ⟨expiresAt, lease⟩ := safe.lease_of_unrecorded unrecorded
  have holds : other.stage.unrecorded = true → task.claimToken = other.claimToken := by
    intro unrecorded'
    obtain ⟨expiresAt', lease'⟩ := safe'.lease_of_unrecorded unrecorded'
    rw [← sameJob] at lease'
    exact token_of_leases lease lease'
  cases open' with
  | inr unrecorded' => exact holds unrecorded'
  | inl yes =>
    cases safe'.accepted yes with
    | inl carries => exact holds (Stage.unrecorded_of_carriesSent carries)
    | inr recorded =>
      -- a sent job is not processing under anybody's token
      obtain ⟨row, found, sent⟩ := recorded
      obtain ⟨row', found', owned, _⟩ := leaseOf_eq_some.mp lease
      rw [sameJob, found] at found'
      cases found'
      have processing := (fenced_iff.mp owned).2.2
      rw [sent] at processing
      cases processing

/-- Where an accepted request comes from in a step. -/
theorem WorldStep.accepted {w w' : World} {action : Action} (step : WorldStep settings skew w action w')
    (timely : Timely settings ⟨w, action, w'⟩) {k : Nat} {task' : Task}
    (found' : w'.tasks[k]? = some task') (yes : task'.request = some .accepted) :
    ∃ task, w.tasks[k]? = some task ∧ task'.job = task.job ∧
      (task.request = some .accepted ∨ task.stage.unrecorded = true) := by
  cases step.origin found' with
  | kept found _ => exact ⟨task', found, rfl, .inl yes⟩
  | @moved taskAction task label found stepped _ =>
    refine ⟨task, found, stepped.identity.2.1, ?_⟩
    subst label
    have behaves := timely.task found found'
    exact (stepped.accepted behaves yes).imp id Stage.unrecorded_of_isSending
  | claimed _ _ _ _ _ _ _ _ new =>
    subst new
    cases yes

/-- The step lemma of the system. -/
theorem Safe.step {w w' : World} {action : Action} (safe : Safe settings skew w)
    (pool : 0 ≤ settings.dbPoolTimeout) (margin : 0 ≤ settings.leaseSafetyMarginSeconds)
    (step : WorldStep settings skew w action w') (timely : Timely settings ⟨w, action, w'⟩) :
    Safe settings skew w' where
  distinct := timely.distinct
  inTime := timely.inTime
  polled := by
    cases step with
    | poll worker =>
      intro batch member
      rw [List.mem_append, List.mem_singleton] at member
      cases member with
      | inl old => exact safe.polled batch old
      | inr new =>
        subst new
        simp only [monotonic]
        ring
    | claim _ _ _ _ => exact fun batch member => safe.polled batch (List.mem_of_mem_eraseIdx member)
    | _ => exact safe.polled
  tasks task' member := by
    obtain ⟨k, found'⟩ := List.mem_iff_getElem?.mp member
    cases step.origin found' with
    | kept found other =>
      have inWorld := List.mem_of_getElem? found
      exact (safe.tasks task' inWorld).frame pool margin (step.frame safe.distinct found other)
        step.now_le (safe.inTime task' inWorld)
    | @moved taskAction task label found stepped sameTime =>
      have inWorld := List.mem_of_getElem? found
      subst label
      rw [sameTime]
      refine stepped.safe (safe.tasks task inWorld) pool margin (safe.inTime task inWorld) ?_
        (timely.task found found')
      rw [← sameTime]
      exact timely.inTime task' member
    | @claimed b batch began newToken choices jobs job claimToken label late found later past ran
        inJobs held new =>
      subst new
      refine .of_unsent rfl rfl fun _ => .inl ⟨_, leaseOf_claimed ran inJobs held, ?_⟩
      rw [safe.polled batch (List.mem_of_getElem? found)]
      linarith
  once := by
    intro task' member task'' member' sameJob yes yes'
    obtain ⟨i, found'⟩ := List.mem_iff_getElem?.mp member
    obtain ⟨k, found''⟩ := List.mem_iff_getElem?.mp member'
    obtain ⟨before, found, job, was⟩ := step.accepted timely found' yes
    obtain ⟨before', foundToo, job', was'⟩ := step.accepted timely found'' yes'
    rw [job, job'] at sameJob
    have inWorld := List.mem_of_getElem? found
    have inWorld' := List.mem_of_getElem? foundToo
    -- each was accepted before this step or is unrecorded, and an unrecorded one holds the lease
    have tokens : before.claimToken = before'.claimToken := by
      cases was with
      | inr unrecorded =>
        exact (safe.tasks before inWorld).token_eq (safe.tasks before' inWorld') sameJob unrecorded was'
      | inl accepted =>
        cases was' with
        | inr unrecorded' =>
          exact ((safe.tasks before' inWorld').token_eq (safe.tasks before inWorld) sameJob.symm
            unrecorded' (.inl accepted)).symm
        | inl accepted' =>
          rw [safe.once before inWorld before' inWorld' sameJob accepted accepted']
    -- tokens are not drawn twice
    have same : i = k := sameIndex safe.distinct found foundToo tokens
    subst same
    exact Option.some.inj (found'.symm.trans found'')

end

/-! ## Every run -/

theorem safe_initial (settings : Settings) (skew : String → Time) (start : Time) :
    Safe settings skew (.initial start) where
  distinct := List.nodup_nil
  inTime task member := by cases member
  polled batch member := by cases member
  tasks task member := by cases member
  once task member := by cases member

theorem safe_of_run {settings : Settings} {skew : String → Time} {history : WorkerHistory} {w : World}
    (run : Run (workerSystem settings skew) history w) (pool : 0 ≤ settings.dbPoolTimeout)
    (margin : 0 ≤ settings.leaseSafetyMarginSeconds)
    (timely : Along (fun _ => Timely settings) history) : Safe settings skew w := by
  refine Run.invariant (I := fun _ => Safe settings skew) ?_ ?_ run timely
  · rintro _ ⟨start, rfl⟩
    exact safe_initial settings skew start
  · intro history w action w' _ _ safe timely step
    exact safe.step pool margin (World.step_cases step) timely

/-- No two sends of a job overlap; from the start of a send until its result is recorded its
    claim stands, so that the call that records it is not fenced out; no task that sent ends
    with a lost lease; and the provider accepts at most one request of a job. -/
theorem no_duplicate_send {settings : Settings} {skew : String → Time} {history : WorkerHistory}
    {w : World} (run : Run (workerSystem settings skew) history w) (pool : 0 ≤ settings.dbPoolTimeout)
    (margin : 0 ≤ settings.leaseSafetyMarginSeconds)
    (timely : Along (fun _ => Timely settings) history) :
    (∀ (i k : Nat) (task task' : Task), w.tasks[i]? = some task → w.tasks[k]? = some task' →
      task.job.id = task'.job.id → task.stage.isSending = true → task'.stage.isSending = true →
      i = k) ∧
    (∀ task ∈ w.tasks, task.stage.unrecorded = true →
      (∃ row, getJob w.db task.job.id = some row ∧ row.status = .processing ∧
        row.claimToken = some task.claimToken) ∧
      ∀ op began, JobOp.presents op = some (task.job.id, task.claimToken) →
        (op.commit began w.db).1 ≠ .finished none) ∧
    (∀ task ∈ w.tasks, task.request.isSome = true → task.stage ≠ .ended .leaseLost) ∧
    ∀ (i k : Nat) (task task' : Task), w.tasks[i]? = some task → w.tasks[k]? = some task' →
      task.job.id = task'.job.id → task.request = some .accepted → task'.request = some .accepted →
      i = k := by
  have safe := safe_of_run run pool margin timely
  refine ⟨?_, ?_, ?_, ?_⟩
  · intro i k task task' found found' sameJob sending sending'
    have tokens := (safe.tasks task (List.mem_of_getElem? found)).token_eq
      (safe.tasks task' (List.mem_of_getElem? found')) sameJob (Stage.unrecorded_of_isSending sending)
      (.inr (Stage.unrecorded_of_isSending sending'))
    exact sameIndex safe.distinct found found' tokens
  · intro task member unrecorded
    obtain ⟨expiresAt, lease⟩ := (safe.tasks task member).lease_of_unrecorded unrecorded
    obtain ⟨row, found, owned, _⟩ := leaseOf_eq_some.mp lease
    have ⟨_, held, processing⟩ := fenced_iff.mp owned
    exact ⟨⟨row, found, processing, held⟩, fun op began => not_fencedOut_of_lease lease⟩
  · intro task member sent lost
    -- none of the stages after a request is the one that lost its lease
    obtain unrecorded | releasing | ⟨ending, stage, other⟩ := (safe.tasks task member).unsent sent
    · rw [lost] at unrecorded
      cases unrecorded
    · rw [lost] at releasing
      cases releasing
    · rw [lost] at stage
      cases stage
      exact other rfl
  · intro i k task task' found found' sameJob yes yes'
    have same := safe.once task (List.mem_of_getElem? found) task' (List.mem_of_getElem? found')
      sameJob yes yes'
    exact sameIndex safe.distinct found found' (congrArg Task.claimToken same)

/-- A first send is rejected; a second worker sends the job again and waits to record it. -/
def retriedSend : WorkerHistory × World :=
  workerRun .default (fun _ => 5) 0
    [.outside (.createJob 1 (sampleJob 3)) 0, .poll "worker-1", .claim 0 0 (fun _ => 70) .alone,
      .task 0 (.acquire .redis), .task 0 .checkBudget, .task 0 (.provider .rejected), .tick 1,
      .task 0 (.endSend (.deliveryError "busy")), .task 0 .connect, .task 0 (.finalize 1 900 0),
      .task 0 (.release true), .tick 1, .poll "worker-2", .claim 0 2 (fun _ => 71) .alone,
      .task 1 (.acquire .redis), .task 1 .checkBudget, .task 1 (.provider .accepted), .tick 1,
      .task 1 (.endSend (.sent none)), .task 1 .connect]

/-- The result of the second send is not fenced out. -/
theorem no_duplicate_send_retried :
    ((JobOp.markSent 1 71 "worker-2" none "" 901).commit 3 retriedSend.2.db).1 ≠ .finished none := by
  have run : Run (workerSystem .default fun _ => 5) retriedSend.1 retriedSend.2 := run_workerRun _ _ _ _
  have timely : Along (fun _ => Timely .default) retriedSend.1 := by decide +kernel
  have second : ∃ task ∈ retriedSend.2.tasks, task.stage.unrecorded = true ∧
      (task.job.id, task.claimToken) = (1, 71) := by decide +kernel
  obtain ⟨task, member, unrecorded, named⟩ := second
  have safe := no_duplicate_send run (by decide +kernel) (by decide +kernel) timely
  exact (safe.2.1 task member unrecorded).2 _ 3 (congrArg some named.symm)

end NotifyQueue
