import NotifyQueue.Lib.Texts
import NotifyQueue.Senders.MockSender
import NotifyQueue.Verified.Leases
import NotifyQueue.Verified.WorkerSteps

/-! # Sent once, whoever recorded it

`Accepted` says that the provider's log has a record for a job and that a message id names it.
The log never forgets a record, so everything that carries a message id (the provider's answer,
a task on its way to `mark_sent`, a row of `deliveries`) stays accepted (`Vouched`), through
crashes and stalls at any point.  The key of a record is the id of its job, so a job has one. -/

namespace NotifyQueue

open Runs Tables

/-! ## The provider's log -/

/-- The key of every record is the id of its job. -/
def Keyed (log : ProviderLog) : Prop :=
  ∀ record ∈ log.rows, record.providerIdempotencyKey = record.jobId.repr

/-- The log has a record of the job, and `providerMessageId` names it. -/
def Accepted (log : ProviderLog) (j : JobId) (providerMessageId : Option String) : Prop :=
  ∃ record ∈ log.rows, record.jobId = j ∧ providerMessageId = some (MockSender.messageId record.id)

/-- What a request does to the log: it keeps what was accepted. -/
structure Grows (log log' : ProviderLog) : Prop where
  keyed : Keyed log'
  accepted : ∀ j providerMessageId, Accepted log j providerMessageId → Accepted log' j providerMessageId

theorem Grows.refl {log : ProviderLog} (keyed : Keyed log) : Grows log log := ⟨keyed, fun _ _ => id⟩

theorem only_record {log : ProviderLog} (keyed : Keyed log) {record other : ProviderRecord}
    (member : record ∈ log.rows) (otherMember : other ∈ log.rows) (same : other.jobId = record.jobId) :
    other = record := by
  have key : other.key = some record.jobId.repr := by
    rw [ProviderRecord.key, keyed other otherMember, same]
  have key' : record.key = some record.jobId.repr := by
    rw [ProviderRecord.key, keyed record member]
  exact Table.eq_of_uk otherMember member key key'

/-- A request that is recorded is accepted, under the id that the provider returns. -/
theorem record_accepts {id : Nat} {now : Time} {job : Job} {log log' : ProviderLog} {recordId : Nat}
    {deduplicated : Bool} (keyed : Keyed log)
    (recorded : MockSender.record id now job log = .ok ((recordId, deduplicated), log')) :
    Grows log log' ∧ Accepted log' job.id (some (MockSender.messageId recordId)) := by
  unfold MockSender.record at recorded
  split at recorded
  · next inserted =>
    cases recorded
    have rows := Table.rows_insert inserted
    refine ⟨⟨?_, ?_⟩, ?_⟩
    · intro record member
      rw [rows, List.mem_append, List.mem_singleton] at member
      rcases member with old | rfl
      · exact keyed record old
      · rfl
    · rintro j providerMessageId ⟨record, member, named⟩
      exact ⟨record, by simp [rows, member], named⟩
    · exact ⟨MockSender.newRecord id now job, by simp [rows], rfl, rfl⟩
  · -- the key is taken: its record counts the repeated request
    split at recorded
    · next row matched =>
      cases recorded
      obtain ⟨old, member, sameKey, rfl⟩ := Table.mem_of_returning_head matched
      -- counting a repeat changes neither the id nor the job of a record
      have kept : ∀ record ∈ log.rows, ∃ record' ∈ (log.update (MockSender.sameKey job)
          MockSender.absorb (fun _ => rfl) fun _ => rfl).rows,
          record'.id = record.id ∧ record'.jobId = record.jobId := by
        intro record member
        refine ⟨_, List.mem_map_of_mem member, ?_⟩
        split <;> exact ⟨rfl, rfl⟩
      refine ⟨⟨?_, ?_⟩, ?_⟩
      · intro record' member'
        obtain ⟨record, inLog, rfl⟩ := List.mem_map.mp member'
        split <;> exact keyed record inLog
      · rintro j providerMessageId ⟨record, inLog, named, message⟩
        obtain ⟨record', member', sameId, sameJob⟩ := kept record inLog
        exact ⟨record', member', sameJob.trans named, by rw [message, sameId]⟩
      · have named : old.jobId = job.id := by
          simp only [MockSender.sameKey, decide_eq_true_eq] at sameKey
          exact Texts.repr_injective ((keyed old member).symm.trans sameKey)
        obtain ⟨record', member', sameId, sameJob⟩ := kept old member
        exact ⟨record', member', sameJob.trans named, by rw [sameId]; rfl⟩
    · cases recorded
  · cases recorded

/-- A send that returns a message id was accepted; any other leaves the log alone. -/
theorem send_accepts {failureRate draw : ℚ} {simulate : Option String} {id : Nat} {now : Time}
    {job : Job}
    {log log' : ProviderLog} {result : SendResult} {deduplicated : Bool} (keyed : Keyed log)
    (sent : MockSender.send failureRate simulate draw id now job log = ((result, deduplicated), log')) :
    Grows log log' ∧ ∀ providerMessageId, result = .sent providerMessageId →
      Accepted log' job.id providerMessageId := by
  unfold MockSender.send at sent
  split at sent
  · cases sent
    exact ⟨.refl keyed, by simp⟩
  · split at sent
    · cases sent
      exact ⟨.refl keyed, by simp⟩
    · split at sent
      · cases sent
        exact ⟨.refl keyed, by simp⟩
      · split at sent
        · next recordId _ _ recorded =>
          cases sent
          obtain ⟨grows, accepted⟩ := record_accepts keyed recorded
          refine ⟨grows, ?_⟩
          rintro _ ⟨⟩
          exact accepted
        · cases sent
          exact ⟨.refl keyed, by simp⟩

/-! ## What the workers carry -/

/-- The result that a task is about to record. -/
def Stage.result : Stage → Option SendResult
  | .recording result _ => some result
  | .committing result _ => some result
  | _ => none

section

variable {settings : Settings} {skew : String → Time} {w w' : World} {action : Action}

/-- A task carries the result it was handed. -/
theorem TaskStep.result {task task' : Task} {taskAction : TaskAction} {db : Db} {keys : Keys}
    (step : TaskStep settings skew w task taskAction (task', db, keys)) {result : SendResult}
    (carries : task'.stage.result = some result) :
    task.stage.result = some result ∨ taskAction = .endSend result := by
  cases step with
  | sendEnded _ _ _ =>
    cases carries
    exact .inr rfl
  | connected stage =>
    rw [stage]
    exact .inl carries
  | decided _ _ => exact .inl carries
  | returned stage _ _ =>
    simp only [Task.to] at carries
    split at carries <;> cases carries
  | recorded stage _ _ _ =>
    simp only [Task.to] at carries
    split at carries <;> cases carries
  | _ => cases carries

theorem WorldStep.task_kept (step : WorldStep settings skew w action w') {i : Nat} {task : Task}
    (found : w.tasks[i]? = some task) : ∃ task', w'.tasks[i]? = some task' ∧ task'.job = task.job := by
  cases step with
  | tick _ => exact ⟨task, found, rfl⟩
  | poll _ => exact ⟨task, found, rfl⟩
  | outside _ _ _ => exact ⟨task, found, rfl⟩
  | claim _ _ _ _ =>
    refine ⟨task, ?_, rfl⟩
    rw [List.getElem?_append_left (List.getElem?_eq_some_iff.mp found).1]
    exact found
  | @task k _ old moved db keys found' stepped =>
    by_cases same : k = i
    · subst same
      have inTasks := (List.getElem?_eq_some_iff.mp found').1
      cases found'.symm.trans found
      exact ⟨moved, by simp [inTasks], stepped.identity.2.1⟩
    · exact ⟨task, by simp [same, found], rfl⟩

/-- Only `mark_sent` files a delivery, with the message id that it was given. -/
theorem OpStep.delivery {now : Time} {j : JobId} {s s' : Slice} {op : JobOp} {event : Option JobEvent}
    (step : OpStep now j s op event s') {delivery : Delivery} (filed : s'.delivery = some delivery) :
    s.delivery = some delivery ∨ ∃ claimToken workerId url eventId,
      op = .markSent j claimToken workerId delivery.providerMessageId url eventId := by
  cases step with
  | sent _ _ _ _ =>
    cases filed
    exact .inr ⟨_, _, _, _, rfl⟩
  | _ => exact .inl filed

theorem sent_of_recordOp {task : Task} {result : SendResult} {eventId : EventId} {draw : Time}
    {j : JobId} {claimToken : ClaimToken} {workerId url : String} {providerMessageId : Option String}
    {eventId' : EventId} (records : task.recordOp settings result eventId draw =
      some (.markSent j claimToken workerId providerMessageId url eventId')) :
    task.job.id = j ∧ result = .sent providerMessageId := by
  cases result with
  | sent message =>
    simp only [Task.recordOp, SendResult.error, SendResult.providerMessageId, Option.some.injEq,
      JobOp.markSent.injEq] at records
    exact ⟨records.1, congrArg _ records.2.2.2.1⟩
  | _ =>
    simp only [Task.recordOp, SendResult.error] at records
    split at records <;> cases records

/-- A delivery that was filed carries the message id that a task of its job was handed. -/
theorem WorldStep.delivered (step : WorldStep settings skew w action w') {j : JobId}
    {delivery : Delivery} (filed : (w'.db.slice j).delivery = some delivery) :
    (w.db.slice j).delivery = some delivery ∨ ∃ task ∈ w.tasks, task.job.id = j ∧
      task.stage.result = some (.sent delivery.providerMessageId) := by
  cases step with
  | tick _ => exact .inl filed
  | poll _ => exact .inl filed
  | @claim b batch began newToken choices jobs db _ _ _ claimed =>
    have committed : (JobOp.claimDueJobs batch.worker settings.batchSize settings.leaseSeconds
        newToken choices).commit began w.db = (.claimed jobs, db) := by
      rw [commit_claimDueJobs, claimed]
    -- no other operation files a delivery
    cases (commit_op committed j).delivery filed with
    | inl old => exact .inl old
    | inr marked =>
      obtain ⟨_, _, _, _, marked⟩ := marked
      cases marked
  | outside outside _ committed =>
    cases (commit_op committed j).delivery filed with
    | inl old => exact .inl old
    | inr marked =>
      obtain ⟨_, _, _, _, rfl⟩ := marked
      cases outside
  | task found stepped =>
    cases stepped with
    | returned _ _ committed =>
      cases (commit_op committed j).delivery filed with
      | inl old => exact .inl old
      | inr marked =>
        obtain ⟨_, _, _, _, marked⟩ := marked
        cases marked
    | recorded stage _ records committed =>
      cases (commit_op committed j).delivery filed with
      | inl old => exact .inl old
      | inr marked =>
        obtain ⟨_, _, _, _, rfl⟩ := marked
        obtain ⟨named, rfl⟩ := sent_of_recordOp records
        exact .inr ⟨_, List.mem_of_getElem? found, named, by rw [stage]; rfl⟩
    | _ => exact .inl filed

end

/-! ## The invariant -/

/-- Every message id that somebody holds names the record of its job. -/
structure Vouched (s : SendingWorld) : Prop where
  keyed : Keyed s.log
  replied : ∀ i providerMessageId, s.replies i = some (.sent providerMessageId) →
    ∃ task, s.world.tasks[i]? = some task ∧ Accepted s.log task.job.id providerMessageId
  carried : ∀ task ∈ s.world.tasks, ∀ providerMessageId,
    task.stage.result = some (.sent providerMessageId) → Accepted s.log task.job.id providerMessageId
  delivered : ∀ j delivery, (s.world.db.slice j).delivery = some delivery →
    Accepted s.log j delivery.providerMessageId

section

variable {settings : Settings} {skew : String → Time} {failureRate : ℚ}
  {simulate : String → Option String}

/-- The tasks and the tables after a step of the workers, for a log that only grew. -/
theorem Vouched.world {s : SendingWorld} (vouched : Vouched s) {action : Action} {w' : World}
    {log' : ProviderLog} {replies' : Nat → Option SendResult} (grows : Grows s.log log')
    (step : WorldStep settings skew s.world action w')
    (handed : ∀ i result, action = .task i (.endSend (.sent result)) → s.replies i = some (.sent result))
    (replied : ∀ i providerMessageId, replies' i = some (.sent providerMessageId) →
      s.replies i = some (.sent providerMessageId) ∨ ∃ task, s.world.tasks[i]? = some task ∧
        Accepted log' task.job.id providerMessageId) :
    Vouched ⟨w', log', replies'⟩ where
  keyed := grows.keyed
  replied := by
    intro i providerMessageId reply
    have earlier : ∃ task, s.world.tasks[i]? = some task ∧
        Accepted log' task.job.id providerMessageId := by
      cases replied i providerMessageId reply with
      | inl old =>
        obtain ⟨task, found, accepted⟩ := vouched.replied i providerMessageId old
        exact ⟨task, found, grows.accepted _ _ accepted⟩
      | inr new => exact new
    obtain ⟨task, found, accepted⟩ := earlier
    obtain ⟨task', found', sameJob⟩ := step.task_kept found
    exact ⟨task', found', by rw [sameJob]; exact accepted⟩
  carried := by
    intro task' member providerMessageId carries
    obtain ⟨k, found'⟩ := List.getElem?_of_mem member
    refine grows.accepted _ _ ?_
    -- the result of a task is the provider's answer to it
    cases step.origin found' with
    | kept found _ => exact vouched.carried task' (List.mem_of_getElem? found) _ carries
    | @moved taskAction task label found stepped _ =>
      rw [stepped.identity.2.1]
      cases stepped.result carries with
      | inl old => exact vouched.carried task (List.mem_of_getElem? found) _ old
      | inr ended =>
        subst ended
        obtain ⟨task₀, found₀, accepted⟩ := vouched.replied k _ (handed k _ label)
        cases found₀.symm.trans found
        exact accepted
    | claimed _ _ _ _ _ _ _ _ new =>
      subst new
      cases carries
  delivered := by
    intro j delivery filed
    refine grows.accepted _ _ ?_
    cases step.delivered filed with
    | inl old => exact vouched.delivered j delivery old
    | inr recorded =>
      obtain ⟨task, member, rfl, carries⟩ := recorded
      exact vouched.carried task member _ carries

/-- Every step keeps the account: a worker is handed only what the provider answered. -/
theorem Vouched.step {s s' : SendingWorld} {action : SendingAction} (vouched : Vouched s)
    (stepped : s.step settings skew failureRate simulate action = some s') : Vouched s' := by
  cases action with
  | worker action =>
    simp only [SendingWorld.step, Option.ite_none_right_eq_some, Option.map_eq_some_iff] at stepped
    obtain ⟨allowed, w', stepped, rfl⟩ := stepped
    refine vouched.world (.refl vouched.keyed) (World.step_cases stepped) ?_ fun _ _ => .inl
    rintro i result rfl
    simpa [SendingWorld.allows] using allowed
  | provider i draw id =>
    simp only [SendingWorld.step] at stepped
    split at stepped
    · cases stepped
    · next task found =>
      simp only [Option.map_eq_some_iff] at stepped
      obtain ⟨w', stepped, rfl⟩ := stepped
      obtain ⟨grows, accepts⟩ := send_accepts vouched.keyed (Prod.ext (Prod.ext rfl rfl) rfl :
        MockSender.send failureRate (simulate task.job.payload) draw id s.world.now task.job s.log =
          ((_, _), _))
      refine vouched.world grows (World.step_cases stepped) (fun _ _ same => by cases same) ?_
      intro k providerMessageId reply
      split at reply
      · next same =>
        subst same
        exact .inr ⟨task, found, accepts _ (Option.some.inj reply)⟩
      · exact .inl reply

theorem vouched_of_run {history : SendingHistory} {s : SendingWorld}
    (run : Run (sendingSystem settings skew failureRate simulate) history s) : Vouched s := by
  refine Run.state_invariant ?_ (fun s action s' vouched => vouched.step) run
  rintro s ⟨start, rfl⟩
  exact ⟨by simp [Keyed, SendingWorld.initial, Table.empty], by simp [SendingWorld.initial],
    by simp [SendingWorld.initial, World.initial], by simp [SendingWorld.initial, World.initial]⟩

theorem SendingWorld.world_step {s s' : SendingWorld} {action : SendingAction}
    (stepped : s.step settings skew failureRate simulate action = some s') :
    ∃ action', s.world.step settings skew action' = some s'.world := by
  cases action with
  | worker action =>
    simp only [SendingWorld.step, Option.ite_none_right_eq_some, Option.map_eq_some_iff] at stepped
    obtain ⟨_, w', stepped, rfl⟩ := stepped
    exact ⟨action, stepped⟩
  | provider i draw id =>
    simp only [SendingWorld.step] at stepped
    split at stepped
    · cases stepped
    · simp only [Option.map_eq_some_iff] at stepped
      obtain ⟨w', stepped, rfl⟩ := stepped
      exact ⟨_, stepped⟩

/-- The workers behind the provider are the worker system. -/
theorem sending_refines :
    Simulation (sendingSystem settings skew failureRate simulate) (workerSystem settings skew)
      (fun _ => True) (fun s w => s.world = w) where
  init := by
    rintro s ⟨start, rfl⟩
    exact ⟨.initial start, ⟨start, rfl⟩, rfl⟩
  step := by
    rintro s action s' w _ rfl step
    obtain ⟨action', stepped⟩ := SendingWorld.world_step step
    exact ⟨s'.world, .single stepped, rfl⟩

theorem coherent_sending {history : SendingHistory} {s : SendingWorld}
    (run : Run (sendingSystem settings skew failureRate simulate) history s) (j : JobId) :
    Coherent (s.world.db.slice j) := by
  obtain ⟨workerHistory, w, reached, same⟩ := sending_refines.run (fun _ _ _ => trivial) run
  rw [same]
  exact coherent_world reached j

/-- No step touches a sent job. -/
theorem SendingWorld.idle_of_sent {s s' : SendingWorld} {action : SendingAction}
    (stepped : s.step settings skew failureRate simulate action = some s') {j : JobId} {row : Job}
    (found : getJob s.world.db j = some row) (sent : row.status = .sent) :
    s'.world.db.slice j = s.world.db.slice j := by
  obtain ⟨action', stepped⟩ := SendingWorld.world_step stepped
  cases (World.step_cases stepped).commits with
  | inl same => rw [same]
  | inr commits =>
    obtain ⟨op, began, answer, committed, _⟩ := commits
    exact (commit_op committed j).idle_of_sent found sent

/-- A step that changes the tables leaves the log alone. -/
theorem SendingWorld.log_or_db {s s' : SendingWorld} {action : SendingAction}
    (stepped : s.step settings skew failureRate simulate action = some s') :
    s'.log = s.log ∨ s'.world.db = s.world.db := by
  cases action with
  | worker action =>
    simp only [SendingWorld.step, Option.ite_none_right_eq_some, Option.map_eq_some_iff] at stepped
    obtain ⟨_, w', _, rfl⟩ := stepped
    exact .inl rfl
  | provider i draw id =>
    simp only [SendingWorld.step] at stepped
    split at stepped
    · cases stepped
    · simp only [Option.map_eq_some_iff] at stepped
      obtain ⟨w', stepped, rfl⟩ := stepped
      cases World.step_cases stepped with
      | task _ taken =>
        cases taken with
        | decided _ _ => exact .inr rfl

/-- A sent job has a delivery, which names the record of the job. -/
theorem recorded_of_sent {history : SendingHistory} {s : SendingWorld}
    (run : Run (sendingSystem settings skew failureRate simulate) history s) {j : JobId} {row : Job}
    (found : getJob s.world.db j = some row) (sent : row.status = .sent) :
    ∃ record delivery, record ∈ s.log.rows ∧ record.jobId = j ∧
      s.world.db.deliveries.lookup j = some delivery ∧
      delivery.providerMessageId = some (MockSender.messageId record.id) := by
  have filed := ((coherent_sending run j).present row found).delivery.mpr sent
  obtain ⟨delivery, filed⟩ := Option.isSome_iff_exists.mp filed
  obtain ⟨record, member, named, message⟩ := (vouched_of_run run).delivered j delivery filed
  exact ⟨record, delivery, member, named, filed, message⟩

/-- Whatever crashes and whoever retries: a sent job has one record at the provider and one
    delivery, the delivery names the record, a job is recorded as sent only after the provider
    accepted it, and from then on nothing about it changes. -/
theorem effectively_once {history : SendingHistory} {s : SendingWorld}
    (run : Run (sendingSystem settings skew failureRate simulate) history s) (j : JobId) :
    (∀ row, getJob s.world.db j = some row → row.status = .sent →
      (∃ record delivery, (s.log.select fun other => other.jobId = j) = [record] ∧
        (s.world.db.deliveries.select fun other => other.jobId = j) = [delivery] ∧
        delivery.providerMessageId = some (MockSender.messageId record.id)) ∧
      ∀ action s', s.step settings skew failureRate simulate action = some s' →
        s'.world.db.slice j = s.world.db.slice j) ∧
    ∀ action s' row', s.step settings skew failureRate simulate action = some s' →
      getJob s'.world.db j = some row' → row'.status = .sent →
      ∃ record ∈ s.log.rows, record.jobId = j := by
  constructor
  · intro row found sent
    refine ⟨?_, fun action s' stepped => SendingWorld.idle_of_sent stepped found sent⟩
    obtain ⟨record, delivery, member, named, filed, message⟩ := recorded_of_sent run found sent
    refine ⟨record, delivery, ?_, ?_, message⟩
    · refine Table.select_eq_singleton member (by simp [named]) ?_
      intro other otherMember same
      have keyed := (vouched_of_run run).keyed
      exact only_record keyed member otherMember (by rw [named]; simpa using same)
    · have ⟨inTable, key⟩ := Table.lookup_eq_some.mp filed
      refine Table.select_eq_singleton inTable (by simp [key]) ?_
      intro other otherMember same
      have otherKey : other.jobId = delivery.jobId := by rw [key]; simpa using same
      exact List.inj_on_of_nodup_map s.world.db.deliveries.pk_nodup otherMember inTable otherKey
  · intro action s' row' stepped found' sent
    have step : (sendingSystem settings skew failureRate simulate).step s action s' := stepped
    -- a step that changes the tables cannot be the one that adds the record
    cases SendingWorld.log_or_db stepped with
    | inl sameLog =>
      obtain ⟨record, _, member, named, _⟩ := recorded_of_sent (.next run step) found' sent
      rw [sameLog] at member
      exact ⟨record, member, named⟩
    | inr sameDb =>
      rw [sameDb] at found'
      obtain ⟨record, _, member, named, _⟩ := recorded_of_sent run found' sent
      exact ⟨record, member, named⟩

end

/-- The first worker crashes after its send was accepted; a second one sends again and records. -/
def crashedSend : SendingHistory × SendingWorld :=
  runOf (SendingWorld.step .default (fun _ => 5) 0 fun _ => none) (.initial 0)
    [.worker (.outside (.createJob 1 (sampleJob 3)) 0), .worker (.poll "worker-a"),
      .worker (.claim 0 0 (fun _ => 70) .alone), .worker (.task 0 (.acquire .redis)),
      .worker (.task 0 .checkBudget), .provider 0 1 1, .worker (.task 0 .crash), .worker (.tick 40),
      .worker (.outside (.reapExpiredLeases 5 "" (fun _ => 900) .alone) 40),
      .worker (.poll "worker-b"), .worker (.claim 0 40 (fun _ => 71) .alone),
      .worker (.task 1 (.acquire .redis)), .worker (.task 1 .checkBudget), .provider 1 1 2,
      .worker (.task 1 (.endSend (.sent (some "mock-1")))), .worker (.task 1 .connect),
      .worker (.task 1 (.finalize 40 901 0))]

theorem effectively_once_crashed :
    ∃ record delivery, (crashedSend.2.log.select fun other => other.jobId = 1) = [record] ∧
      (crashedSend.2.world.db.deliveries.select fun other => other.jobId = 1) = [delivery] ∧
      delivery.providerMessageId = some (MockSender.messageId record.id) := by
  have run : Run (sendingSystem .default (fun _ => 5) 0 fun _ => none) crashedSend.1 crashedSend.2 :=
    run_runOf _ ⟨0, rfl⟩ _
  obtain ⟨row, found, sent⟩ :
      ∃ row, getJob crashedSend.2.world.db 1 = some row ∧ row.status = .sent := by
    decide +kernel
  exact ((effectively_once run 1).1 row found sent).1

end NotifyQueue
