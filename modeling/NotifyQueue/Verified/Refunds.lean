import NotifyQueue.Verified.SharedSlots

/-! # Refunds of slots

A worker gives a slot back when its own send was rejected, or when it did not send at all.
The slot may carry more than that: an earlier claim of the job can have sent on it, and kept
it because its message may have gone out.  `sentSince` reads off a history which claims
sent since the slot was taken.  A claim knows what became of its own request, so nothing
delivered is refunded where each slot is given back by the only claim that sent on it:
`refund_undelivered`. -/

namespace NotifyQueue

open Runs

/-! ## What was sent on a slot -/

section

variable (settings : Settings) (slotId : String × JobId)

/-- The step takes the slot afresh: it was not held, and now it is. -/
def takesSlot (taken : Taken World Action) : Bool :=
  match taken.label with
  | .task i (.acquire .redis) => (taken.before.tasks[i]?).any fun task => task.slotId = slotId &&
      ((taken.before.keys slotId.1).held (redisMs taken.before.now) settings.windowMs).score
        slotId.2 = none &&
      ((taken.after.keys slotId.1).slots.score slotId.2).isSome
  | _ => false

/-- The task that starts its send in the step, for the job of the slot. -/
def startsSend (taken : Taken World Action) : Option Nat :=
  match taken.label with
  | .task i .checkBudget => if (taken.after.tasks[i]?).any fun task =>
      task.slotId = slotId && task.stage.isSending then some i else none
  | _ => none

/-- The tasks that sent since the slot was taken. -/
def sentSince : WorkerHistory → List Nat
  | [] => []
  | taken :: earlier =>
    if takesSlot settings slotId taken then []
    else (startsSend slotId taken).toList ++ sentSince earlier

end

def World.accepted (w : World) (i : Nat) : Bool :=
  (w.tasks[i]?).any fun task => task.request = some .accepted

/-- When a slot is given back, no request sent since it was taken is accepted. -/
def RefundedUndelivered (settings : Settings) (earlier : WorkerHistory) (taken : Taken World Action) :
    Prop :=
  ∀ task ∈ releaser taken, (taken.before.slot task.slotId).isSome = true →
    ∀ i ∈ sentSince settings task.slotId earlier, taken.before.accepted i = false

instance (settings : Settings) (earlier : WorkerHistory) (taken : Taken World Action) :
    Decidable (RefundedUndelivered settings earlier taken) :=
  inferInstanceAs (Decidable (∀ task ∈ releaser taken, _ → ∀ i ∈ _, _))

/-- A slot is given back only by the one claim that sent on it since it was taken, or when none
    did. -/
def RefundsOwnSend (settings : Settings) (earlier : WorkerHistory) (taken : Taken World Action) :
    Prop :=
  match taken.label with
  | .task i (.release true) => ∀ task ∈ taken.before.tasks[i]?,
      (taken.before.slot task.slotId).isSome = true →
        ∀ sender ∈ sentSince settings task.slotId earlier, sender = i
  | _ => True

instance (settings : Settings) (earlier : WorkerHistory) (taken : Taken World Action) :
    Decidable (RefundsOwnSend settings earlier taken) := by
  unfold RefundsOwnSend
  split <;> infer_instance

/-! ## A claim and its own request -/

/-- From the decision to give the slot back until it is done. -/
def Stage.refunds : Stage → Bool
  | .returning _ givesBack => givesBack
  | .recording result _ => result.refundSlot
  | .committing result _ => result.refundSlot
  | .releasing => true
  | _ => false

/-- A claim that has not come to its send has no request, and one that is about to give its slot
    back has none or a rejected one. -/
structure Task.Unaccepted (task : Task) : Prop where
  unsent : task.stage = .acquiring ∨ task.stage = .admitted → task.request = none
  refunded : task.stage.refunds = true → task.request = none ∨ task.request = some .rejected

/-- A send that ends in an error of the provider was rejected. -/
theorem rejected_of_refundSlot {result : SendResult} {request : Option Verdict}
    (refunds : result.refundSlot = true) (agrees : request.any result.agrees = true) :
    request = some .rejected := by
  cases request with
  | none => cases agrees
  | some verdict =>
    cases result with
    | sent _ => cases refunds
    | exception _ => cases refunds
    | permanentDeliveryError _ => simpa [SendResult.agrees] using agrees
    | deliveryError _ => simpa [SendResult.agrees] using agrees

section

variable {settings : Settings} {skew : String → Time} {w w' : World} {action : Action}

theorem TaskStep.unaccepted {task : Task} {taskAction : TaskAction} {effect : Effect}
    (step : TaskStep settings skew w task taskAction effect) (held : task.Unaccepted) :
    effect.1.Unaccepted := by
  obtain ⟨unsent, refunded⟩ := held
  cases step with
  | admitted _ stage _ => exact ⟨fun _ => unsent (.inl stage), fun refunds => by cases refunds⟩
  | admittedByFallback stage =>
    exact ⟨fun _ => unsent (.inl stage), fun refunds => by cases refunds⟩
  | overBudget stage _ =>
    exact ⟨fun _ => unsent (.inr stage), fun _ => .inl (unsent (.inr stage))⟩
  | sendStarted _ _ => exact ⟨by simp [Task.to], fun refunds => by cases refunds⟩
  | @returned _ _ givesBack _ _ stage _ _ =>
    rw [stage] at refunded
    constructor
    · cases givesBack <;> simp [Task.to]
    · cases givesBack with
      | true => exact fun _ => refunded rfl
      | false => exact fun refunds => by cases refunds
  | decided verdict undecided =>
    -- a request that is undecided is none of those
    constructor
    · intro stage
      have none := unsent stage
      rw [undecided] at none
      cases none
    · intro refunds
      have before := refunded refunds
      simp [undecided] at before
  | sendEnded result stage agrees =>
    exact ⟨by simp [Task.to], fun refunds => .inr (rejected_of_refundSlot refunds agrees)⟩
  | connected stage =>
    rw [stage] at refunded
    exact ⟨by simp [Task.to], refunded⟩
  | @recorded result _ _ _ _ _ _ _ stage _ _ _ =>
    rw [stage] at refunded
    cases given : result.refundSlot with
    | true => exact ⟨by simp [Task.to], fun _ => refunded given⟩
    | false => exact ⟨by simp [Task.to], by simp [Task.to, Stage.refunds]⟩
  | released reachable _ => exact ⟨by simp [Task.to, Task.release], fun refunds => by cases refunds⟩
  | _ => exact ⟨by simp [Task.to], fun refunds => by cases refunds⟩

theorem unaccepted_step (held : ∀ task ∈ w.tasks, task.Unaccepted)
    (step : WorldStep settings skew w action w') : ∀ task ∈ w'.tasks, task.Unaccepted := by
  intro task' member
  obtain ⟨k, found'⟩ := List.mem_iff_getElem?.mp member
  cases step.origin found' with
  | kept found _ => exact held task' (List.mem_of_getElem? found)
  | claimed _ _ _ _ _ _ _ _ new =>
    subst new
    exact ⟨fun _ => rfl, fun refunds => by cases refunds⟩
  | moved _ found stepped => exact stepped.unaccepted (held _ (List.mem_of_getElem? found))

end

/-! ## Every run -/

theorem unaccepted_of_run {settings : Settings} {skew : String → Time} {history : WorkerHistory}
    {w : World} (run : Run (workerSystem settings skew) history w) :
    ∀ task ∈ w.tasks, task.Unaccepted := by
  refine Run.state_invariant (I := fun w => ∀ task ∈ w.tasks, task.Unaccepted) ?_ ?_ run
  · rintro _ ⟨start, rfl⟩ task member
    cases member
  · intro w action w' held step
    exact unaccepted_step held (World.step_cases step)

/-- Where every slot is given back by the only claim that sent on it, no slot is given back of a
    request that was accepted. -/
theorem refund_undelivered {settings : Settings} {skew : String → Time} {history : WorkerHistory}
    {w : World} (run : Run (workerSystem settings skew) history w)
    (own : Along (RefundsOwnSend settings) history) :
    Along (RefundedUndelivered settings) history := by
  induction run with
  | start _ => trivial
  | @next history w w' action run step inductionHypothesis =>
    refine ⟨?_, inductionHypothesis own.2⟩
    intro task releases shown sender sent
    obtain ⟨i, rfl, found⟩ := mem_releaser.mp releases
    obtain rfl : sender = i := own.1 task found shown sender sent
    have releasing : task.stage = .releasing := by
      cases World.step_cases step with
      | task found' stepped =>
        cases found'.symm.trans found
        cases stepped with
        | released _ stage => exact stage
    -- the claim's own request
    have own := (unaccepted_of_run run task (List.mem_of_getElem? found)).refunded
      (by rw [releasing]; rfl)
    cases own with
    | inl none => simp [World.accepted, found, none]
    | inr rejected => simp [World.accepted, found, rejected]

/-- A job whose only send is rejected. -/
def refundedRejection : WorkerHistory × World :=
  workerRun .default (fun _ => 0) 0
    [.outside (.createJob 1 (sampleJob 3)) 0, .poll "worker-1", .claim 0 0 (fun _ => 70) .alone,
      .task 0 (.acquire .redis), .task 0 .checkBudget, .task 0 (.provider .rejected),
      .task 0 (.endSend (.deliveryError "busy")), .task 0 .connect, .task 0 (.finalize 0 900 0),
      .task 0 (.release true)]

theorem refund_undelivered_rejection :
    Along (RefundedUndelivered .default) refundedRejection.1 :=
  have run : Run (workerSystem .default fun _ => 0) refundedRejection.1 refundedRejection.2 :=
    run_workerRun _ _ _ _
  refund_undelivered run (by decide +kernel)

/-- The first send times out although the provider accepts it, and its slot is kept; the second
    one, admitted on that slot, is rejected. -/
def refundedDelivery : WorkerHistory × World :=
  workerRun .default (fun _ => 0) 0
    [.outside (.createJob 1 (sampleJob 3)) 0, .poll "worker-1", .claim 0 0 (fun _ => 70) .alone,
      .task 0 (.acquire .redis), .task 0 .checkBudget, .task 0 (.provider .accepted), .tick 10,
      .task 0 (.endSend (.exception "TimeoutError: ")), .task 0 .connect,
      .task 0 (.finalize 10 900 0), .tick 1, .poll "worker-2", .claim 0 11 (fun _ => 71) .alone,
      .task 1 (.acquire .redis), .task 1 .checkBudget, .task 1 (.provider .rejected),
      .task 1 (.endSend (.deliveryError "busy")), .task 1 .connect, .task 1 (.finalize 11 901 0),
      .task 1 (.release true)]

/-- The second claim gives back the slot on which the first one delivered. -/
theorem refund_after_delivery :
    Run (workerSystem .default fun _ => 0) refundedDelivery.1 refundedDelivery.2 ∧
      refundedDelivery.2.accepted 0 = true ∧ ¬ Along (RefundedUndelivered .default) refundedDelivery.1 :=
  ⟨run_workerRun _ _ _ _, by decide +kernel, by decide +kernel⟩

end NotifyQueue
