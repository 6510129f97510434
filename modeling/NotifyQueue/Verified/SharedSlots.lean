import NotifyQueue.Verified.SlidingWindow
import NotifyQueue.Verified.WorkerSteps

/-! # Slots that claims of one job share

A slot belongs to a job, not to a claim: a claim that finds its job in the set is admitted
on the slot that an earlier one took.  The earlier claim gives the job up in one
transaction and the slot in a later call to Redis, and nothing fences that call.
`slot_present_iff` says exactly which releases take the slot away from a claim that was
admitted on it. -/

namespace NotifyQueue

open Runs SortedSets

/-! ## Claims and their slots -/

/-- The key and the member of the slot that a task uses. -/
def Task.slotId (task : Task) : String × JobId := (task.job.recipient, task.job.id)

/-- The score of a slot, as Redis shows it. -/
def World.slot (w : World) (slotId : String × JobId) : Option Int :=
  ((w.keys slotId.1).at (redisMs w.now)).slots.score slotId.2

/-- Admitted, and its send not over. -/
def Stage.usesSlot : Stage → Bool
  | .admitted => true
  | .sending _ => true
  | _ => false

/-- The window of the slot that a task was admitted on still lasts. -/
def Task.slotLasts (settings : Settings) (now : Time) (task : Task) : Prop :=
  ∃ taken, task.slot = some taken ∧ redisMs now < taken + settings.windowMs

/-- Every claim that sends, or was admitted and may still send, was admitted on a slot, which
    stays in the set until its window ends. -/
def SlotsHeld (settings : Settings) (w : World) : Prop :=
  ∀ task ∈ w.tasks, task.stage.usesSlot = true → ∃ taken, task.slot = some taken ∧
    (redisMs w.now < taken + settings.windowMs → w.slot task.slotId = some taken)

/-- Redis answers the calls of the limiter. -/
def redisReachable (taken : Taken World Action) : Bool :=
  match taken.label with
  | .task _ (.acquire (.fallback _)) => false
  | .task _ (.release reachable) => reachable
  | _ => true

/-- The task that gives its slot back. -/
def releaser (taken : Taken World Action) : Option Task :=
  match taken.label with
  | .task i (.release true) => taken.before.tasks[i]?
  | _ => none

/-- A release happens while no other claim of the job is between its admission on the slot and
    the end of its send. -/
def ReleasesUnused (settings : Settings) (taken : Taken World Action) : Prop :=
  ∀ task ∈ releaser taken, ∀ other ∈ taken.before.tasks,
    other.slotId = task.slotId → other.stage.usesSlot = true →
      ¬ other.slotLasts settings taken.before.now

instance (settings : Settings) (now : Time) (task : Task) :
    Decidable (task.slotLasts settings now) :=
  decidable_of_iff (∃ taken ∈ task.slot, redisMs now < taken + settings.windowMs) Iff.rfl

instance (settings : Settings) (taken : Taken World Action) :
    Decidable (ReleasesUnused settings taken) :=
  inferInstanceAs (Decidable (∀ task ∈ releaser taken, ∀ other ∈ taken.before.tasks, _ → _ → _))

theorem mem_releaser {w w' : World} {action : Action} {task : Task} :
    task ∈ releaser ⟨w, action, w'⟩ ↔
      ∃ i, action = .task i (.release true) ∧ w.tasks[i]? = some task := by
  unfold releaser
  constructor
  · intro found
    split at found
    · next i label => exact ⟨i, label, found⟩
    · cases found
  · rintro ⟨i, rfl, found⟩
    exact found

def World.KeysSound (settings : Settings) (w : World) : Prop :=
  ∀ recipient, (w.keys recipient).Sound settings.windowMs (redisMs w.now)

section

variable {settings : Settings} {skew : String → Time}

theorem Keys.write_same (keys : Keys) (recipient : String) (key : RateKey) :
    keys.write recipient key recipient = key := by
  simp [Keys.write]

theorem Keys.write_other (keys : Keys) {recipient other : String} (key : RateKey)
    (different : other ≠ recipient) : keys.write recipient key other = keys other := by
  simp [Keys.write, different]

/-- What a step does to the keys. -/
inductive KeysStep (settings : Settings) (w : World) (action : Action) (w' : World) : Prop where
  | untouched (same : w'.keys = w.keys) (later : w.now ≤ w'.now)
      (unreleased : ∀ i, action ≠ .task i (.release true)) : KeysStep settings w action w'
  | acquired {i : Nat} {task : Task} {reply : AcquireReply} {key : RateKey}
      (label : action = .task i (.acquire .redis)) (sameTime : w'.now = w.now)
      (ran : acquireScript settings.windowMs settings.rateLimitPerHour.toNat (redisMs w.now)
        task.job.id (w.keys task.job.recipient) = (reply, key))
      (written : w'.keys = w.keys.write task.job.recipient key) : KeysStep settings w action w'
  | released {i : Nat} {task : Task} (label : action = .task i (.release true))
      (found : w.tasks[i]? = some task) (sameTime : w'.now = w.now)
      (written : w'.keys = w.keys.write task.job.recipient
        (releaseScript (redisMs w.now) task.job.id (w.keys task.job.recipient))) :
      KeysStep settings w action w'

theorem WorldStep.keys {w w' : World} {action : Action} (step : WorldStep settings skew w action w') :
    KeysStep settings w action w' := by
  have later := step.now_le
  cases step with
  | @task i _ task _ _ _ found stepped =>
    cases stepped with
    | admitted key _ ran => exact .acquired rfl rfl ran rfl
    | turnedAway key _ _ _ ran => exact .acquired rfl rfl ran rfl
    | released reachable _ =>
      cases reachable with
      | false => exact .untouched rfl later (fun _ same => by cases same)
      | true => exact .released rfl found rfl rfl
    | _ => exact .untouched rfl later (fun _ same => by cases same)
  | _ => exact .untouched rfl later (fun _ same => by cases same)

theorem keysSound_step {w w' : World} {action : Action} (sound : w.KeysSound settings)
    (step : WorldStep settings skew w action w') : w'.KeysSound settings := by
  intro recipient
  cases step.keys with
  | untouched same later _ =>
    rw [same]
    exact (sound recipient).mono (redisMs_mono later)
  | @acquired _ task _ key _ sameTime ran written =>
    rw [sameTime, written]
    by_cases here : recipient = task.job.recipient
    · rw [here, Keys.write_same]
      exact (sound _).acquire ran
    · rw [Keys.write_other _ _ here]
      exact sound recipient
  | @released _ task _ _ sameTime written =>
    rw [sameTime, written]
    by_cases here : recipient = task.job.recipient
    · rw [here, Keys.write_same]
      exact (sound _).release
    · rw [Keys.write_other _ _ here]
      exact sound recipient

theorem keysSound {history : WorkerHistory} {w : World}
    (run : Run (workerSystem settings skew) history w) : w.KeysSound settings := by
  refine Run.state_invariant (I := World.KeysSound settings) ?_ ?_ run
  · rintro _ ⟨start, rfl⟩ recipient j t held
    cases held
  · intro w action w' sound step
    exact keysSound_step sound (World.step_cases step)

/-- A slot stays as long as its window lasts, unless a release of its own job removes it. -/
theorem slot_of_step {w w' : World} {action : Action} (sound : w.KeysSound settings)
    (step : WorldStep settings skew w action w') {slotId : String × JobId} {taken : Int}
    (shown : w.slot slotId = some taken) (lasts : redisMs w'.now < taken + settings.windowMs)
    (unreleased : ∀ i task, action = .task i (.release true) → w.tasks[i]? = some task →
      slotId ≠ task.slotId) : w'.slot slotId = some taken := by
  have stored : (w'.keys slotId.1).slots.score slotId.2 = some taken := by
    cases step.keys with
    | untouched same _ _ =>
      rw [same]
      exact score_at shown
    | @acquired _ task _ key _ sameTime ran written =>
      rw [written]
      by_cases here : slotId.1 = task.job.recipient
      · rw [here, Keys.write_same]
        rw [World.slot, here] at shown
        exact score_acquire_of_live ran shown (by rw [← sameTime]; exact lasts)
      · rw [Keys.write_other _ _ here]
        exact score_at shown
    | @released i task label found _ written =>
      rw [written]
      by_cases here : slotId.1 = task.job.recipient
      · rw [here, Keys.write_same]
        rw [World.slot, here] at shown
        have other : slotId.2 ≠ task.job.id := fun same =>
          unreleased i task label found (Prod.ext here same)
        exact score_releaseScript_of_ne other shown
      · rw [Keys.write_other _ _ here]
        exact score_at shown
  exact score_at_of_live (keysSound_step sound step _) stored lasts

/-! ## The slots of claims -/

theorem slotsHeld_step {w w' : World} {action : Action} (sound : w.KeysSound settings)
    (held : SlotsHeld settings w) (step : WorldStep settings skew w action w')
    (reachable : redisReachable ⟨w, action, w'⟩ = true)
    (unused : ReleasesUnused settings ⟨w, action, w'⟩) : SlotsHeld settings w' := by
  intro task' member uses
  obtain ⟨k, found'⟩ := List.mem_iff_getElem?.mp member
  cases step.origin found' with
  | kept found _ =>
    have inWorld := List.mem_of_getElem? found
    obtain ⟨taken, slot, shown⟩ := held task' inWorld uses
    refine ⟨taken, slot, fun lasts => ?_⟩
    have lasted : redisMs w.now < taken + settings.windowMs :=
      lt_of_le_of_lt (redisMs_mono step.now_le) lasts
    refine slot_of_step sound step (shown lasted) lasts ?_
    intro i task label found same
    exact unused task (mem_releaser.mpr ⟨i, label, found⟩) task' inWorld same uses ⟨taken, slot, lasted⟩
  | @moved taskAction task label found stepped sameTime =>
    -- the stages that use the slot are reached from the limiter, or from each other
    have before : task.stage.usesSlot = true → task'.slot = task.slot → task'.job = task.job →
        w'.keys = w.keys → ∃ taken, task'.slot = some taken ∧
          (redisMs w'.now < taken + settings.windowMs → w'.slot task'.slotId = some taken) := by
      intro used slot job keys
      obtain ⟨taken, held, shown⟩ := held task (List.mem_of_getElem? found) used
      refine ⟨taken, slot.trans held, fun lasts => ?_⟩
      rw [sameTime] at lasts
      rw [World.slot, keys, sameTime, Task.slotId, job]
      exact shown lasts
    have sound' := keysSound_step sound step
    subst label
    generalize keysAfter : w'.keys = keys at stepped
    generalize w'.db = db at stepped
    cases stepped with
    | admitted key stage ran =>
      obtain ⟨taken, score⟩ := score_of_admitted ran
      refine ⟨taken, score, fun lasts => score_at_of_live (sound' _) ?_ lasts⟩
      rw [keysAfter]
      show (w.keys.write task.job.recipient key task.job.recipient).slots.score task.job.id = _
      rw [Keys.write_same]
      exact score
    | admittedByFallback _ => simp [redisReachable] at reachable
    | sendStarted stage _ => exact before (by rw [stage]; rfl) rfl rfl keysAfter
    | decided _ _ => exact before uses rfl rfl keysAfter
    | @returned _ _ givesBack _ _ _ _ _ => cases givesBack <;> cases uses
    | @recorded result _ _ _ _ _ _ _ _ _ _ _ =>
      cases refunds : result.refundSlot <;> simp [refunds, Task.to, Stage.usesSlot] at uses
    | _ => cases uses
  | claimed _ _ _ _ _ _ _ _ new =>
    subst new
    cases uses

theorem releasesUnused_of_held {w w' : World} {action : Action}
    (step : WorldStep settings skew w action w') (held' : SlotsHeld settings w') :
    ReleasesUnused settings ⟨w, action, w'⟩ := by
  intro task releases other member sameSlot uses lasts
  obtain ⟨i, rfl, found⟩ := mem_releaser.mp releases
  obtain ⟨taken, slot, lasts⟩ := lasts
  obtain ⟨k, foundOther⟩ := List.mem_iff_getElem?.mp member
  cases step with
  | @task _ _ task₀ _ _ _ found₀ stepped =>
    cases found₀.symm.trans found
    cases stepped with
    | released _ stage =>
      -- the other task did not move, and its slot is gone
      have different : i ≠ k := by
        rintro rfl
        cases foundOther.symm.trans found
        rw [stage] at uses
        cases uses
      have stays : other ∈ w.tasks.set i (task.release w true).1 :=
        List.mem_of_getElem? (by rw [List.getElem?_set_ne different, foundOther])
      obtain ⟨taken', slot', shown⟩ := held' other stays uses
      cases slot.symm.trans slot'
      have shown := shown lasts
      have recipient : other.slotId.1 = task.job.recipient := congrArg Prod.fst sameSlot
      rw [World.slot] at shown
      have stored := score_at shown
      simp only [if_true, recipient, Keys.write_same] at stored
      exact (score_releaseScript stored).2 (congrArg Prod.snd sameSlot)

/-! ## Every run -/

theorem slotsHeld_of_along {history : WorkerHistory} {w : World}
    (run : Run (workerSystem settings skew) history w)
    (held : Along (fun _ taken => SlotsHeld settings taken.after) history) : SlotsHeld settings w := by
  cases run with
  | start initial =>
    obtain ⟨start, rfl⟩ := initial
    intro task member
    cases member
  | next _ _ => exact held.1

end

/-- With Redis reachable, every claim that sends or may still send has its slot in the set, in
    every state of a run, exactly when no release happened while another claim of the job was
    between its admission on the slot and the end of its send. -/
theorem slot_present_iff {settings : Settings} {skew : String → Time} {history : WorkerHistory}
    {w : World} (run : Run (workerSystem settings skew) history w)
    (reachable : Along (fun _ taken => redisReachable taken = true) history) :
    Along (fun _ taken => SlotsHeld settings taken.after) history ↔
      Along (fun _ => ReleasesUnused settings) history := by
  induction run with
  | start _ => exact Iff.rfl
  | next run step inductionHypothesis =>
    have worldStep := World.step_cases step
    constructor
    · intro held
      exact ⟨releasesUnused_of_held worldStep held.1, (inductionHypothesis reachable.2).mp held.2⟩
    · intro unused
      have held := (inductionHypothesis reachable.2).mpr unused.2
      exact ⟨slotsHeld_step (keysSound run) (slotsHeld_of_along run held) worldStep reachable.1
        unused.1, held⟩

/-- The first claim has no room left to send and puts the job back; a second claim is admitted
    on its slot and starts to send before the first one gives the slot back. -/
def releasedUnderSend : WorkerHistory × World :=
  workerRun .default (fun _ => 0) 0
    [.outside (.createJob 1 (sampleJob 3)) 0, .poll "worker-1", .claim 0 0 (fun _ => 70) .alone,
      .task 0 (.acquire .redis), .tick 9, .task 0 .checkBudget, .task 0 (.returnUnsent 9),
      .poll "worker-2", .claim 0 9 (fun _ => 71) .alone, .task 1 (.acquire .redis),
      .task 1 .checkBudget, .task 0 (.release true)]

/-- The second claim sends, and its slot is not in the set. -/
theorem slot_removed_under_send :
    Run (workerSystem .default fun _ => 0) releasedUnderSend.1 releasedUnderSend.2 ∧
      Along (fun _ taken => redisReachable taken = true) releasedUnderSend.1 ∧
      ∃ task ∈ releasedUnderSend.2.tasks, task.stage = .sending 9 ∧ task.slot = some 0 ∧
        redisMs releasedUnderSend.2.now < 0 + Settings.default.windowMs ∧
        releasedUnderSend.2.slot task.slotId = none :=
  ⟨run_workerRun _ _ _ _, by decide +kernel, by decide +kernel⟩

/-- The first claim dies before its send, and its job is reaped; a second claim is admitted on its
    slot, sends, is rejected and gives the slot back. -/
def readmittedAfterCrash : WorkerHistory × World :=
  workerRun .default (fun _ => 0) 0
    [.outside (.createJob 1 (sampleJob 3)) 0, .poll "worker-1", .claim 0 0 (fun _ => 70) .alone,
      .task 0 (.acquire .redis), .task 0 .crash, .tick 31,
      .outside (.reapExpiredLeases 10 "http://localhost/hooks" (fun j => j + 50) .alone) 31,
      .poll "worker-2", .claim 0 31 (fun _ => 71) .alone, .task 1 (.acquire .redis),
      .task 1 .checkBudget, .task 1 (.provider .rejected),
      .task 1 (.endSend (.deliveryError "busy")), .task 1 .connect, .task 1 (.finalize 31 900 0),
      .task 1 (.release true)]

/-- The second claim sends on the slot of the first, and its own release comes after. -/
theorem slot_present_iff_released :
    (∃ taken ∈ readmittedAfterCrash.1, ∃ task ∈ taken.after.tasks, task.stage = .sending 31 ∧
        task.slot = some 0 ∧ taken.after.slot task.slotId = some 0) ∧
      Along (fun _ taken => SlotsHeld .default taken.after) readmittedAfterCrash.1 ∧
      ¬ Along (fun _ taken => SlotsHeld .default taken.after) releasedUnderSend.1 := by
  refine ⟨by decide +kernel, ?_, ?_⟩
  · exact (slot_present_iff (run_workerRun _ _ _ _) (by decide +kernel)).mpr (by decide +kernel)
  · have run : Run (workerSystem .default fun _ => 0) releasedUnderSend.1 releasedUnderSend.2 :=
      run_workerRun _ _ _ _
    intro held
    have unused := (slot_present_iff run (by decide +kernel)).mp held
    exact absurd unused (by decide +kernel)

end NotifyQueue
