import Mathlib.Data.Int.ConditionallyCompleteOrder
import NotifyQueue.Cache.MetricsCache
import NotifyQueue.Lib.ExpiringLocks

/-! # The lock of a metrics rebuild

Seen through `World.lockView`, the callers of `get_or_compute` are processes at a lock that expires
(`step_view`).  So the lock keeps out other rebuilders as long as no rebuild that has the lock
takes longer than the lock lasts, and whoever unlocks late may delete the lock of the next one. -/

namespace NotifyQueue

namespace MetricsCache

open Runs ExpiringLocks

variable {μ : Type}

/-! ## Holding the lock -/

/-- Since when a call has the lock that it has not released. -/
def Stage.heldSince : Stage μ → Option Time
  | .computing gotLock => gotLock
  | .putting _ gotLock => gotLock
  | .unlocking _ gotLock => some gotLock
  | _ => none

/-- Since when the caller `i` is between obtaining the lock and unlocking. -/
def World.heldSince (w : World μ) (i : Nat) : Option Time := w.callers[i]?.bind Stage.heldSince

/-- At most one caller is between obtaining the lock and unlocking. -/
def OneHolder (w : World μ) : Prop :=
  ∀ i k, w.heldSince i ≠ none → w.heldSince k ≠ none → i = k

/-- An unlock does not delete a lock that another caller has obtained. -/
def UnlocksOwn (taken : Taken (World μ) (Action μ)) : Prop :=
  ∀ i reply metrics gotLock, taken.label = .caller i (.redis reply) → reply ≠ .failed false →
    taken.before.callers[i]? = some (.unlocking metrics gotLock) →
    ∀ lock, taken.before.keys.lock = some lock → unexpired taken.before.now lock.expiresAt →
      ∀ k, lock.owner = some k → k = i

/-- When a caller is about to obtain the lock, no other caller has had it for more than
    `LOCK_TTL_SECONDS` without unlocking. -/
def InTime (taken : Taken (World μ) (Action μ)) : Prop :=
  ∀ i, taken.label = .caller i (.redis .answered) → taken.before.callers[i]? = some .locking →
    taken.before.keys.locked taken.before.now = false →
    ∀ k gotLock, taken.before.heldSince k = some gotLock →
      unexpired taken.before.now (gotLock + lockTtlSeconds)

/-! ## The callers as processes at a lock -/

def lockTtlMs : Int := lockTtlSeconds * 1000

def Lock.key (lock : Lock) : Key Nat Int := ⟨lock.owner, redisMs lock.expiresAt⟩

/-- What the clock of Redis shows. -/
def World.lockView (w : World μ) : LockState Nat Int where
  now := redisMs w.now
  key := w.keys.lock.map Lock.key
  holding := Option.map redisMs ∘ w.heldSince

/-- What a command does to the lock: only a `SET NX` and a `DELETE` of the lock do anything. -/
def redisEvent (w : World μ) (i : Nat) (reply : RedisReply) : Stage μ → LockEvent Nat
  | .locking =>
    if w.keys.locked w.now then .idle
    else
      match reply with
      | .answered => .obtain i
      | .failed true => .orphan
      | .failed false => .idle
  | .unlocking _ _ => if reply = .failed false then .leave i else .release i
  | _ => .idle

def lockEvent (taken : Taken (World μ) (Action μ)) : LockEvent Nat :=
  match taken.label with
  | .tick _ => .tick
  | .caller i (.redis reply) =>
    match taken.before.callers[i]? with
    | some stage => redisEvent taken.before i reply stage
    | none => .idle
  | .caller i .fail => .leave i
  | _ => .idle

section

variable {w : World μ} {i : Nat} {stage stage' : Stage μ} {keys' : Keys μ}

theorem heldSince_set (found : w.callers[i]? = some stage) (keys' : Keys μ) (stage' : Stage μ) :
    World.heldSince { w with keys := keys', callers := w.callers.set i stage' } =
      Function.update w.heldSince i stage'.heldSince := by
  have inside : i < w.callers.length := (List.getElem?_eq_some_iff.mp found).1
  funext k
  by_cases same : k = i
  · subst same
    simp [World.heldSince, inside]
  · simp [World.heldSince, List.getElem?_set_ne (Ne.symm same), Function.update_of_ne same]

theorem heldSince_of_found (found : w.callers[i]? = some stage) :
    w.heldSince i = stage.heldSince := by
  rw [World.heldSince, found, Option.bind_some]

theorem holding_of_found (found : w.callers[i]? = some stage) :
    w.lockView.holding i = stage.heldSince.map redisMs :=
  congrArg (Option.map redisMs) (heldSince_of_found found)

theorem key_of_setLock (owner : Option Nat) (now : Time) :
    Lock.key ⟨owner, now + lockTtlSeconds⟩ = ⟨owner, redisMs now + lockTtlMs⟩ := by
  rw [Lock.key, redisMs_add, lockTtlMs]

/-- The view of a caller that goes on. -/
theorem lockView_set (found : w.callers[i]? = some stage) (keys' : Keys μ) (stage' : Stage μ) :
    World.lockView { w with keys := keys', callers := w.callers.set i stage' } =
      ⟨redisMs w.now, keys'.lock.map Lock.key,
        Function.update w.lockView.holding i (stage'.heldSince.map redisMs)⟩ := by
  rw [World.lockView, heldSince_set found, Function.comp_update]
  rfl

theorem lockView_idle (found : w.callers[i]? = some stage) (held : stage'.heldSince = stage.heldSince)
    (lock : keys'.lock = w.keys.lock) :
    World.lockView { w with keys := keys', callers := w.callers.set i stage' } = w.lockView := by
  rw [lockView_set found, held, ← holding_of_found found, Function.update_eq_self, lock]
  rfl

theorem idle_step (found : w.callers[i]? = some stage) (held : stage'.heldSince = stage.heldSince)
    (lock : keys'.lock = w.keys.lock) :
    LockStep lockTtlMs w.lockView .idle
      (World.lockView { w with keys := keys', callers := w.callers.set i stage' }) := by
  rw [lockView_idle found held lock]
  exact .idle

theorem free_of_unlocked (unlocked : w.keys.locked w.now = false) : w.lockView.Free := by
  intro key present
  obtain ⟨lock, stored, rfl⟩ := Option.map_eq_some_iff.mp present
  rw [Keys.locked, stored, Option.any_some, decide_eq_false_iff_not] at unlocked
  exact not_le.mp unlocked

theorem lock_setMetrics (settings : Settings) (now : Time) (metrics : μ) (reply : RedisReply)
    (keys : Keys μ) :
    (cacheCall keys reply (fun keys => ((), setMetrics settings now metrics keys)) ()).2.lock =
      keys.lock := by
  have kept : (setMetrics settings now metrics keys).lock = keys.lock := by
    unfold setMetrics
    split <;> rfl
  obtain _ | applied := reply
  · exact kept
  · cases applied with
    | true => exact kept
    | false => rfl

theorem heldSince_afterLock (settings : Settings) (now : Time) :
    (afterLock settings now false : Stage μ).heldSince = none := by
  simp only [afterLock]
  split
  · contradiction
  · split <;> rfl

theorem heldSince_afterPut (metrics : μ) (gotLock : Option Time) :
    (afterPut metrics gotLock).heldSince = gotLock := by
  cases gotLock <;> rfl

/-- A `SET NX` that finds the lock set does not get it. -/
theorem locking_locked {settings : Settings} {reply : RedisReply} (found : w.callers[i]? = some .locking)
    (locked : w.keys.locked w.now = true)
    (stepped : callerStep settings w.now i w.keys .locking (.redis reply) = some (stage', keys')) :
    World.lockView { w with keys := keys', callers := w.callers.set i stage' } = w.lockView := by
  have unset : ∀ owner, cacheCall w.keys reply (setLock w.now owner) false = (false, w.keys) := by
    intro owner
    have refused : setLock w.now owner w.keys = (false, w.keys) := if_pos locked
    obtain _ | _ | _ := reply <;> simp [cacheCall, refused]
  simp only [callerStep, unset, Option.some.injEq, Prod.mk.injEq] at stepped
  obtain ⟨rfl, rfl⟩ := stepped
  exact lockView_idle found (heldSince_afterLock settings w.now) rfl

/-- A `SET NX` that finds the lock free gets it, unless its answer is lost. -/
theorem locking_free {settings : Settings} {reply : RedisReply} (found : w.callers[i]? = some .locking)
    (unlocked : w.keys.locked w.now = false)
    (stepped : callerStep settings w.now i w.keys .locking (.redis reply) = some (stage', keys')) :
    LockStep lockTtlMs w.lockView (redisEvent w i reply (.locking : Stage μ))
      (World.lockView { w with keys := keys', callers := w.callers.set i stage' }) := by
  have free := free_of_unlocked unlocked
  have fresh : w.lockView.holding i = none := holding_of_found found
  have sets : ∀ owner, setLock w.now owner w.keys =
      (true, { w.keys with lock := some ⟨owner, w.now + lockTtlSeconds⟩ }) := by
    intro owner
    simp [setLock, unlocked]
  simp only [redisEvent, unlocked, Bool.false_eq_true, if_false]
  obtain _ | _ | _ := reply
  · simp only [callerStep, cacheCall, sets, if_true, Option.some.injEq, Prod.mk.injEq] at stepped
    obtain ⟨rfl, rfl⟩ := stepped
    rw [lockView_set found, Option.map_some, key_of_setLock]
    exact .obtained i free fresh
  · simp only [callerStep, cacheCall, Option.some.injEq, Prod.mk.injEq] at stepped
    obtain ⟨rfl, rfl⟩ := stepped
    exact idle_step found (heldSince_afterLock settings w.now) rfl
  · simp only [callerStep, cacheCall, sets, reduceCtorEq, if_false, Option.some.injEq,
      Prod.mk.injEq] at stepped
    obtain ⟨rfl, rfl⟩ := stepped
    rw [lockView_set found, heldSince_afterLock, Option.map_none, ← fresh, Function.update_eq_self,
      Option.map_some, key_of_setLock]
    exact .orphaned free

theorem redis_view {settings : Settings} {reply : RedisReply} (found : w.callers[i]? = some stage)
    (stepped : callerStep settings w.now i w.keys stage (.redis reply) = some (stage', keys')) :
    LockStep lockTtlMs w.lockView (redisEvent w i reply stage)
      (World.lockView { w with keys := keys', callers := w.callers.set i stage' }) := by
  cases stage with
  | looking =>
    simp only [callerStep] at stepped
    split at stepped <;> cases stepped <;> exact idle_step found rfl rfl
  | lookingAgain =>
    simp only [callerStep] at stepped
    split at stepped <;> cases stepped <;> exact idle_step found rfl rfl
  | putting metrics gotLock =>
    cases stepped
    exact idle_step found (heldSince_afterPut metrics gotLock) (lock_setMetrics ..)
  | unlocking metrics gotLock =>
    cases stepped
    have holds : w.lockView.holding i = some (redisMs gotLock) := holding_of_found found
    rw [lockView_set found]
    obtain _ | _ | _ := reply
    · exact .released holds
    · exact .left i
    · exact .released holds
  | locking =>
    cases locked : w.keys.locked w.now with
    | true =>
      rw [locking_locked found locked stepped]
      simp only [redisEvent, locked, if_true]
      exact .idle
    | false => exact locking_free found locked stepped
  | _ => cases stepped

/-- A step of one caller. -/
theorem caller_view {settings : Settings} {action : CallerAction μ} {w' : World μ}
    (found : w.callers[i]? = some stage)
    (stepped : callerStep settings w.now i w.keys stage action = some (stage', keys')) :
    LockStep lockTtlMs w.lockView (lockEvent ⟨w, .caller i action, w'⟩)
      (World.lockView { w with keys := keys', callers := w.callers.set i stage' }) := by
  cases action with
  | redis reply =>
    simp only [lockEvent, found]
    exact redis_view found stepped
  | wake =>
    cases stage with
    | sleeping wakesAt =>
      simp only [callerStep, Option.ite_none_right_eq_some, Option.some.injEq,
        Prod.mk.injEq] at stepped
      obtain ⟨_, rfl, rfl⟩ := stepped
      exact idle_step found rfl rfl
    | _ => cases stepped
  | computed metrics =>
    cases stage with
    | computing gotLock =>
      cases stepped
      exact idle_step found rfl rfl
    | _ => cases stepped
  | fail =>
    have failed : stage' = .raised ∧ keys' = w.keys := by
      cases stage <;> cases stepped <;> exact ⟨rfl, rfl⟩
    obtain ⟨rfl, rfl⟩ := failed
    rw [lockView_set found]
    exact .left i

/-- A call that begins does not have the lock. -/
theorem lockView_begun (w : World μ) :
    World.lockView { w with callers := w.callers ++ [.looking] } = w.lockView := by
  have same : World.heldSince { w with callers := w.callers ++ [.looking] } = w.heldSince := by
    funext k
    simp only [World.heldSince, List.getElem?_append]
    split
    · rfl
    · next late =>
      rw [List.getElem?_eq_none (not_lt.mp late), List.getElem?_singleton]
      split <;> rfl
  rw [World.lockView, same]
  rfl

end

/-- Every step of the callers is a step at the lock. -/
theorem step_view {settings : Settings} {w w' : World μ} {action : Action μ}
    (stepped : w.step settings action = some w') :
    LockStep lockTtlMs w.lockView (lockEvent ⟨w, action, w'⟩) w'.lockView := by
  cases action with
  | tick elapsed =>
    simp only [World.step, Option.ite_none_right_eq_some, Option.some.injEq] at stepped
    obtain ⟨forward, rfl⟩ := stepped
    exact .tick (redisMs_mono (le_add_of_nonneg_right forward))
  | getOrCompute =>
    cases stepped
    rw [lockView_begun]
    exact .idle
  | dropMetrics =>
    cases stepped
    exact .idle
  | caller i action =>
    simp only [World.step] at stepped
    split at stepped
    · cases stepped
    · next stage found =>
      simp only [Option.ite_none_right_eq_some, Option.map_eq_some_iff] at stepped
      obtain ⟨_, ⟨stage', keys'⟩, callerSteps, rfl⟩ := stepped
      exact caller_view found callerSteps

/-! ## What the view says about the callers -/

section

variable {taken : Taken (World μ) (Action μ)} {i : Nat}

/-- Only Redis commands obtain or release the lock. -/
theorem lockEvent_cases (taken : Taken (World μ) (Action μ)) :
    (∃ k reply stage, taken.label = .caller k (.redis reply) ∧
      taken.before.callers[k]? = some stage ∧
      lockEvent taken = redisEvent taken.before k reply stage) ∨
    lockEvent taken = .idle ∨ lockEvent taken = .tick ∨ ∃ k, lockEvent taken = .leave k := by
  obtain ⟨w, action, w'⟩ := taken
  cases action with
  | tick _ => exact .inr (.inr (.inl rfl))
  | getOrCompute => exact .inr (.inl rfl)
  | dropMetrics => exact .inr (.inl rfl)
  | caller k action =>
    cases action with
    | redis reply =>
      cases found : w.callers[k]? with
      | none => exact .inr (.inl (by simp [lockEvent, found]))
      | some stage => exact .inl ⟨k, reply, stage, rfl, found, by simp [lockEvent, found]⟩
    | wake => exact .inr (.inl rfl)
    | computed _ => exact .inr (.inl rfl)
    | fail => exact .inr (.inr (.inr ⟨k, rfl⟩))

theorem redisEvent_obtain {w : World μ} {k : Nat} {reply : RedisReply} {stage : Stage μ} :
    redisEvent w k reply stage = .obtain i ↔
      k = i ∧ reply = .answered ∧ stage = .locking ∧ w.keys.locked w.now = false := by
  cases stage with
  | locking =>
    cases locked : w.keys.locked w.now <;> obtain _ | _ | _ := reply <;> simp [redisEvent, locked]
  | unlocking _ _ => by_cases lost : reply = .failed false <;> simp [redisEvent, lost]
  | _ => simp [redisEvent]

theorem redisEvent_release {w : World μ} {k : Nat} {reply : RedisReply} {stage : Stage μ} :
    redisEvent w k reply stage = .release i ↔
      k = i ∧ reply ≠ .failed false ∧ ∃ metrics gotLock, stage = .unlocking metrics gotLock := by
  cases stage with
  | locking =>
    cases locked : w.keys.locked w.now <;> obtain _ | _ | _ := reply <;> simp [redisEvent, locked]
  | unlocking _ _ => by_cases lost : reply = .failed false <;> simp [redisEvent, lost]
  | _ => simp [redisEvent]

theorem lockEvent_obtain : lockEvent taken = .obtain i ↔
    taken.label = .caller i (.redis .answered) ∧ taken.before.callers[i]? = some .locking ∧
      taken.before.keys.locked taken.before.now = false := by
  constructor
  · intro event
    obtain ⟨k, reply, stage, label, found, same⟩ | idle | tick | ⟨k, leave⟩ := lockEvent_cases taken
    · rw [same, redisEvent_obtain] at event
      obtain ⟨rfl, rfl, rfl, unlocked⟩ := event
      exact ⟨label, found, unlocked⟩
    · cases idle.symm.trans event
    · cases tick.symm.trans event
    · cases leave.symm.trans event
  · rintro ⟨label, found, unlocked⟩
    simp [lockEvent, label, found, redisEvent, unlocked]

theorem lockEvent_release : lockEvent taken = .release i ↔
    ∃ reply metrics gotLock, taken.label = .caller i (.redis reply) ∧ reply ≠ .failed false ∧
      taken.before.callers[i]? = some (.unlocking metrics gotLock) := by
  constructor
  · intro event
    obtain ⟨k, reply, stage, label, found, same⟩ | idle | tick | ⟨k, leave⟩ := lockEvent_cases taken
    · rw [same, redisEvent_release] at event
      obtain ⟨rfl, reached, metrics, gotLock, rfl⟩ := event
      exact ⟨reply, metrics, gotLock, label, reached, found⟩
    · cases idle.symm.trans event
    · cases tick.symm.trans event
    · cases leave.symm.trans event
  · rintro ⟨reply, metrics, gotLock, label, reached, found⟩
    simp [lockEvent, label, found, redisEvent, reached]

theorem unexpired_iff {now gotLock : Time} :
    unexpired now (gotLock + lockTtlSeconds) ↔ redisMs now ≤ redisMs gotLock + lockTtlMs := by
  rw [unexpired, redisMs_add, lockTtlMs]

theorem timely_view :
    Timely lockTtlMs (taken.view World.lockView lockEvent) ↔ InTime taken := by
  constructor
  · intro timely i label found unlocked k gotLock holds
    have held : taken.before.lockView.holding k = some (redisMs gotLock) :=
      congrArg (Option.map redisMs) holds
    exact unexpired_iff.mpr (timely i (lockEvent_obtain.mpr ⟨label, found, unlocked⟩) k _ held)
  · intro inTime i event k since holds
    obtain ⟨label, found, unlocked⟩ := lockEvent_obtain.mp event
    obtain ⟨gotLock, held, rfl⟩ := Option.map_eq_some_iff.mp holds
    exact unexpired_iff.mp (inTime i label found unlocked k gotLock held)

/-- `InTime`, as it is computed. -/
def keepsTime (taken : Taken (World μ) (Action μ)) : Bool :=
  match lockEvent taken with
  | .obtain _ => taken.before.callers.all fun stage =>
      stage.heldSince.all fun gotLock => unexpired taken.before.now (gotLock + lockTtlSeconds)
  | _ => true

theorem keepsTime_iff : keepsTime taken = true ↔ InTime taken := by
  rw [← timely_view]
  simp only [keepsTime]
  split
  · next i event =>
    simp only [List.all_eq_true, Option.all_eq_true, decide_eq_true_eq]
    constructor
    · intro all _ _ k _ holds
      obtain ⟨gotLock, since, rfl⟩ := Option.map_eq_some_iff.mp holds
      obtain ⟨stage, found, held⟩ := Option.bind_eq_some_iff.mp since
      exact unexpired_iff.mp (all stage (List.mem_of_getElem? found) gotLock held)
    · intro timely stage member gotLock held
      obtain ⟨k, found⟩ := List.getElem?_of_mem member
      have holds : taken.before.heldSince k = some gotLock :=
        Option.bind_eq_some_iff.mpr ⟨stage, found, held⟩
      exact unexpired_iff.mpr (timely i event k _ (congrArg (Option.map redisMs) holds))
  · next other =>
    refine iff_of_true rfl ?_
    intro i event
    exact absurd event (other i)

instance InTime.decidable (taken : Taken (World μ) (Action μ)) : Decidable (InTime taken) :=
  decidable_of_iff _ keepsTime_iff

theorem releasesOwn_view :
    ReleasesOwn (taken.view World.lockView lockEvent) ↔ UnlocksOwn taken := by
  constructor
  · intro releases i reply metrics gotLock label reached found lock stored live k owner
    exact releases i (lockEvent_release.mpr ⟨reply, metrics, gotLock, label, reached, found⟩) lock.key
      (Option.map_eq_some_iff.mpr ⟨lock, stored, rfl⟩) live k owner
  · intro unlocks i event key present live k holder
    obtain ⟨reply, metrics, gotLock, label, reached, found⟩ := lockEvent_release.mp event
    obtain ⟨lock, stored, rfl⟩ := Option.map_eq_some_iff.mp present
    exact unlocks i reply metrics gotLock label reached found lock stored live k holder

theorem exclusive_view :
    (taken.view World.lockView lockEvent).after.Exclusive ↔ OneHolder taken.after := by
  have holds : ∀ i, taken.after.lockView.holding i ≠ none ↔ taken.after.heldSince i ≠ none := by
    intro i
    exact not_congr Option.map_eq_none_iff
  have same : (taken.view World.lockView lockEvent).after = taken.after.lockView := rfl
  simp only [LockState.Exclusive, OneHolder, same, holds]

end

/-- In every run, at most one caller is between obtaining the lock and unlocking, and no unlock
    deletes the lock of another caller, exactly when no caller obtains the lock while another one
    has had it for more than `LOCK_TTL_SECONDS`. -/
theorem rebuild_lock_iff {settings : Settings} {history : MetricsHistory μ} {w : World μ}
    (run : Run (metricsSystem settings) history w) :
    Along (fun _ taken => OneHolder taken.after ∧ UnlocksOwn taken) history ↔
      Along (fun _ taken => InTime taken) history := by
  have viewed : Run (lockSystem lockTtlMs) (history.map (Taken.view World.lockView lockEvent))
      w.lockView := by
    refine Run.view ?_ (fun _ _ _ => step_view) run
    rintro _ ⟨start, rfl⟩
    exact ⟨rfl, rfl⟩
  have atLock := exclusive_iff_timely viewed
  rw [along_view, along_view] at atLock
  simpa only [timely_view, releasesOwn_view, exclusive_view] using atLock

/-- A rebuild that takes four seconds, and the next one after it. -/
def quickRebuild : MetricsHistory Nat × World Nat :=
  metricsRun .default 0
    [.getOrCompute, .caller 0 (.redis .answered), .caller 0 (.redis .answered), .tick 4,
      .caller 0 (.computed 7), .caller 0 (.redis .answered), .caller 0 (.redis .answered), .tick 3,
      .getOrCompute, .caller 1 (.redis .answered), .caller 1 (.redis .answered)]

theorem rebuild_lock_quick :
    Along (fun _ taken => OneHolder taken.after ∧ UnlocksOwn taken) quickRebuild.1 :=
  (rebuild_lock_iff (run_metricsRun _ _ _)).mpr (by decide +kernel)

/-- A rebuild that takes six seconds: the second caller obtains the lock that has expired, the
    first one deletes it, and the third one obtains it while the second is still computing. -/
def slowRebuild : MetricsHistory Nat × World Nat :=
  metricsRun .default 0
    [.getOrCompute, .caller 0 (.redis .answered), .caller 0 (.redis .answered), .tick 6,
      .getOrCompute, .caller 1 (.redis .answered), .caller 1 (.redis .answered),
      .caller 0 (.computed 7), .caller 0 (.redis .answered), .caller 0 (.redis .answered), .tick 3,
      .getOrCompute, .caller 2 (.redis .answered), .caller 2 (.redis .answered)]

theorem rebuild_lock_lost :
    Run (metricsSystem .default) slowRebuild.1 slowRebuild.2 ∧
      (∃ taken ∈ slowRebuild.1, ¬ OneHolder taken.after) ∧
      (∃ taken ∈ slowRebuild.1, ¬ UnlocksOwn taken) ∧
      ¬ Along (fun _ taken => OneHolder taken.after ∧ UnlocksOwn taken) slowRebuild.1 := by
  have both : ∃ taken ∈ slowRebuild.1, taken.after.heldSince 0 ≠ none ∧
      taken.after.heldSince 1 ≠ none := by decide +kernel
  have deletes : ∃ taken ∈ slowRebuild.1, taken.label = .caller 0 (.redis .answered) ∧
      taken.before.callers[0]? = some (.unlocking 7 0) ∧
      taken.before.keys.lock = some ⟨some 1, 11⟩ ∧ unexpired taken.before.now 11 := by decide +kernel
  have unlocksOther : ∃ taken ∈ slowRebuild.1, ¬ UnlocksOwn taken := by
    obtain ⟨taken, member, label, found, stored, live⟩ := deletes
    refine ⟨taken, member, ?_⟩
    intro unlocks
    have same := unlocks 0 .answered 7 0 label (by decide) found _ stored live 1 rfl
    contradiction
  refine ⟨run_metricsRun _ _ _, ?_, unlocksOther, ?_⟩
  · obtain ⟨taken, member, first, second⟩ := both
    refine ⟨taken, member, ?_⟩
    intro oneHolder
    have same := oneHolder 0 1 first second
    contradiction
  · intro along
    obtain ⟨taken, member, violated⟩ := unlocksOther
    exact violated (along.of_mem member).2

end MetricsCache

end NotifyQueue
