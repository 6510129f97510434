import NotifyQueue.Cache.JobTexts
import NotifyQueue.Lib.Runs

/-! # The metrics cache

Translated from `cache/metrics_cache.py`, for any number of calls of `get_or_compute` at once.
The `Stage` of a call is the `await` it waits at; how long that takes is up to the run.  A call
may end at any `await` with an exception, of `compute` or from outside, and then it does not
unlock.

The metrics are the JSON that is stored.  The lock is always set to `"1"`, so its value is left
out; who set it, and when a caller got it, are not in the code. -/

namespace NotifyQueue

open Runs

namespace MetricsCache

def lockTtlSeconds : Nat := 5

def lockWaitSeconds : Time := 1 / 10

structure Entry (μ : Type) where
  metrics : μ
  expiresAt : Time
deriving DecidableEq, Repr

/-- `owner` is the caller that set the key and got the answer. -/
structure Lock where
  owner : Option Nat
  expiresAt : Time
deriving DecidableEq, Repr

structure Keys (μ : Type) where
  metrics : Option (Entry μ)
  lock : Option Lock
deriving DecidableEq, Repr

/-- Where a call of `get_or_compute` is.  `gotLock` is the variable `got_lock`, together with the
    time at which the lock was got. -/
inductive Stage (μ : Type) where
  | looking
  | locking
  | sleeping (wakesAt : Time)
  | lookingAgain
  | computing (gotLock : Option Time)
  | putting (metrics : μ) (gotLock : Option Time)
  | unlocking (metrics : μ) (gotLock : Time)
  | returned (metrics : μ) (fromCache : Bool)
  | raised
deriving DecidableEq, Repr

inductive CallerAction (μ : Type) where
  | redis (reply : RedisReply)
  | wake
  | computed (metrics : μ)
  | fail
deriving DecidableEq

structure World (μ : Type) where
  now : Time
  keys : Keys μ
  callers : List (Stage μ)

inductive Action (μ : Type) where
  | tick (elapsed : Time)
  | getOrCompute
  | caller (i : Nat) (action : CallerAction μ)
  | dropMetrics
deriving DecidableEq

variable {μ : Type}

/-! ## Commands -/

/-- `_get`. -/
def get (now : Time) (reply : RedisReply) (keys : Keys μ) : Option μ :=
  (cacheCall keys reply (fun keys =>
    ((keys.metrics.filter fun entry => unexpired now entry.expiresAt).map Entry.metrics, keys)) none).1

/-- The lock is set and has not expired. -/
def Keys.locked (keys : Keys μ) (now : Time) : Bool :=
  keys.lock.any fun lock => unexpired now lock.expiresAt

/-- `SET lock "1" NX EX 5`. -/
def setLock (now : Time) (owner : Option Nat) (keys : Keys μ) : Bool × Keys μ :=
  if keys.locked now then (false, keys)
  else (true, { keys with lock := some ⟨owner, now + lockTtlSeconds⟩ })

/-- `SET metrics EX ttl`, which is an error of Redis for a `ttl` of 0. -/
def setMetrics (settings : Settings) (now : Time) (metrics : μ) (keys : Keys μ) : Keys μ :=
  if settings.cacheMetricsTtl = 0 then keys
  else { keys with metrics := some ⟨metrics, now + settings.cacheMetricsTtl⟩ }

/-! ## One call -/

section

variable (settings : Settings) (now : Time)

/-- The call that has got the lock or not, as its `SET NX` was answered. -/
def afterLock (gotLock : Bool) : Stage μ :=
  if gotLock then .computing (some now)
  else if settings.cacheEnabled then .sleeping (now + lockWaitSeconds)
  else .computing none

/-- A caller that has put the metrics unlocks if it has the lock. -/
def afterPut (metrics : μ) : Option Time → Stage μ
  | some gotLock => .unlocking metrics gotLock
  | none => .returned metrics false

/-- The steps of the caller `i`; `none` is an action that its stage does not wait for. -/
def callerStep (i : Nat) (keys : Keys μ) : Stage μ → CallerAction μ → Option (Stage μ × Keys μ)
  | .looking, .redis reply =>
    match get now reply keys with
    | some metrics => some (.returned metrics true, keys)
    | none => some (.locking, keys)
  | .locking, .redis reply =>
    let owner := if reply = .answered then some i else none
    let (gotLock, keys) := cacheCall keys reply (setLock now owner) false
    some (afterLock settings now gotLock, keys)
  | .sleeping wakesAt, .wake => if wakesAt ≤ now then some (.lookingAgain, keys) else none
  | .lookingAgain, .redis reply =>
    match get now reply keys with
    | some metrics => some (.returned metrics true, keys)
    | none => some (.computing none, keys)
  | .computing gotLock, .computed metrics => some (.putting metrics gotLock, keys)
  | .putting metrics gotLock, .redis reply =>
    some (afterPut metrics gotLock,
      (cacheCall keys reply (fun keys => ((), setMetrics settings now metrics keys)) ()).2)
  | .unlocking metrics _, .redis reply =>
    some (.returned metrics false,
      (cacheCall keys reply (fun keys => ((), { keys with lock := none })) ()).2)
  | .returned _ _, .fail => none
  | .raised, .fail => none
  | _, .fail => some (.raised, keys)
  | _, _ => none

end

/-! ## All calls -/

/-- With the cache disabled, `Cache.call` returns its default and nothing reaches Redis. -/
def allows (settings : Settings) : CallerAction μ → Bool
  | .redis reply => settings.cacheEnabled || reply = .failed false
  | _ => true

def World.step (settings : Settings) (w : World μ) : Action μ → Option (World μ)
  | .tick elapsed => if 0 ≤ elapsed then some { w with now := w.now + elapsed } else none
  | .getOrCompute => some { w with callers := w.callers ++ [.looking] }
  | .caller i action =>
    match w.callers[i]? with
    | none => none
    | some stage =>
      if allows settings action then
        (callerStep settings w.now i w.keys stage action).map fun (stage, keys) =>
          { w with keys, callers := w.callers.set i stage }
      else none
  | .dropMetrics => some { w with keys := { w.keys with metrics := none } }

/-- Nothing has happened yet. -/
def World.initial (start : Time) : World μ := ⟨start, ⟨none, none⟩, []⟩

def metricsSystem (settings : Settings) : System (World μ) (Action μ) :=
  .ofStep (fun w => ∃ start, w = .initial start) (World.step settings)

abbrev MetricsHistory (μ : Type) := History (World μ) (Action μ)

/-- The run of a list of actions from a start. -/
def metricsRun (settings : Settings) (start : Time) (actions : List (Action μ)) :
    MetricsHistory μ × World μ :=
  runOf (World.step settings) (.initial start) actions

theorem run_metricsRun (settings : Settings) (start : Time) (actions : List (Action μ)) :
    Run (metricsSystem settings) (metricsRun settings start actions).1
      (metricsRun settings start actions).2 :=
  run_runOf _ ⟨start, rfl⟩ _

end MetricsCache

end NotifyQueue
