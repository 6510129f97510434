import NotifyQueue.Cache.JobCache
import NotifyQueue.Lib.SortedSets
import NotifyQueue.Repositories.RateLimitBuckets

/-! # The rate limiters

Translated from `services/rate_limiter.py`: the Lua script `_ACQUIRE` and the `ZREM` of
`release`, on the sorted set that Redis keeps for one recipient, where times are what the
script reads from `TIME`, in milliseconds; and the limiter that runs the script and falls
back on the buckets in Postgres. -/

namespace NotifyQueue

open SortedSets (SortedSet)

/-- The key of a recipient: the jobs that hold a slot, scored by when they took it, and
    the time at which Redis drops the key. -/
structure RateKey where
  slots : SortedSet JobId
  expiresAt : Option Int

def RateKey.empty : RateKey := ⟨.empty, none⟩

/-- What Redis shows of the key at a time: an expired key is gone. -/
def RateKey.at (key : RateKey) (now : Int) : RateKey :=
  match key.expiresAt with
  | some expiresAt => if expiresAt < now then .empty else key
  | none => key

/-- A key whose last member was removed is deleted, with its expiry. -/
def RateKey.keep (slots : SortedSet JobId) (expiresAt : Option Int) : RateKey :=
  if slots.card = 0 then .empty else ⟨slots, expiresAt⟩

/-- What `_ACQUIRE` returns: `{1, 0}`, `{0, ms}`, or the error of an arithmetic on `nil`. -/
inductive AcquireReply where
  | admitted
  | wait (ms : Int)
  | error
deriving DecidableEq, Repr

/-- The slots that `_ACQUIRE` counts: those taken less than a window ago. -/
def RateKey.held (key : RateKey) (now window : Int) : SortedSet JobId :=
  (key.at now).slots.removeUpTo (now - window)

/-- `_ACQUIRE`. -/
def acquireScript (window : Int) (limit : Nat) (now : Int) (job : JobId) (key : RateKey) :
    AcquireReply × RateKey :=
  let slots := key.held now window
  let kept := RateKey.keep slots (key.at now).expiresAt
  match slots.score job with
  | some _ => (.admitted, kept)
  | none =>
    if slots.card < limit then (.admitted, ⟨slots.add job now, some (now + window)⟩)
    else
      match slots.lowest with
      | some oldest => (.wait (oldest + window - now), kept)
      | none => (.error, kept)

/-- `release`: `ZREM` of the job. -/
def releaseScript (now : Int) (job : JobId) (key : RateKey) : RateKey :=
  RateKey.keep ((key.at now).slots.remove job) (key.at now).expiresAt

/-! ## With the fallback -/

/-- What the two stores hold: the key of one recipient, and the buckets. -/
structure LimiterStores where
  key : RateKey
  buckets : Buckets

section

variable (settings : Settings) (now : Time) (recipient : String) (jobId : JobId)

/-- `PostgresRateLimiter.acquire`. -/
def PostgresRateLimiter.acquire (buckets : Buckets) : Option Time × Buckets :=
  tryAcquireRateLimit now recipient settings.rateLimitPerHour settings.rateLimitWindowSeconds buckets

/-- `_ACQUIRE` through `Cache.call`, which gives `None` for every error of Redis, also for one
    that the script raises. -/
def callAcquire (redis : RedisReply) (key : RateKey) : Option AcquireReply × RateKey :=
  let (reply, written) := acquireScript settings.windowMs settings.rateLimitPerHour.toNat
    (redisMs now) jobId key
  match redis with
  | .answered => (if reply = .error then none else some reply, written)
  | .failed true => (none, written)
  | .failed false => (none, key)

/-- `RedisRateLimiter.acquire`. -/
def RedisRateLimiter.acquire (redis : RedisReply) (stores : LimiterStores) :
    Option Time × LimiterStores :=
  match callAcquire settings now jobId redis stores.key with
  | (some .admitted, key) => (none, { stores with key })
  | (some (.wait ms), key) => (some ((max ms 1 : Int) / 1000), { stores with key })
  | (_, key) =>
    let (wait, buckets) := PostgresRateLimiter.acquire settings now recipient stores.buckets
    (wait, { key, buckets })

end

end NotifyQueue
