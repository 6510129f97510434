import Mathlib.Data.Rat.Floor
import Mathlib.Tactic.Linarith
import NotifyQueue.Config
import NotifyQueue.Domain.Schemas
import NotifyQueue.Lib.Texts

/-! # The read cache

Translated from `cache/client.py` and `cache/job_cache.py`, on what Redis holds under the
`job:` and `idem:` keys.  An entry `"<version>|<json>"` is held as its two parts, and
`attempt_history`, which is never cached, is left out of the JSON.  An `idem:` entry is held
as its text.  A UUID is a number here, so its text is the digits of that number. -/

namespace NotifyQueue

/-- The clock of Redis: milliseconds. -/
def redisMs (now : Time) : Int := ⌊now * 1000⌋

theorem redisMs_mono {now now' : Time} (later : now ≤ now') : redisMs now ≤ redisMs now' :=
  Int.floor_le_floor (by linarith)

/-- A lifetime in seconds ends at a full millisecond of its own. -/
theorem redisMs_add (now : Time) (ttl : Nat) : redisMs (now + ttl) = redisMs now + ttl * 1000 := by
  have shifted : (now + ttl) * 1000 = now * 1000 + ((ttl * 1000 : Int) : Time) := by
    push_cast
    ring
  rw [redisMs, shifted, Int.floor_add_intCast, redisMs]

/-- A key with an expiry is there until the clock of Redis has passed it. -/
def unexpired (now expiresAt : Time) : Prop := redisMs now ≤ redisMs expiresAt

instance (now expiresAt : Time) : Decidable (unexpired now expiresAt) :=
  inferInstanceAs (Decidable (_ ≤ _))

theorem unexpired.earlier {now later expiresAt : Time} (live : unexpired later expiresAt)
    (past : now ≤ later) : unexpired now expiresAt := (redisMs_mono past).trans live

theorem unexpired_of_ttl (now : Time) (ttl : Nat) : unexpired now (now + ttl) :=
  redisMs_mono (le_add_of_nonneg_right (Nat.cast_nonneg ttl))

/-- An entry for a job; one without a body is a tombstone. -/
structure JobEntry where
  version : Int
  body : Option JobOut
  expiresAt : Time
deriving DecidableEq, Repr

structure IdemEntry where
  raw : String
  expiresAt : Time
deriving DecidableEq, Repr

structure Redis where
  jobs : JobId → Option JobEntry
  idem : String → Option IdemEntry

namespace Redis

def empty : Redis := ⟨fun _ => none, fun _ => none⟩

def setJob (redis : Redis) (jobId : JobId) (entry : Option JobEntry) : Redis :=
  { redis with jobs := fun other => if other = jobId then entry else redis.jobs other }

def setIdem (redis : Redis) (key : String) (entry : Option IdemEntry) : Redis :=
  { redis with idem := fun other => if other = key then entry else redis.idem other }

/-- `GET` of a job's key, which finds nothing once the entry has expired. -/
def getJobEntry (redis : Redis) (now : Time) (jobId : JobId) : Option JobEntry :=
  (redis.jobs jobId).filter fun entry => unexpired now entry.expiresAt

def getIdemEntry (redis : Redis) (now : Time) (key : String) : Option IdemEntry :=
  (redis.idem key).filter fun entry => unexpired now entry.expiresAt

end Redis

/-! ## Calls to Redis -/

/-- How a call to Redis ends: with its result, or with an error that `Cache.call` swallows, in
    which case the command may still have run.  With the cache disabled it never runs. -/
inductive RedisReply where
  | answered
  | failed (applied : Bool)
deriving DecidableEq, Repr

/-- `Cache.call`. -/
def Redis.call {α : Type} (redis : Redis) (reply : RedisReply) (fn : Redis → α × Redis) (default : α) :
    α × Redis :=
  match reply with
  | .answered => fn redis
  | .failed true => (default, (fn redis).2)
  | .failed false => (default, redis)

/-! ## Jobs -/

/-- `_SET_IF_NEWER`.  `SET ... EX 0` is an error of Redis, so a lifetime of 0 writes nothing. -/
def setIfNewer (now : Time) (jobId : JobId) (version : Int) (body : Option JobOut) (ttl : Nat)
    (redis : Redis) : Bool × Redis :=
  if (redis.getJobEntry now jobId).any fun current => version < current.version then (false, redis)
  else if ttl = 0 then (false, redis)
  else (true, redis.setJob jobId (some ⟨version, body, now + ttl⟩))

namespace JobCache

variable (settings : Settings) (now : Time)

def get (jobId : JobId) (reply : RedisReply) (redis : Redis) : Option JobOut :=
  let (entry, _) := redis.call reply (fun redis => (redis.getJobEntry now jobId, redis)) none
  entry.bind JobEntry.body

/-- Cache a job read from Postgres, unless a newer version is already cached. -/
def put (job : JobOut) (reply : RedisReply) (redis : Redis) : Bool × Redis :=
  let ttl := if job.status.isTerminal then settings.cacheJobTtlTerminal else settings.cacheJobTtlActive
  redis.call reply (setIfNewer now job.id job.version (some job) ttl) false

/-- Leaves a tombstone at the new version. -/
def invalidate (jobId : JobId) (newVersion : Int) (reply : RedisReply) (redis : Redis) : Bool × Redis :=
  redis.call reply (setIfNewer now jobId newVersion none settings.cacheTombstoneTtl) false

/-! ## Idempotency keys -/

def uuidText (jobId : JobId) : String := jobId.repr

/-- `UUID(text)`, which raises a `ValueError` on a text that is not one. -/
def parseUuid (text : String) : Except String JobId :=
  match Texts.digits? text with
  | some jobId => .ok jobId
  | none => .error "badly formed hexadecimal UUID string"

/-- Return `(job_id, request_hash)` for a key seen before, if cached. -/
def getIdempotency (key : String) (reply : RedisReply) (redis : Redis) :
    Except String (Option (JobId × String)) :=
  let (entry, _) := redis.call reply (fun redis => (redis.getIdemEntry now key, redis)) none
  match entry with
  | none => .ok none
  | some entry =>
    if entry.raw = "" then .ok none
    else
      let (jobId, requestHash) := Texts.partition '|' entry.raw
      match parseUuid jobId with
      | .ok jobId => .ok (some (jobId, requestHash))
      | .error message => .error message

/-- The text of an entry: `f"{job_id}|{request_hash}"`. -/
def idemText (jobId : JobId) (requestHash : String) : String :=
  uuidText jobId ++ '|'.toString ++ requestHash

def putIdempotency (key : String) (jobId : JobId) (requestHash : String) (reply : RedisReply)
    (redis : Redis) : Redis :=
  (redis.call reply (fun redis => ((), redis.setIdem key
    (some ⟨idemText jobId requestHash, now + settings.cacheIdempotencyTtl⟩))) ()).2

end JobCache

end NotifyQueue
