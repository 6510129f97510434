import NotifyQueue.Cache.JobCache

/-! # The texts of the read cache

`cache/job_cache.py` once more, down to the texts `"<version>|<json>"` that Redis holds under
the `job:` keys.  The JSON of a job is pydantic's: what this code relies on is that its text is
read back as the same job. -/

namespace NotifyQueue

/-- `model_dump_json(exclude={"attempt_history"})` and `model_validate_json`, which gives `none`
    for a `ValidationError`. -/
structure JobJson where
  dump : JobOut → String
  validate : String → Option JobOut
  validate_dump : ∀ job, validate (dump job) = some job
  dump_ne_empty : ∀ job, dump job ≠ ""

/-- A value that was `SET` with `EX ttl`. -/
structure TextEntry where
  raw : String
  storedAt : Time
  ttl : Nat
deriving DecidableEq, Repr

abbrev JobTexts := JobId → Option TextEntry

/-- `Cache.call`, as in `Redis.call`. -/
def cacheCall {σ α : Type} (stored : σ) (reply : RedisReply) (fn : σ → α × σ) (default : α) : α × σ :=
  match reply with
  | .answered => fn stored
  | .failed true => (default, (fn stored).2)
  | .failed false => (default, stored)

namespace JobTexts

/-- `GET`. -/
def read (texts : JobTexts) (now : Time) (jobId : JobId) : Option String :=
  ((texts jobId).filter fun entry => unexpired now (entry.storedAt + entry.ttl)).map TextEntry.raw

def write (texts : JobTexts) (jobId : JobId) (entry : Option TextEntry) : JobTexts :=
  fun other => if other = jobId then entry else texts other

/-- `ARGV[1] .. '|' .. ARGV[2]`. -/
def entryText (version : Int) (body : String) : String :=
  toString version ++ '|'.toString ++ body

/-- `cached_version`; `none` when there is no separator, or no number before it.  The numbers
    are the ones that the code writes: `tonumber` takes others as well. -/
def cachedVersion (current : String) : Option Int :=
  if '|' ∈ current.toList then Texts.integer? (Texts.partition '|' current).1 else none

/-- `_SET_IF_NEWER`. -/
def setIfNewer (now : Time) (jobId : JobId) (version : Int) (body : String) (ttl : Nat)
    (texts : JobTexts) : Bool × JobTexts :=
  if ((texts.read now jobId).bind cachedVersion).any fun cachedVersion => version < cachedVersion then
    (false, texts)
  else if ttl = 0 then (false, texts)
  else (true, texts.write jobId (some ⟨entryText version body, now, ttl⟩))

section

variable (json : JobJson) (settings : Settings) (now : Time)

def get (jobId : JobId) (reply : RedisReply) (texts : JobTexts) : Except String (Option JobOut) :=
  let (raw, _) := cacheCall texts reply (fun texts => (texts.read now jobId, texts)) none
  match raw with
  | none => .ok none
  | some raw =>
    if raw = "" then .ok none
    else
      let (_, body) := Texts.partition '|' raw
      if body = "" then .ok none
      else
        match json.validate body with
        | some job => .ok (some job)
        | none => .error "ValidationError"

/-- The lifetime of a job's text. -/
def jobTtl (job : JobOut) : Nat :=
  if job.status.isTerminal then settings.cacheJobTtlTerminal else settings.cacheJobTtlActive

/-- Cache a job read from Postgres, unless a newer version is already cached. -/
def put (job : JobOut) (reply : RedisReply) (texts : JobTexts) : Bool × JobTexts :=
  cacheCall texts reply
    (setIfNewer now job.id job.version (json.dump job) (jobTtl settings job)) false

/-- Leaves a tombstone at the new version. -/
def invalidate (jobId : JobId) (newVersion : Int) (reply : RedisReply) (texts : JobTexts) :
    Bool × JobTexts :=
  cacheCall texts reply (setIfNewer now jobId newVersion "" settings.cacheTombstoneTtl) false

end

end JobTexts

end NotifyQueue
