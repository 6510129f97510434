import Mathlib.Data.Rat.Floor
import NotifyQueue.Repositories.Schema

/-! # Rate limit buckets

Translated from `repositories/jobs.py`: the two statements on `rate_limit_buckets`, each the
whole of a transaction's work on that table.  The epoch arithmetic is on exact rationals.
A limit that Postgres cannot take as an `integer`, which the driver refuses, is not treated
apart. -/

namespace NotifyQueue

open Tables (Table)

structure Bucket where
  recipient : String
  windowStart : Time
  count : Int
deriving DecidableEq, Repr

def Bucket.key (bucket : Bucket) : String × Time := (bucket.recipient, bucket.windowStart)

abbrev Buckets := Table Bucket.key noUniqueColumn

/-- `to_timestamp(floor(extract(epoch FROM now()) / :window) * :window)`. -/
def windowStart (now window : Time) : Time := ⌊now / window⌋ * window

/-- `DO UPDATE SET count = b.count + 1`. -/
def Bucket.increment (bucket : Bucket) : Bucket := { bucket with count := bucket.count + 1 }

theorem Bucket.key_increment (bucket : Bucket) : bucket.increment.key = bucket.key := rfl

/-- `try_acquire_rate_limit`. -/
def tryAcquireRateLimit (now : Time) (recipient : String) (limit : Int) (windowSeconds : Time)
    (buckets : Buckets) : Option Time × Buckets :=
  let start := windowStart now windowSeconds
  match buckets.insert ⟨recipient, start, 1⟩ with
  | .ok buckets => (none, buckets)
  | .error _ =>
    -- `ON CONFLICT (recipient, window_start) DO UPDATE ... WHERE b.count < :limit RETURNING`
    let conflicting : Bucket → Bool := fun b => b.key = (recipient, start) && b.count < limit
    match (buckets.returning conflicting Bucket.increment).head? with
    | some _ =>
      (none, buckets.update conflicting Bucket.increment Bucket.key_increment
        (noUniqueColumn_keeps Bucket.increment))
    | none => (some ((⌊now / windowSeconds⌋ + 1) * windowSeconds - now), buckets)

/-- `delete_old_rate_limit_buckets`, with its `rowcount`. -/
def deleteOldRateLimitBuckets (now windowSeconds : Time) (buckets : Buckets) : Nat × Buckets :=
  let old : Bucket → Bool := fun b => b.windowStart < now - windowSeconds * 2
  ((buckets.select old).length, buckets.delete old)

end NotifyQueue
