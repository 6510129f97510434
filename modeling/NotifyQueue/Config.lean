import Mathlib.Tactic.NormNum
import NotifyQueue.Domain.Models

/-! # Settings

The fields of `config.py` that the worker, its reaper and dispatcher, the rate limiter and the
caches read.  The field `leaseFitsSendBudget` is the model validator: settings without it cannot
be built. -/

namespace NotifyQueue

open Float.Model (UnpackedFloat)

structure Settings where
  dbPoolTimeout : Time
  cacheEnabled : Bool
  cacheJobTtlActive : Nat
  cacheJobTtlTerminal : Nat
  cacheTombstoneTtl : Nat
  cacheIdempotencyTtl : Nat
  cacheMetricsTtl : Nat
  workerConcurrency : Nat
  batchSize : Nat
  leaseSeconds : Time
  sendTimeoutSeconds : Time
  leaseSafetyMarginSeconds : Time
  reaperBatchSize : Nat
  maxAttempts : Int
  backoffBaseSeconds : Time
  backoffCapSeconds : Time
  rateLimitPerHour : Int
  rateLimitWindowSeconds : Time
  webhookBatchSize : Nat
  webhookTimeoutSeconds : Time
  webhookMaxAttempts : Int
  defaultCallbackUrl : String
  leaseFitsSendBudget : sendTimeoutSeconds + dbPoolTimeout + leaseSafetyMarginSeconds < leaseSeconds

/-- The defaults of the fields; they pass the validator. -/
def Settings.default : Settings where
  dbPoolTimeout := 10
  cacheEnabled := true
  cacheJobTtlActive := 30
  cacheJobTtlTerminal := 86400
  cacheTombstoneTtl := 60
  cacheIdempotencyTtl := 86400
  cacheMetricsTtl := 2
  workerConcurrency := 4
  batchSize := 10
  leaseSeconds := 30
  sendTimeoutSeconds := 10
  leaseSafetyMarginSeconds := 2
  reaperBatchSize := 100
  maxAttempts := 5
  backoffBaseSeconds := 2
  backoffCapSeconds := 300
  rateLimitPerHour := 10
  rateLimitWindowSeconds := 3600
  webhookBatchSize := 20
  webhookTimeoutSeconds := 5
  webhookMaxAttempts := 8
  defaultCallbackUrl := "http://localhost:8000/mock/webhooks"
  leaseFitsSendBudget := by norm_num

/-- Lease time that must remain before a send may start. -/
def Settings.sendBudgetSeconds (settings : Settings) : Time :=
  settings.sendTimeoutSeconds + settings.dbPoolTimeout + settings.leaseSafetyMarginSeconds

/-- The double nearest to a number, which is what a `float` field holds of it. -/
def nearestDouble (x : ℚ) : UnpackedFloat :=
  if isZero : x.num = 0 then .zero .positive
  else
    .div .binary64
      (.finite (if x.num < 0 then .negative else .positive) x.num.natAbs 0
        (Int.natAbs_pos.mpr isZero))
      (.finite .positive x.den 0 x.den_pos)

/-- `int(rate_limit_window_seconds * 1000)`: the product is a double again, and `int` truncates
    it towards zero. -/
def Settings.windowMs (settings : Settings) : Int :=
  ((nearestDouble settings.rateLimitWindowSeconds).mul .binary64 (.ofNat .binary64 1000)).toInt 0 0

-- `1.001 * 1000` rounds to a double below 1001.
example : { Settings.default with rateLimitWindowSeconds := 1001 / 1000 }.windowMs = 1000 := by
  decide +kernel

end NotifyQueue
