import NotifyQueue.Domain.Models

/-! # Retry delays

Translated from `domain/backoff.py`, in exact arithmetic except for the conversion of the
power of two to a float, which fails from `2 ** 1024` on. -/

namespace NotifyQueue

inductive BackoffError where
  | valueError
  | overflowError
deriving DecidableEq, Repr

/-- `draw` is what `uniform(0, ceiling / 2)` returned. -/
def backoffDelay (attempt : Int) (base cap draw : Time) : Except BackoffError Time :=
  if attempt < 1 then .error .valueError
  else if 1024 ≤ attempt - 1 then .error .overflowError
  else
    let ceiling := min cap (base * 2 ^ (attempt - 1).toNat)
    .ok (ceiling / 2 + draw)

end NotifyQueue
