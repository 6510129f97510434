import Mathlib.Logic.Function.Basic
import Mathlib.Order.Basic
import NotifyQueue.Lib.Runs

/-! # Locks that expire

A lock is a key that is set when it is absent and is gone once a fixed time has passed.  Nothing in it
names the process that set it, and whoever releases it deletes whatever is there: `Key.holder` is
for the statements only.  It is `none` for a key that was set by a process that does not know it.

The lock keeps its promise just when it is not obtained while an overdue holder is still at work
(`exclusive_iff_timely`). -/

namespace ExpiringLocks

open Runs

universe u v

structure Key (ι : Type u) (τ : Type v) where
  holder : Option ι
  expiresAt : τ

/-- `holding i` is the time at which `i` obtained the lock that it has not released yet. -/
structure LockState (ι : Type u) (τ : Type v) where
  now : τ
  key : Option (Key ι τ)
  holding : ι → Option τ

inductive LockEvent (ι : Type u) where
  | idle
  | tick
  | obtain (i : ι)
  | orphan
  | release (i : ι)
  | leave (i : ι)

variable {ι : Type u} {τ : Type v} [DecidableEq ι] [Preorder τ] [Add τ]

/-- There is no key, or it has expired. -/
def LockState.Free (s : LockState ι τ) : Prop := ∀ key, s.key = some key → key.expiresAt < s.now

inductive LockStep (ttl : τ) (s : LockState ι τ) : LockEvent ι → LockState ι τ → Prop where
  | idle : LockStep ttl s .idle s
  | tick {now : τ} (forward : s.now ≤ now) : LockStep ttl s .tick { s with now }
  | obtained (i : ι) (free : s.Free) (fresh : s.holding i = none) :
      LockStep ttl s (.obtain i) { s with
        key := some ⟨some i, s.now + ttl⟩, holding := Function.update s.holding i (some s.now) }
  | orphaned (free : s.Free) :
      LockStep ttl s .orphan { s with key := some ⟨none, s.now + ttl⟩ }
  | released {i : ι} {since : τ} (holds : s.holding i = some since) :
      LockStep ttl s (.release i) { s with
        key := none, holding := Function.update s.holding i none }
  | left (i : ι) :
      LockStep ttl s (.leave i) { s with holding := Function.update s.holding i none }

def lockSystem (ttl : τ) : System (LockState ι τ) (LockEvent ι) where
  init s := s.key = none ∧ s.holding = fun _ => none
  step := LockStep ttl

/-! ## What a lock promises -/

/-- At most one process holds the lock. -/
def LockState.Exclusive (s : LockState ι τ) : Prop :=
  ∀ i k, s.holding i ≠ none → s.holding k ≠ none → i = k

/-- A release does not delete a live key that another process obtained. -/
def ReleasesOwn (taken : Taken (LockState ι τ) (LockEvent ι)) : Prop :=
  ∀ i, taken.label = .release i → ∀ key, taken.before.key = some key →
    taken.before.now ≤ key.expiresAt → ∀ k, key.holder = some k → k = i

/-- The lock is not obtained while a process holds it that obtained it more than `ttl` ago. -/
def Timely (ttl : τ) (taken : Taken (LockState ι τ) (LockEvent ι)) : Prop :=
  ∀ i, taken.label = .obtain i → ∀ k since, taken.before.holding k = some since →
    taken.before.now ≤ since + ttl

/-- The key belongs to the process that holds the lock, and is there until that process is
    overdue. -/
structure Guarded (ttl : τ) (s : LockState ι τ) : Prop where
  exclusive : s.Exclusive
  own : ∀ i, s.holding i ≠ none → ∀ key, s.key = some key → ∀ k, key.holder = some k → k = i
  kept : ∀ i since, s.holding i = some since → s.now ≤ since + ttl →
    ∃ key, s.key = some key ∧ since + ttl ≤ key.expiresAt

section

variable {ttl : τ} {s s' : LockState ι τ} {event : LockEvent ι}

omit [DecidableEq ι] in
/-- A free lock has no holder in time. -/
theorem Guarded.overdue (guarded : Guarded ttl s) (free : s.Free) {i : ι} {since : τ}
    (holds : s.holding i = some since) : ¬ s.now ≤ since + ttl := by
  intro inTime
  obtain ⟨key, present, lasts⟩ := guarded.kept i since holds inTime
  exact lt_irrefl _ ((inTime.trans lasts).trans_lt (free key present))

theorem Guarded.leave (guarded : Guarded ttl s) (i : ι) :
    Guarded ttl { s with holding := Function.update s.holding i none } := by
  have held : ∀ k, Function.update s.holding i none k ≠ none →
      k ≠ i ∧ s.holding k ≠ none := by
    intro k holds
    by_cases same : k = i
    · subst same
      simp at holds
    · exact ⟨same, by rwa [Function.update_of_ne same] at holds⟩
  constructor
  case exclusive =>
    intro k k' holds holds'
    exact guarded.exclusive k k' (held k holds).2 (held k' holds').2
  case own =>
    intro k holds key present
    exact guarded.own k (held k holds).2 key present
  case kept =>
    intro k since holds inTime
    have holds : Function.update s.holding i none k = some since := holds
    have different := (held k (by simp [holds])).1
    rw [Function.update_of_ne different] at holds
    exact guarded.kept k since holds inTime

theorem Guarded.step (guarded : Guarded ttl s) (step : LockStep ttl s event s')
    (timely : Timely ttl ⟨s, event, s'⟩) : Guarded ttl s' := by
  cases step with
  | idle => exact guarded
  | tick forward =>
    refine ⟨guarded.exclusive, guarded.own, ?_⟩
    intro i since holds inTime
    exact guarded.kept i since holds (forward.trans inTime)
  | obtained i free _ =>
    -- whoever held it would be overdue, and nobody is
    have nobody : ∀ k, s.holding k = none := by
      intro k
      cases holds : s.holding k with
      | none => rfl
      | some since => exact absurd (timely i rfl k since holds) (guarded.overdue free holds)
    have only : ∀ k, Function.update s.holding i (some s.now) k ≠ none → k = i := by
      intro k holds
      by_contra different
      exact holds (by rw [Function.update_of_ne different, nobody k])
    constructor
    case exclusive =>
      intro k k' holds holds'
      rw [only k holds, only k' holds']
    case own =>
      rintro k holds _ ⟨⟩ owner ⟨⟩
      exact (only k holds).symm
    case kept =>
      intro k since holds _
      have holds : Function.update s.holding i (some s.now) k = some since := holds
      rw [only k (by simp [holds]), Function.update_self, Option.some.injEq] at holds
      exact ⟨_, rfl, by rw [holds]⟩
  | orphaned free =>
    refine ⟨guarded.exclusive, ?_, ?_⟩
    · rintro i _ _ ⟨⟩ k ⟨⟩
    · intro i since holds inTime
      exact absurd inTime (guarded.overdue free holds)
  | @released i since holds =>
    have left := guarded.leave i
    -- nobody else held it
    have nobody : ∀ k, Function.update s.holding i none k = none := by
      intro k
      by_cases same : k = i
      · simp [same]
      · by_contra still
        rw [Function.update_of_ne same] at still
        exact same (guarded.exclusive k i still (by simp [holds]))
    refine ⟨left.exclusive, ?_, ?_⟩
    · rintro k _ _ ⟨⟩
    · intro k since' holds'
      cases (nobody k).symm.trans holds'
  | left i => exact guarded.leave i

theorem Guarded.releasesOwn (guarded : Guarded ttl s) (step : LockStep ttl s event s') :
    ReleasesOwn ⟨s, event, s'⟩ := by
  intro i label key present _ k owner
  cases label
  cases step with
  | released holds => exact guarded.own i (by simp [holds]) key present k owner

end

/-! ## Runs -/

variable {ttl : τ} {history : History (LockState ι τ) (LockEvent ι)} {s : LockState ι τ}

theorem guarded_of_run (run : Run (lockSystem ttl) history s)
    (timely : Along (fun _ taken => Timely ttl taken) history) : Guarded ttl s := by
  refine Run.invariant (I := fun _ s => Guarded ttl s) ?_ ?_ run timely
  · rintro s ⟨noKey, noHolder⟩
    exact ⟨by simp [LockState.Exclusive, noHolder], by simp [noKey], by simp [noHolder]⟩
  · intro history s event s' _ _ guarded timely step
    exact guarded.step step timely

/-- In every run, the lock has at most one holder and is released by its own holder exactly as long
    as nobody obtains it while an overdue holder is at work. -/
theorem exclusive_iff_timely (run : Run (lockSystem ttl) history s) :
    Along (fun _ taken => taken.after.Exclusive ∧ ReleasesOwn taken) history ↔
      Along (fun _ taken => Timely ttl taken) history := by
  induction run with
  | start _ => exact Iff.rfl
  | @next history s s' event earlier step inductionHypothesis =>
    rw [along_cons, along_cons, inductionHypothesis]
    constructor
    · rintro ⟨⟨exclusive, _⟩, timely⟩
      refine ⟨?_, timely⟩
      intro i label k since holds
      cases label
      cases step with
      | obtained _ _ fresh =>
        -- the new holder would not be the only one
        have holds : s.holding k = some since := holds
        have different : k ≠ i := by
          rintro rfl
          rw [fresh] at holds
          cases holds
        have same := exclusive k i (by simp [Function.update_of_ne different, holds]) (by simp)
        exact absurd same different
    · rintro ⟨timely, earlierTimely⟩
      have guarded := guarded_of_run earlier earlierTimely
      exact ⟨⟨(guarded.step step timely).exclusive, guarded.releasesOwn step⟩, earlierTimely⟩

end ExpiringLocks
