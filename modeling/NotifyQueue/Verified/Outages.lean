import Mathlib.Data.Finset.Max
import NotifyQueue.Verified.ExactWaits
import NotifyQueue.Verified.FixedWindow

/-! # The rate limit while Redis comes and goes

Whether a call reaches Redis is free at every call.  Each store sees a run of its own: the key
a run of the script (`redisRun`), the buckets a run of the fallback (`postgresRun`).  A period
of one window can meet two of the aligned windows and a window of the script besides:
`outage_bound_iff` says for which times and outages that cannot happen. -/

namespace NotifyQueue

open AlignedWindows Runs SortedSets

/-- A finished call of `RedisRateLimiter.acquire`; `wait` is what it returns. -/
structure LimiterCall where
  jobId : JobId
  now : Time
  redis : RedisReply
  wait : Option Time
deriving DecidableEq, Repr

structure LimiterState where
  stores : LimiterStores
  clock : Time

def limiterStep (settings : Settings) (recipient : String) (s : LimiterState) (call : LimiterCall) :
    Option LimiterState :=
  let (wait, stores) :=
    RedisRateLimiter.acquire settings call.now recipient call.jobId call.redis s.stores
  if s.clock ≤ call.now ∧ wait = call.wait then some ⟨stores, call.now⟩ else none

/-- The calls for one recipient, from empty stores. -/
def limiterSystem (settings : Settings) (recipient : String) : System LimiterState LimiterCall :=
  .ofStep (fun s => s.stores = ⟨.empty, .empty⟩) (limiterStep settings recipient)

abbrev LimiterHistory := History LimiterState LimiterCall

def callers (history : LimiterHistory) : List JobId := history.map fun taken => taken.label.jobId

/-- The jobs whose calls meet a condition. -/
def jobsWhere (history : LimiterHistory) (p : LimiterCall → Prop) [DecidablePred p] :
    Finset JobId :=
  (callers (history.filter fun taken => p taken.label)).toFinset

/-- A call that admitted its job in `[begins, begins + length)`. -/
abbrev AdmittedWithin (begins length : Time) (call : LimiterCall) : Prop :=
  call.wait = none ∧ begins ≤ call.now ∧ call.now < begins + length

/-- The jobs admitted in `[begins, begins + length)`. -/
def jobsAdmitted (history : LimiterHistory) (begins length : Time) : Finset JobId :=
  jobsWhere history (AdmittedWithin begins length)

/-- What is given of a call: when it comes, and whether Redis answers it. -/
structure Arrival where
  now : Time
  answered : Bool
deriving DecidableEq, Repr

def LimiterCall.arrival (call : LimiterCall) : Arrival := ⟨call.now, call.redis = .answered⟩

/-- Two calls that count in one window: the script's clock reads less than a window between them,
    or the fallback has one bucket for both. -/
def ShareWindow (settings : Settings) (a b : Arrival) : Prop :=
  match a.answered, b.answered with
  | true, true => |redisMs a.now - redisMs b.now| < settings.windowMs
  | false, false =>
    index settings.rateLimitWindowSeconds a.now = index settings.rateLimitWindowSeconds b.now
  | _, _ => False

/-- Of any three calls in a period of a window's length, two share a window. -/
def TwoShare (settings : Settings) (arrivals : Set Arrival) : Prop :=
  ∀ begins, ∀ a ∈ arrivals, ∀ b ∈ arrivals, ∀ c ∈ arrivals,
    (∀ x ∈ [a, b, c], begins ≤ x.now ∧ x.now < begins + settings.rateLimitWindowSeconds) →
      ShareWindow settings a b ∨ ShareWindow settings a c ∨ ShareWindow settings b c

/-! ## One call -/

section

variable {settings : Settings} {recipient : String} {history : LimiterHistory}
  {s s' : LimiterState} {call : LimiterCall}

theorem limiter_step (step : (limiterSystem settings recipient).step s call s') :
    s.clock ≤ call.now ∧ s'.clock = call.now ∧
      RedisRateLimiter.acquire settings call.now recipient call.jobId call.redis s.stores =
        (call.wait, s'.stores) := by
  simp only [limiterSystem, System.ofStep, limiterStep] at step
  split at step
  · next enabled =>
    cases step
    exact ⟨enabled.1, rfl, Prod.ext enabled.2 rfl⟩
  · contradiction

/-- With a slot to give, the script never raises. -/
theorem acquireScript_ne_error {window now : Int} {limit : Nat} {job : JobId} {key key' : RateKey}
    (positive : 1 ≤ limit) : acquireScript window limit now job key ≠ (.error, key') := by
  intro returned
  obtain ⟨_, waits, _⟩ := acquireScript_refused positive returned (by simp)
  cases waits

/-- Who decided on a call, and what the other store saw of it. -/
theorem limiter_step_cases (room : 1 ≤ settings.rateLimitPerHour)
    (step : (limiterSystem settings recipient).step s call s') :
    (call.redis = .answered ∧ s'.stores.buckets = s.stores.buckets ∧
        ∃ reply, acquireScript settings.windowMs settings.rateLimitPerHour.toNat (redisMs call.now)
            call.jobId s.stores.key = (reply, s'.stores.key) ∧
          (call.wait = none → reply = .admitted)) ∨
      (call.redis ≠ .answered ∧
        PostgresRateLimiter.acquire settings call.now recipient s.stores.buckets =
          (call.wait, s'.stores.buckets) ∧
        (s'.stores.key = s.stores.key ∨
          ∃ reply, acquireScript settings.windowMs settings.rateLimitPerHour.toNat
            (redisMs call.now) call.jobId s.stores.key = (reply, s'.stores.key))) := by
  obtain ⟨_, _, returned⟩ := limiter_step step
  have noError := @acquireScript_ne_error settings.windowMs (redisMs call.now)
    settings.rateLimitPerHour.toNat call.jobId s.stores.key
  simp only [RedisRateLimiter.acquire, callAcquire] at returned
  cases ran : acquireScript settings.windowMs settings.rateLimitPerHour.toNat (redisMs call.now)
    call.jobId s.stores.key with
  | mk reply key =>
    rw [ran] at returned
    cases reached : call.redis with
    | answered =>
      rw [reached] at returned
      cases reply with
      | admitted =>
        obtain ⟨_, stores⟩ := Prod.mk.inj returned
        rw [← stores]
        exact .inl ⟨rfl, rfl, _, rfl, fun _ => rfl⟩
      | wait ms =>
        obtain ⟨waits, stores⟩ := Prod.mk.inj returned
        rw [← stores, ← waits]
        exact .inl ⟨rfl, rfl, _, rfl, fun none => by cases none⟩
      | error => exact absurd ran (noError (by omega))
    -- Postgres answers, whether or not Redis has run the script
    | failed applied =>
      rw [reached] at returned
      cases applied with
      | true =>
        obtain ⟨waits, stores⟩ := Prod.mk.inj returned
        rw [← stores, ← waits]
        exact .inr ⟨by simp, rfl, .inr ⟨_, rfl⟩⟩
      | false =>
        obtain ⟨waits, stores⟩ := Prod.mk.inj returned
        rw [← stores, ← waits]
        exact .inr ⟨by simp, rfl, .inl rfl⟩

/-! ## The run that each store sees -/

/-- The script admitted the job, when its clock read less than `window` past `begins`. -/
abbrev AnsweredIn (window begins : Int) (call : LimiterCall) : Prop :=
  call.redis = .answered ∧ call.wait = none ∧
    begins ≤ redisMs call.now ∧ redisMs call.now < begins + window

/-- The fallback admitted the job, in the `k`-th of its windows. -/
abbrev FellBackIn (window : Time) (k : Int) (call : LimiterCall) : Prop :=
  call.redis ≠ .answered ∧ call.wait = none ∧
    start window k ≤ call.now ∧ call.now < start window (k + 1)

/-- A slot that was newly taken in the period stays in it under further calls of the script. -/
theorem takenIn_acquire {rates : RateHistory} {t t' : RateState} {rateCall : RateCall}
    {job : JobId} {begins window : Int} {slot : JobId × Int} (acquires : rateCall.op = .acquire job)
    (member : slot ∈ takenIn begins window rates) :
    slot ∈ takenIn begins window (⟨t, rateCall, t'⟩ :: rates) := by
  simp only [takenIn, acquires]
  split
  · split
    · exact List.mem_cons_of_mem _ member
    · exact member
  · exact member
  · next other =>
    cases other

/-- What the script's own run has to say about the calls that it answered. -/
structure RedisRun (settings : Settings) (history : LimiterHistory) (s : LimiterState)
    (rates : RateHistory) (t : RateState) : Prop where
  run : Run (rateSystem settings.rateLimitPerHour.toNat settings.windowMs) rates t
  key : t.key = s.stores.key
  clock : t.clock ≤ redisMs s.clock
  holders : ∀ j time, s.stores.key.slots.score j = some time → j ∈ callers history
  taken : ∀ taken ∈ history, ∀ begins, AnsweredIn settings.windowMs begins taken.label →
    (taken.label.jobId, redisMs taken.label.now) ∈ takenIn begins settings.windowMs rates

/-- A call that runs the script is a step of the script's run. -/
theorem RedisRun.script {rates : RateHistory} {t : RateState}
    (seen : RedisRun settings history s rates t)
    (later : s.clock ≤ call.now) (clock : s'.clock = call.now) (new : call.jobId ∉ callers history)
    {reply : AcquireReply}
    (ran : acquireScript settings.windowMs settings.rateLimitPerHour.toNat (redisMs call.now)
      call.jobId s.stores.key = (reply, s'.stores.key))
    (decided : call.redis = .answered → call.wait = none → reply = .admitted) :
    ∃ rates t, RedisRun settings (⟨s, call, s'⟩ :: history) s' rates t := by
  have step : (rateSystem settings.rateLimitPerHour.toNat settings.windowMs).step t
      ⟨.acquire call.jobId, redisMs call.now, some reply⟩ ⟨s'.stores.key, redisMs call.now⟩ := by
    refine ⟨seen.clock.trans (redisMs_mono later), ?_, rfl⟩
    simp only [RateOp.run, seen.key, ran]
  -- a job that never called holds no slot
  have free : (s.stores.key.held (redisMs call.now) settings.windowMs).score call.jobId = none := by
    by_contra held
    obtain ⟨time, held⟩ := Option.ne_none_iff_exists'.mp held
    exact new (seen.holders _ time (score_held held).1)
  refine ⟨_, _, .next seen.run step, rfl, ?_, ?_, ?_⟩
  · rw [clock]
  · intro j time held
    have old : (s.stores.key.held (redisMs call.now) settings.windowMs).score j = some time →
        j ∈ callers history := fun held => seen.holders j time (score_held held).1
    rw [callers, List.map_cons, List.mem_cons]
    rcases acquireScript_cases ran with ⟨_, _, _, slots⟩ | ⟨_, _, _, slots⟩ | ⟨_, _, _, slots⟩
    · exact .inr (old ((slots j time).mp held))
    · cases (slots j time).mp held with
      | inl kept => exact .inr (old kept)
      | inr fresh => exact .inl fresh.1
    · exact .inr (old ((slots j time).mp held))
  · intro taken member begins within
    cases member with
    | tail _ member => exact takenIn_acquire rfl (seen.taken taken member begins within)
    | head =>
      obtain ⟨answered, admitted, after, before⟩ := within
      have reply := decided answered admitted
      simp only at after before
      simp [takenIn, reply, seen.key, free, after, before]

theorem redisRun (room : 1 ≤ settings.rateLimitPerHour)
    (run : Run (limiterSystem settings recipient) history s) (distinct : (callers history).Nodup) :
    ∃ rates t, RedisRun settings history s rates t := by
  induction run with
  | @start s initial =>
    have stores : s.stores = ⟨.empty, .empty⟩ := initial
    refine ⟨[], ⟨.empty, redisMs s.clock⟩, .start rfl, by rw [stores], le_refl _, ?_, ?_⟩
    · intro j time held
      rw [stores] at held
      cases held
    · intro taken member
      cases member
  | @next history s s' call run step inductionHypothesis =>
    rw [callers, List.map_cons, List.nodup_cons] at distinct
    obtain ⟨rates, t, seen⟩ := inductionHypothesis distinct.2
    obtain ⟨later, clock, _⟩ := limiter_step step
    rcases limiter_step_cases room step with
      ⟨_, _, reply, ran, decided⟩ | ⟨failed, _, untouched | ⟨reply, ran⟩⟩
    -- an answered call is a step of the script, and so is one whose answer was lost
    · exact seen.script later clock distinct.1 ran fun _ => decided
    · refine ⟨rates, t, seen.run, seen.key.trans untouched.symm, ?_, ?_, ?_⟩
      · rw [clock]
        exact seen.clock.trans (redisMs_mono later)
      · intro j time held
        rw [untouched] at held
        exact List.mem_cons_of_mem _ (seen.holders j time held)
      · intro taken member begins within
        cases member with
        | head => exact absurd within.1 failed
        | tail _ member => exact seen.taken taken member begins within
    · exact seen.script later clock distinct.1 ran fun answered => absurd answered failed

/-- What the run of the buckets has to say about the calls that fell back. -/
structure PostgresRun (settings : Settings) (recipient : String) (history : LimiterHistory)
    (s : LimiterState) (calls : BucketHistory) (u : BucketState) : Prop where
  run : Run (bucketSystem settings.rateLimitPerHour settings.rateLimitWindowSeconds) calls u
  buckets : u.buckets = s.stores.buckets
  clock : u.clock ≤ s.clock
  counted : ∀ k,
    (history.countP fun taken => FellBackIn settings.rateLimitWindowSeconds k taken.label) ≤
      admissions settings.rateLimitWindowSeconds recipient k calls

theorem postgresRun (room : 1 ≤ settings.rateLimitPerHour)
    (run : Run (limiterSystem settings recipient) history s) :
    ∃ calls u, PostgresRun settings recipient history s calls u := by
  induction run with
  | @start s initial =>
    have stores : s.stores = ⟨.empty, .empty⟩ := initial
    exact ⟨[], ⟨.empty, s.clock⟩, .start rfl, by rw [stores], le_refl _, fun k => le_refl _⟩
  | @next history s s' call run step inductionHypothesis =>
    obtain ⟨calls, u, seen⟩ := inductionHypothesis
    obtain ⟨later, clock, _⟩ := limiter_step step
    rcases limiter_step_cases room step with ⟨answered, same, _⟩ | ⟨failed, returned, _⟩
    -- a call that Redis answered never reaches the buckets
    · refine ⟨calls, u, seen.run, seen.buckets.trans same.symm, ?_, ?_⟩
      · rw [clock]
        exact seen.clock.trans later
      · intro k
        rw [List.countP_cons_of_neg (by simp [FellBackIn, answered])]
        exact seen.counted k
    · have step : (bucketSystem settings.rateLimitPerHour settings.rateLimitWindowSeconds).step u
          ⟨.acquire recipient, call.now, .acquired call.wait⟩ ⟨s'.stores.buckets, call.now⟩ := by
        simp only [PostgresRateLimiter.acquire] at returned
        simp [bucketSystem, System.ofStep, bucketStep, BucketOp.run, seen.buckets, returned,
          seen.clock.trans later]
      refine ⟨_, _, .next seen.run step, rfl, clock.ge, ?_⟩
      intro k
      have before := seen.counted k
      by_cases admitted : AdmittedIn settings.rateLimitWindowSeconds recipient k
          ⟨.acquire recipient, call.now, .acquired call.wait⟩
      · rw [admissions_cons admitted]
        rw [List.countP_cons]
        split <;> omega
      · rw [admissions_cons_of_not admitted, List.countP_cons_of_neg]
        · exact before
        · simp only [decide_eq_true_eq]
          intro counted
          apply admitted
          exact ⟨rfl, congrArg _ counted.2.1, counted.2.2⟩

/-! ## Counting jobs -/

theorem mem_jobsWhere {p : LimiterCall → Prop} [DecidablePred p] {j : JobId} :
    j ∈ jobsWhere history p ↔ ∃ taken ∈ history, p taken.label ∧ taken.label.jobId = j := by
  simp [jobsWhere, callers, and_assoc]

/-- Jobs whose calls are of one of two kinds. -/
theorem card_jobsWhere_le (history : LimiterHistory) {p q r : LimiterCall → Prop}
    [DecidablePred p] [DecidablePred q] [DecidablePred r]
    (split : ∀ taken ∈ history, p taken.label → q taken.label ∨ r taken.label) :
    (jobsWhere history p).card ≤ (jobsWhere history q).card + (jobsWhere history r).card := by
  have covered : jobsWhere history p ⊆ jobsWhere history q ∪ jobsWhere history r := by
    intro j member
    obtain ⟨taken, called, met, rfl⟩ := mem_jobsWhere.mp member
    rw [Finset.mem_union]
    cases split taken called met with
    | inl met => exact .inl (mem_jobsWhere.mpr ⟨taken, called, met, rfl⟩)
    | inr met => exact .inr (mem_jobsWhere.mpr ⟨taken, called, met, rfl⟩)
  exact (Finset.card_le_card covered).trans (Finset.card_union_le _ _)

theorem card_jobsWhere_mono {p q : LimiterCall → Prop} [DecidablePred p] [DecidablePred q]
    (weaker : ∀ taken ∈ history, p taken.label → q taken.label) :
    (jobsWhere history p).card ≤ (jobsWhere history q).card := by
  apply Finset.card_le_card
  intro j member
  obtain ⟨taken, called, met, rfl⟩ := mem_jobsWhere.mp member
  exact mem_jobsWhere.mpr ⟨taken, called, weaker taken called met, rfl⟩

theorem jobsWhere_eq_empty {p : LimiterCall → Prop} [DecidablePred p]
    (none : ∀ taken ∈ history, ¬ p taken.label) : jobsWhere history p = ∅ := by
  rw [Finset.eq_empty_iff_forall_notMem]
  intro j member
  obtain ⟨taken, called, met, _⟩ := mem_jobsWhere.mp member
  exact none taken called met

theorem card_answeredIn_le (room : 1 ≤ settings.rateLimitPerHour)
    (run : Run (limiterSystem settings recipient) history s) (distinct : (callers history).Nodup)
    (begins : Int) :
    ((jobsWhere history (AnsweredIn settings.windowMs begins)).card : Int) ≤
      settings.rateLimitPerHour := by
  obtain ⟨rates, t, seen⟩ := redisRun room run distinct
  have slots := (takenHeld_of_run seen.run begins).atMost
  have subset : jobsWhere history (AnsweredIn settings.windowMs begins) ⊆
      ((takenIn begins settings.windowMs rates).map Prod.fst).toFinset := by
    intro j member
    obtain ⟨taken, called, within, rfl⟩ := mem_jobsWhere.mp member
    rw [List.mem_toFinset]
    exact List.mem_map.mpr ⟨_, seen.taken taken called begins within, rfl⟩
  have card := (Finset.card_le_card subset).trans (List.toFinset_card_le _)
  rw [List.length_map] at card
  omega

theorem card_fellBackIn_le (room : 1 ≤ settings.rateLimitPerHour)
    (positive : 0 < settings.rateLimitWindowSeconds)
    (run : Run (limiterSystem settings recipient) history s) (k : Int) :
    ((jobsWhere history (FellBackIn settings.rateLimitWindowSeconds k)).card : Int) ≤
      settings.rateLimitPerHour := by
  obtain ⟨calls, u, seen⟩ := postgresRun room run
  have admitted := admissions_le positive room seen.run recipient k
  have counted := seen.counted k
  have card := List.toFinset_card_le (callers (history.filter fun taken =>
    FellBackIn settings.rateLimitWindowSeconds k taken.label))
  rw [callers, List.length_map, ← List.countP_eq_length_filter] at card
  simp only [jobsWhere, callers]
  omega

end

/-! ## Calls that share their windows -/

section

variable {settings : Settings} {recipient : String} {history : LimiterHistory} {s : LimiterState}
  {p : LimiterCall → Prop} [DecidablePred p]

theorem shareWindow_answered {a b : LimiterCall} (first : a.redis = .answered)
    (second : b.redis = .answered) : ShareWindow settings a.arrival b.arrival ↔
      |redisMs a.now - redisMs b.now| < settings.windowMs := by
  simp [ShareWindow, LimiterCall.arrival, first, second]

theorem shareWindow_fellBack {a b : LimiterCall} (first : a.redis ≠ .answered)
    (second : b.redis ≠ .answered) : ShareWindow settings a.arrival b.arrival ↔
      index settings.rateLimitWindowSeconds a.now = index settings.rateLimitWindowSeconds b.now := by
  simp [ShareWindow, LimiterCall.arrival, first, second]

theorem not_shareWindow {a b : LimiterCall} (first : a.redis = .answered)
    (second : b.redis ≠ .answered) : ¬ ShareWindow settings a.arrival b.arrival := by
  simp [ShareWindow, LimiterCall.arrival, first, second]

/-- Of the calls of a kind, one at which the clock of the script read least. -/
theorem exists_earliest (some : ∃ taken ∈ history, p taken.label) :
    ∃ first ∈ history, p first.label ∧
      ∀ taken ∈ history, p taken.label → redisMs first.label.now ≤ redisMs taken.label.now := by
  have nonempty : ((history.map Taken.label).filter p).toFinset.Nonempty := by
    obtain ⟨taken, called, met⟩ := some
    exact ⟨taken.label, by simp only [List.mem_toFinset, List.mem_filter, List.mem_map]; grind⟩
  obtain ⟨call, member, least⟩ :=
    Finset.exists_min_image _ (fun call : LimiterCall => redisMs call.now) nonempty
  simp only [List.mem_toFinset, List.mem_filter, List.mem_map, decide_eq_true_eq] at member least
  obtain ⟨⟨first, called, rfl⟩, met⟩ := member
  exact ⟨first, called, met, fun taken called met => least _ ⟨⟨taken, called, rfl⟩, met⟩⟩

/-- Answered calls of which any two share a window. -/
theorem card_answered_shared (room : 1 ≤ settings.rateLimitPerHour)
    (run : Run (limiterSystem settings recipient) history s) (distinct : (callers history).Nodup)
    (answered : ∀ call, p call → call.redis = .answered ∧ call.wait = none)
    (share : ∀ a ∈ history, ∀ b ∈ history, p a.label → p b.label →
      ShareWindow settings a.label.arrival b.label.arrival) :
    ((jobsWhere history p).card : Int) ≤ settings.rateLimitPerHour := by
  by_cases some : ∃ taken ∈ history, p taken.label
  · obtain ⟨first, called, met, least⟩ := exists_earliest some
    refine le_trans ?_ (card_answeredIn_le room run distinct (redisMs first.label.now))
    refine Int.ofNat_le.mpr (card_jobsWhere_mono ?_)
    intro taken called' met'
    obtain ⟨reached, admitted⟩ := answered _ met'
    have near := (shareWindow_answered (answered _ met).1 reached).mp
      (share first called taken called' met met')
    rw [abs_lt] at near
    exact ⟨reached, admitted, least taken called' met', by omega⟩
  · rw [jobsWhere_eq_empty (by simpa using some), Finset.card_empty]
    omega

/-- Answered calls of which no three are in windows apart. -/
theorem card_answered_two (room : 1 ≤ settings.rateLimitPerHour)
    (run : Run (limiterSystem settings recipient) history s) (distinct : (callers history).Nodup)
    (answered : ∀ call, p call → call.redis = .answered ∧ call.wait = none)
    (two : ∀ a ∈ history, ∀ b ∈ history, ∀ c ∈ history, p a.label → p b.label → p c.label →
      ShareWindow settings a.label.arrival b.label.arrival ∨
        ShareWindow settings a.label.arrival c.label.arrival ∨
        ShareWindow settings b.label.arrival c.label.arrival) :
    ((jobsWhere history p).card : Int) ≤ 2 * settings.rateLimitPerHour := by
  by_cases some : ∃ taken ∈ history, p taken.label
  · obtain ⟨first, called, met, least⟩ := exists_earliest some
    -- the calls near the earliest one, and the others, which share their window
    have near := card_answeredIn_le room run distinct (redisMs first.label.now)
    have far := card_answered_shared (p := fun call => p call ∧
        ¬ |redisMs first.label.now - redisMs call.now| < settings.windowMs) room run distinct
      (fun call met => answered call met.1) (by
        intro a calledA b calledB metA metB
        have apart : ∀ {c : LimiterCall}, p c →
            ¬ |redisMs first.label.now - redisMs c.now| < settings.windowMs →
              ¬ ShareWindow settings first.label.arrival c.arrival := fun met' apart shared =>
          apart ((shareWindow_answered (answered _ met).1 (answered _ met').1).mp shared)
        rcases two first called a calledA b calledB met metA.1 metB.1 with one | one | both
        · exact absurd one (apart metA.1 metA.2)
        · exact absurd one (apart metB.1 metB.2)
        · exact both)
    have split := card_jobsWhere_le history (p := p)
      (q := AnsweredIn settings.windowMs (redisMs first.label.now))
      (r := fun call => p call ∧
        ¬ |redisMs first.label.now - redisMs call.now| < settings.windowMs) (by
        intro taken called' met'
        by_cases close : |redisMs first.label.now - redisMs taken.label.now| < settings.windowMs
        · obtain ⟨reached, admitted⟩ := answered _ met'
          rw [abs_lt] at close
          exact .inl ⟨reached, admitted, least taken called' met', by omega⟩
        · exact .inr ⟨met', close⟩)
    omega
  · rw [jobsWhere_eq_empty (by simpa using some), Finset.card_empty]
    omega

/-- Calls of the fallback of which any two share a window. -/
theorem card_fellBack_shared (room : 1 ≤ settings.rateLimitPerHour)
    (positive : 0 < settings.rateLimitWindowSeconds)
    (run : Run (limiterSystem settings recipient) history s)
    (fellBack : ∀ call, p call → call.redis ≠ .answered ∧ call.wait = none)
    (share : ∀ a ∈ history, ∀ b ∈ history, p a.label → p b.label →
      ShareWindow settings a.label.arrival b.label.arrival) :
    ((jobsWhere history p).card : Int) ≤ settings.rateLimitPerHour := by
  by_cases some : ∃ taken ∈ history, p taken.label
  · obtain ⟨first, called, met⟩ := some
    refine le_trans ?_ (card_fellBackIn_le room positive run
      (index settings.rateLimitWindowSeconds first.label.now))
    refine Int.ofNat_le.mpr (card_jobsWhere_mono ?_)
    intro taken called' met'
    obtain ⟨failed, admitted⟩ := fellBack _ met'
    have same := (shareWindow_fellBack failed (fellBack _ met).1).mp
      (share taken called' first called met' met)
    exact ⟨failed, admitted, (index_eq_iff positive).mp same⟩
  · rw [jobsWhere_eq_empty (by simpa using some), Finset.card_empty]
    omega

theorem card_fellBack_any (room : 1 ≤ settings.rateLimitPerHour)
    (positive : 0 < settings.rateLimitWindowSeconds)
    (run : Run (limiterSystem settings recipient) history s) (begins : Time) :
    ((jobsWhere history fun call => call.redis ≠ .answered ∧
        AdmittedWithin begins settings.rateLimitWindowSeconds call).card : Int) ≤
      2 * settings.rateLimitPerHour := by
  generalize window : settings.rateLimitWindowSeconds = w at positive
  -- two aligned windows cover the period
  have first := card_fellBackIn_le room (window ▸ positive) run (index w begins)
  have second := card_fellBackIn_le room (window ▸ positive) run (index w begins + 1)
  rw [window] at first second
  have split := card_jobsWhere_le history
    (p := fun call => call.redis ≠ .answered ∧ AdmittedWithin begins w call)
    (q := FellBackIn w (index w begins)) (r := FellBackIn w (index w begins + 1)) (by
      rintro taken _ ⟨failed, admitted, after, before⟩
      cases index_of_within positive after before with
      | inl same => exact .inl ⟨failed, admitted, (index_eq_iff positive).mp same⟩
      | inr next => exact .inr ⟨failed, admitted, (index_eq_iff positive).mp next⟩)
  omega

end

/-! ## The bound -/

section

variable {settings : Settings} {recipient : String} {history : LimiterHistory} {s : LimiterState}

/-- Where of any three calls in a period two share a window, no period holds more than twice the
    limit. -/
theorem bound_of_twoShare {arrivals : Set Arrival} (shares : TwoShare settings arrivals)
    (room : 1 ≤ settings.rateLimitPerHour)
    (run : Run (limiterSystem settings recipient) history s) (distinct : (callers history).Nodup)
    (within : ∀ taken ∈ history, taken.label.arrival ∈ arrivals) (begins : Time) :
    ((jobsAdmitted history begins settings.rateLimitWindowSeconds).card : Int) ≤
      2 * settings.rateLimitPerHour := by
  have two : ∀ a ∈ history, ∀ b ∈ history, ∀ c ∈ history,
      AdmittedWithin begins settings.rateLimitWindowSeconds a.label →
      AdmittedWithin begins settings.rateLimitWindowSeconds b.label →
      AdmittedWithin begins settings.rateLimitWindowSeconds c.label →
        ShareWindow settings a.label.arrival b.label.arrival ∨
          ShareWindow settings a.label.arrival c.label.arrival ∨
          ShareWindow settings b.label.arrival c.label.arrival := by
    intro a calledA b calledB c calledC metA metB metC
    refine shares begins _ (within a calledA) _ (within b calledB) _ (within c calledC) ?_
    simp only [List.forall_mem_cons, LimiterCall.arrival]
    exact ⟨metA.2, metB.2, metC.2, by simp⟩
  by_cases positive : 0 < settings.rateLimitWindowSeconds
  · let answered : LimiterCall → Prop := fun call =>
      call.redis = .answered ∧ AdmittedWithin begins settings.rateLimitWindowSeconds call
    let fellBack : LimiterCall → Prop := fun call =>
      call.redis ≠ .answered ∧ AdmittedWithin begins settings.rateLimitWindowSeconds call
    have both := card_jobsWhere_le history
      (p := AdmittedWithin begins settings.rateLimitWindowSeconds) (q := answered) (r := fellBack)
      (fun taken _ admitted => (Decidable.em (taken.label.redis = .answered)).imp
        (fun reached => ⟨reached, admitted⟩) fun failed => ⟨failed, admitted⟩)
    have admits : (jobsAdmitted history begins settings.rateLimitWindowSeconds).card =
        (jobsWhere history (AdmittedWithin begins settings.rateLimitWindowSeconds)).card := rfl
    by_cases share : ∀ a ∈ history, ∀ b ∈ history, fellBack a.label → fellBack b.label →
        ShareWindow settings a.label.arrival b.label.arrival
    · have postgres := card_fellBack_shared (p := fellBack) room positive run
        (fun call met => ⟨met.1, met.2.1⟩) share
      by_cases some : ∃ taken ∈ history, fellBack taken.label
      · -- besides a call of the fallback, any two that Redis answered share a window
        obtain ⟨f, called, met⟩ := some
        have redis := card_answered_shared (p := answered) room run distinct
          (fun call met => ⟨met.1, met.2.1⟩) (by
            intro a calledA b calledB metA metB
            rcases two a calledA b calledB f called metA.2 metB.2 met.2 with one | one | one
            · exact one
            · exact absurd one (not_shareWindow metA.1 met.1)
            · exact absurd one (not_shareWindow metB.1 met.1))
        omega
      · have redis := card_answered_two (p := answered) room run distinct
          (fun call met => ⟨met.1, met.2.1⟩)
          (fun a calledA b calledB c calledC metA metB metC =>
            two a calledA b calledB c calledC metA.2 metB.2 metC.2)
        have none := jobsWhere_eq_empty (p := fellBack) (by simpa using some)
        rw [none, Finset.card_empty] at both
        omega
    · -- besides two windows of the fallback, Redis answers nothing
      push Not at share
      obtain ⟨a, calledA, b, calledB, metA, metB, apart⟩ := share
      have none : jobsWhere history answered = ∅ := by
        apply jobsWhere_eq_empty
        intro c calledC metC
        rcases two c calledC a calledA b calledB metC.2 metA.2 metB.2 with one | one | one
        · exact not_shareWindow metC.1 metA.1 one
        · exact not_shareWindow metC.1 metB.1 one
        · exact apart one
      have postgres := card_fellBack_any room positive run begins
      have same : jobsWhere history fellBack = jobsWhere history fun call =>
        call.redis ≠ .answered ∧ AdmittedWithin begins settings.rateLimitWindowSeconds call := rfl
      rw [none, Finset.card_empty, same] at both
      omega
  · -- the period is empty
    have none : jobsAdmitted history begins settings.rateLimitWindowSeconds = ∅ := by
      apply jobsWhere_eq_empty
      rintro taken _ ⟨_, after, before⟩
      linarith
    rw [none, Finset.card_empty]
    omega

end

/-! ## Calls in windows apart -/

section

variable {settings : Settings} {recipient : String} {history : LimiterHistory} {s : LimiterState}
  {x y : Arrival}

/-- How many admissions a call counts against the limit. -/
def LimiterState.used (settings : Settings) (recipient : String) (s : LimiterState) (x : Arrival) :
    Int :=
  if x.answered then (s.stores.key.held (redisMs x.now) settings.windowMs).card
  else
    match s.stores.buckets.lookup (recipient, windowStart x.now settings.rateLimitWindowSeconds) with
    | some bucket => bucket.count
    | none => 0

/-- With room, a call that Redis answers takes a slot, which a call does not see that is in a
    window apart. -/
theorem admits_answered (run : Run (limiterSystem settings recipient) history s)
    (distinct : (callers history).Nodup) (limit : 1 ≤ settings.rateLimitPerHour)
    (later : s.clock ≤ x.now) (answered : x.answered = true) {j : JobId} (new : j ∉ callers history)
    (room : s.used settings recipient x < settings.rateLimitPerHour) :
    ∃ s', (limiterSystem settings recipient).step s ⟨j, x.now, .answered, none⟩ s' ∧
      s'.used settings recipient x ≤ s.used settings recipient x + 1 ∧
      ∀ y : Arrival, x.now ≤ y.now → ¬ ShareWindow settings x y →
        s'.used settings recipient y ≤ s.used settings recipient y := by
  obtain ⟨rates, t, seen⟩ := redisRun limit run distinct
  simp only [LimiterState.used, answered, if_true] at room ⊢
  have free : (s.stores.key.held (redisMs x.now) settings.windowMs).score j = none := by
    by_contra held
    obtain ⟨time, held⟩ := Option.ne_none_iff_exists'.mp held
    exact new (seen.holders _ time (score_held held).1)
  cases returned : acquireScript settings.windowMs settings.rateLimitPerHour.toNat (redisMs x.now) j
    s.stores.key with
  | mk reply key =>
  obtain ⟨rfl, card, _⟩ := held_of_fresh free (by omega) returned
  refine ⟨⟨{ s.stores with key }, x.now⟩, ?_, ?_, ?_⟩
  · simp [limiterSystem, System.ofStep, limiterStep, RedisRateLimiter.acquire, callAcquire,
      returned, later]
  · exact_mod_cast card
  · intro y after apart
    cases ys : y.answered with
    | false => simp
    | true =>
      simp only [ShareWindow, answered, ys, abs_lt] at apart
      have order := redisMs_mono after
      have sound := (outlives_of_run seen.run).mono seen.clock
      rw [seen.key] at sound
      refine Int.ofNat_le.mpr (SortedSet.card_le ?_)
      intro i time held
      obtain ⟨stored, recent⟩ := score_held held
      -- the new slot has lapsed by then
      have old : (s.stores.key.held (redisMs x.now) settings.windowMs).score i = some time := by
        rcases acquireScript_cases returned with
          ⟨_, held, _, _⟩ | ⟨_, _, _, slots⟩ | ⟨_, _, denied, _⟩
        · rw [free] at held
          cases held
        · cases (slots i time).mp stored with
          | inl old => exact old
          | inr new => omega
        · exact absurd rfl denied
      have shown := score_at_of_live (sound.mono (redisMs_mono (later.trans after)))
        (score_held old).1 (by omega)
      exact SortedSet.score_removeUpTo.mpr ⟨shown, recent⟩

/-- With room, a call that does not reach Redis counts in the bucket of its window only. -/
theorem admits_fellBack (positive : 0 < settings.rateLimitWindowSeconds) (later : s.clock ≤ x.now)
    (failed : x.answered = false) (j : JobId)
    (room : s.used settings recipient x < settings.rateLimitPerHour) :
    ∃ s', (limiterSystem settings recipient).step s ⟨j, x.now, .failed false, none⟩ s' ∧
      s'.used settings recipient x ≤ s.used settings recipient x + 1 ∧
      ∀ y : Arrival, x.now ≤ y.now → ¬ ShareWindow settings x y →
        s'.used settings recipient y ≤ s.used settings recipient y := by
  simp only [LimiterState.used, failed, Bool.false_eq_true, if_false] at room ⊢
  cases returned : PostgresRateLimiter.acquire settings x.now recipient s.stores.buckets with
  | mk wait buckets =>
  have admitted : wait = none ∧ ∃ bucket : Bucket, (∀ key, buckets.lookup key =
      if (recipient, windowStart x.now settings.rateLimitWindowSeconds) = key then some bucket
      else s.stores.buckets.lookup key) ∧ bucket.count ≤
        (match s.stores.buckets.lookup
            (recipient, windowStart x.now settings.rateLimitWindowSeconds) with
          | some bucket => bucket.count
          | none => 0) + 1 := by
    rcases tryAcquireRateLimit_cases returned with
      ⟨found, waits, after⟩ | ⟨bucket, found, _, waits, after⟩ | ⟨bucket, found, full, _, _⟩
    · exact ⟨waits, _, after, by simp [found]⟩
    · exact ⟨waits, _, after, by simp [found, Bucket.increment]⟩
    · rw [found] at room
      exact absurd room (not_lt.mpr full)
  obtain ⟨rfl, bucket, after, count⟩ := admitted
  refine ⟨⟨{ s.stores with buckets }, x.now⟩, ?_, ?_, ?_⟩
  · simp [limiterSystem, System.ofStep, limiterStep, RedisRateLimiter.acquire, callAcquire,
      returned, later]
  · simpa [after] using count
  · intro y _ apart
    cases ys : y.answered with
    | true => simp
    | false =>
      simp only [ShareWindow, failed, ys] at apart
      have other : windowStart x.now settings.rateLimitWindowSeconds ≠
          windowStart y.now settings.rateLimitWindowSeconds := fun same =>
        apart (start_injective positive same)
      simp [after, other]

/-- A call that finds room, by a job that has not called before. -/
theorem admits_next (run : Run (limiterSystem settings recipient) history s)
    (distinct : (callers history).Nodup) (limit : 1 ≤ settings.rateLimitPerHour)
    (positive : 0 < settings.rateLimitWindowSeconds) (later : s.clock ≤ x.now)
    (room : s.used settings recipient x < settings.rateLimitPerHour) :
    ∃ call s', (limiterSystem settings recipient).step s call s' ∧ call.arrival = x ∧
      call.wait = none ∧ call.jobId ∉ callers history ∧
      s'.used settings recipient x ≤ s.used settings recipient x + 1 ∧
      ∀ y : Arrival, x.now ≤ y.now → ¬ ShareWindow settings x y →
        s'.used settings recipient y ≤ s.used settings recipient y := by
  obtain ⟨j, new⟩ := Infinite.exists_notMem_finset (callers history).toFinset
  rw [List.mem_toFinset] at new
  obtain ⟨now, answered⟩ := x
  cases answered with
  | true =>
    obtain ⟨s', step, counts⟩ := admits_answered run distinct limit later rfl new room
    exact ⟨_, s', step, by simp [LimiterCall.arrival], rfl, new, counts⟩
  | false =>
    obtain ⟨s', step, counts⟩ := admits_fellBack positive later rfl j room
    exact ⟨_, s', step, by simp [LimiterCall.arrival], rfl, new, counts⟩

/-- One arrival that is repeated until `n` more jobs are admitted. -/
theorem admits_many (limit : 1 ≤ settings.rateLimitPerHour) {begins : Time}
    (after : begins ≤ x.now) (before : x.now < begins + settings.rateLimitWindowSeconds) (n : Nat) :
    ∀ {history : LimiterHistory} {s : LimiterState},
      Run (limiterSystem settings recipient) history s → (callers history).Nodup →
      s.clock ≤ x.now → s.used settings recipient x + n ≤ settings.rateLimitPerHour →
      ∃ history' s', Run (limiterSystem settings recipient) history' s' ∧
        (callers history').Nodup ∧ s'.clock ≤ x.now ∧
        (∀ taken ∈ history', taken ∈ history ∨ taken.label.arrival = x) ∧
        (jobsAdmitted history begins settings.rateLimitWindowSeconds).card + n ≤
          (jobsAdmitted history' begins settings.rateLimitWindowSeconds).card ∧
        ∀ y : Arrival, x.now ≤ y.now → ¬ ShareWindow settings x y →
          s'.used settings recipient y ≤ s.used settings recipient y := by
  have positive : 0 < settings.rateLimitWindowSeconds := by linarith
  induction n with
  | zero =>
    intro history s run distinct later _
    exact ⟨history, s, run, distinct, later, fun _ => .inl, le_refl _, fun _ _ _ => le_refl _⟩
  | succ n inductionHypothesis =>
    intro history s run distinct later room
    rw [Nat.cast_succ] at room
    obtain ⟨call, s', step, arrives, admitted, new, uses, others⟩ :=
      admits_next run distinct limit positive later (by omega)
    have now : call.now = x.now := congrArg Arrival.now arrives
    have clock : s'.clock = call.now := (limiter_step step).2.1
    obtain ⟨history', t, run', distinct', later', calls, count, others'⟩ :=
      inductionHypothesis (.next run step) (List.nodup_cons.mpr ⟨new, distinct⟩)
        (clock.trans now).le (by omega)
    refine ⟨history', t, run', distinct', later', ?_, ?_, ?_⟩
    · intro taken member
      rcases calls taken member with old | arrival
      · cases old with
        | head => exact .inr arrives
        | tail _ old => exact .inl old
      · exact .inr arrival
    · -- the job is counted besides those before
      have more : insert call.jobId (jobsAdmitted history begins settings.rateLimitWindowSeconds) ⊆
          jobsAdmitted (⟨s, call, s'⟩ :: history) begins settings.rateLimitWindowSeconds := by
        intro j member
        cases Finset.mem_insert.mp member with
        | inl same =>
          subst same
          exact mem_jobsWhere.mpr ⟨_, List.mem_cons_self,
            ⟨admitted, now ▸ after, now ▸ before⟩, rfl⟩
        | inr old =>
          obtain ⟨taken, called, met, rfl⟩ := mem_jobsWhere.mp old
          exact mem_jobsWhere.mpr ⟨taken, List.mem_cons_of_mem _ called, met, rfl⟩
      have fresh : call.jobId ∉ jobsAdmitted history begins settings.rateLimitWindowSeconds := by
        intro member
        obtain ⟨taken, called, _, same⟩ := mem_jobsWhere.mp member
        exact new (same ▸ List.mem_map.mpr ⟨taken, called, rfl⟩)
      have grown := Finset.card_le_card more
      rw [Finset.card_insert_of_notMem fresh] at grown
      omega
    · intro y afterX apart
      exact (others' y afterX apart).trans (others y afterX apart)

theorem ShareWindow.symm {a b : Arrival} (shared : ShareWindow settings a b) :
    ShareWindow settings b a := by
  obtain ⟨_, _ | _⟩ := a <;> obtain ⟨_, _ | _⟩ := b
  · exact Eq.symm shared
  · exact shared
  · exact shared
  · simpa only [ShareWindow, abs_sub_comm] using shared

/-- Three calls in windows apart, each made by as many jobs as the limit allows. -/
theorem breaks_of_apart (limit : 1 ≤ settings.rateLimitPerHour) {begins : Time} {a b c : Arrival}
    (within : ∀ x ∈ [a, b, c], begins ≤ x.now ∧ x.now < begins + settings.rateLimitWindowSeconds)
    (ab : ¬ ShareWindow settings a b) (ac : ¬ ShareWindow settings a c)
    (bc : ¬ ShareWindow settings b c) (first : a.now ≤ b.now) (second : b.now ≤ c.now) :
    ∃ history s, Run (limiterSystem settings recipient) history s ∧ (callers history).Nodup ∧
      (∀ taken ∈ history, taken.label.arrival ∈ [a, b, c]) ∧
      2 * settings.rateLimitPerHour <
        (jobsAdmitted history begins settings.rateLimitWindowSeconds).card := by
  simp only [List.forall_mem_cons] at within
  obtain ⟨inA, inB, inC, _⟩ := within
  have unused : ∀ x, (⟨⟨.empty, .empty⟩, a.now⟩ : LimiterState).used settings recipient x = 0 := by
    intro x
    unfold LimiterState.used
    split <;> rfl
  have start : Run (limiterSystem settings recipient) [] ⟨⟨.empty, .empty⟩, a.now⟩ := .start rfl
  have most : (settings.rateLimitPerHour.toNat : Int) = settings.rateLimitPerHour := by omega
  obtain ⟨h₁, s₁, run₁, distinct₁, clock₁, calls₁, count₁, used₁⟩ :=
    admits_many limit inA.1 inA.2 settings.rateLimitPerHour.toNat start List.nodup_nil
      (le_refl _) (by rw [unused, most, zero_add])
  obtain ⟨h₂, s₂, run₂, distinct₂, clock₂, calls₂, count₂, used₂⟩ :=
    admits_many limit inB.1 inB.2 settings.rateLimitPerHour.toNat run₁ distinct₁
      (clock₁.trans first) (by have := used₁ b first ab; rw [unused] at this; omega)
  obtain ⟨h₃, s₃, run₃, distinct₃, _, calls₃, count₃, _⟩ :=
    admits_many limit inC.1 inC.2 settings.rateLimitPerHour.toNat run₂ distinct₂
      (clock₂.trans second) (by
        have before := used₁ c (first.trans second) ac
        have after := used₂ c second bc
        rw [unused] at before
        omega)
  refine ⟨h₃, s₃, run₃, distinct₃, ?_, by omega⟩
  intro taken member
  rcases calls₃ taken member with member | last
  · rcases calls₂ taken member with member | middle
    · rcases calls₁ taken member with none | early
      · cases none
      · simp [early]
    · simp [middle]
  · simp [last]

end

/-- For given times of calls and given outages: no period of a window's length ever holds more
    than twice the limit exactly when of any three calls in such a period two share a window. -/
theorem outage_bound_iff {settings : Settings} {recipient : String}
    (room : 1 ≤ settings.rateLimitPerHour) (arrivals : Set Arrival) :
    (∀ history s, Run (limiterSystem settings recipient) history s → (callers history).Nodup →
        (∀ taken ∈ history, taken.label.arrival ∈ arrivals) → ∀ begins,
          ((jobsAdmitted history begins settings.rateLimitWindowSeconds).card : Int) ≤
            2 * settings.rateLimitPerHour) ↔
      TwoShare settings arrivals := by
  constructor
  · intro bound begins a inA b inB c inC within
    by_contra apart
    simp only [not_or] at apart
    obtain ⟨ab, ac, bc⟩ := apart
    simp only [List.forall_mem_cons] at within
    obtain ⟨a', b', c', _⟩ := within
    have breaks : ∀ {x y z : Arrival}, x ∈ arrivals → y ∈ arrivals → z ∈ arrivals →
        (∀ w ∈ [x, y, z], begins ≤ w.now ∧ w.now < begins + settings.rateLimitWindowSeconds) →
        ¬ ShareWindow settings x y → ¬ ShareWindow settings x z → ¬ ShareWindow settings y z →
        x.now ≤ y.now → ¬ y.now ≤ z.now := by
      intro x y z inX inY inZ within xy xz yz first second
      obtain ⟨history, s, run, distinct, calls, breaks⟩ :=
        @breaks_of_apart settings recipient room begins x y z within xy xz yz first second
      refine absurd (bound history s run distinct ?_ begins) (not_le.mpr breaks)
      intro taken member
      have one := calls taken member
      simp only [List.mem_cons, List.not_mem_nil, or_false] at one
      rcases one with same | same | same <;> rw [same] <;> assumption
    -- the three calls in the order of their times
    have ba := fun shared => ab (ShareWindow.symm shared)
    have ca := fun shared => ac (ShareWindow.symm shared)
    have cb := fun shared => bc (ShareWindow.symm shared)
    rcases le_total a.now b.now with first | first <;>
      rcases le_total b.now c.now with second | second <;>
      rcases le_total a.now c.now with third | third
    · exact breaks inA inB inC (by simp [a', b', c']) ab ac bc first second
    · exact breaks inA inB inC (by simp [a', b', c']) ab ac bc first second
    · exact breaks inA inC inB (by simp [a', b', c']) ac ab cb third second
    · exact breaks inC inA inB (by simp [a', b', c']) ca cb ab third first
    · exact breaks inB inA inC (by simp [a', b', c']) ba bc ac first third
    · exact breaks inB inC inA (by simp [a', b', c']) bc ba ca second third
    · exact breaks inC inB inA (by simp [a', b', c']) cb ca ba second first
    · exact breaks inC inB inA (by simp [a', b', c']) cb ca ba second first
  · intro shares history s run distinct within begins
    exact bound_of_twoShare shares room run distinct within begins

/-! ## An outage around a boundary -/

def limiterRun (settings : Settings) (recipient : String) (calls : List LimiterCall) :
    LimiterHistory × LimiterState :=
  runOf (limiterStep settings recipient) ⟨⟨.empty, .empty⟩, 0⟩ calls

theorem run_limiterRun (settings : Settings) (recipient : String) (calls : List LimiterCall) :
    Run (limiterSystem settings recipient) (limiterRun settings recipient calls).1
      (limiterRun settings recipient calls).2 := by
  have initial : (limiterSystem settings recipient).init ⟨⟨.empty, .empty⟩, 0⟩ := rfl
  exact run_runOf (limiterStep settings recipient) initial calls

/-- One message in ten seconds. -/
def oneInTen : Settings :=
  { Settings.default with rateLimitPerHour := 1, rateLimitWindowSeconds := 10 }

/-- Redis answers only the second of three calls, and the third falls in the next aligned
    window. -/
def flickering : LimiterHistory × LimiterState :=
  limiterRun oneInTen "a@b.c" [⟨1, 9, .failed false, none⟩, ⟨2, 19 / 2, .answered, none⟩,
    ⟨3, 10, .failed false, none⟩]

theorem distinct_flickering : (callers flickering.1).Nodup := by decide +kernel

/-- The ten seconds from 9 on hold all three jobs. -/
theorem outage_flickering :
    Run (limiterSystem oneInTen "a@b.c") flickering.1 flickering.2 ∧
      (callers flickering.1).Nodup ∧
      ¬ ((jobsAdmitted flickering.1 9 oneInTen.rateLimitWindowSeconds).card : Int) ≤
        2 * oneInTen.rateLimitPerHour :=
  ⟨run_limiterRun oneInTen "a@b.c" _, distinct_flickering, by decide +kernel⟩

/-- Redis stops answering between two calls. -/
def oneOutage : LimiterHistory × LimiterState :=
  limiterRun oneInTen "a@b.c" [⟨1, 9, .answered, none⟩, ⟨2, 19 / 2, .failed false, none⟩]

theorem outage_bound_iff_oneOutage :
    (jobsAdmitted oneOutage.1 9 oneInTen.rateLimitWindowSeconds).card = 2 ∧
      ∀ begins, ((jobsAdmitted oneOutage.1 begins oneInTen.rateLimitWindowSeconds).card : Int) ≤
        2 * oneInTen.rateLimitPerHour := by
  have before : ShareWindow oneInTen ⟨9, true⟩ ⟨9, true⟩ := by
    show |redisMs 9 - redisMs 9| < oneInTen.windowMs
    decide +kernel
  have after : ShareWindow oneInTen ⟨19 / 2, false⟩ ⟨19 / 2, false⟩ := rfl
  -- of three calls, two come at one time
  have shares : TwoShare oneInTen {⟨9, true⟩, ⟨19 / 2, false⟩} := by
    rintro begins a (rfl | rfl) b (rfl | rfl) c (rfl | rfl) _ <;> simp [before, after]
  refine ⟨by decide +kernel, (@outage_bound_iff oneInTen "a@b.c" (by decide) _).mpr shares
    oneOutage.1 oneOutage.2 (run_limiterRun oneInTen "a@b.c" _) (by decide +kernel) ?_⟩
  have arrivals : ∀ taken ∈ oneOutage.1,
      taken.label.arrival = ⟨9, true⟩ ∨ taken.label.arrival = ⟨19 / 2, false⟩ := by
    decide +kernel
  exact arrivals

end NotifyQueue
