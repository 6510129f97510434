import NotifyQueue.Lib.AlignedWindows
import NotifyQueue.Lib.Runs
import NotifyQueue.Repositories.RateLimitBuckets
import NotifyQueue.Verified.Conflicts

/-! # How many calls an aligned window admits

The transactions on `rate_limit_buckets` are a transition system whose clock never goes back.
A bucket counts the calls that its window admitted, and it outlives its window (`Tallied`).
The first call of a window inserts its bucket without looking at the limit, so the limit is
kept exactly when it leaves room for that call (`fixedWindow_iff`). -/

namespace NotifyQueue

open AlignedWindows Runs Tables

inductive BucketOp where
  | acquire (recipient : String)
  | deleteOld
deriving DecidableEq, Repr

inductive BucketReply where
  | acquired (wait : Option Time)
  | deleted (rowcount : Nat)
deriving DecidableEq, Repr

/-- A finished transaction. -/
structure BucketCall where
  op : BucketOp
  now : Time
  reply : BucketReply
deriving DecidableEq, Repr

def BucketOp.run (limit : Int) (window now : Time) (buckets : Buckets) :
    BucketOp → BucketReply × Buckets
  | .acquire recipient =>
    let (wait, buckets) := tryAcquireRateLimit now recipient limit window buckets
    (.acquired wait, buckets)
  | .deleteOld =>
    let (rowcount, buckets) := deleteOldRateLimitBuckets now window buckets
    (.deleted rowcount, buckets)

structure BucketState where
  buckets : Buckets
  clock : Time

def bucketStep (limit : Int) (window : Time) (s : BucketState) (call : BucketCall) :
    Option BucketState :=
  let (reply, buckets) := call.op.run limit window call.now s.buckets
  if s.clock ≤ call.now ∧ reply = call.reply then some ⟨buckets, call.now⟩ else none

def bucketSystem (limit : Int) (window : Time) : System BucketState BucketCall :=
  .ofStep (fun s => s.buckets = .empty) (bucketStep limit window)

abbrev BucketHistory := History BucketState BucketCall

/-- A call for the recipient that was admitted in the `k`-th window. -/
def AdmittedIn (window : Time) (recipient : String) (k : Int) (call : BucketCall) : Prop :=
  call.op = .acquire recipient ∧ call.reply = .acquired none ∧
    start window k ≤ call.now ∧ call.now < start window (k + 1)

instance {window : Time} {recipient : String} {k : Int} {call : BucketCall} :
    Decidable (AdmittedIn window recipient k call) := by
  unfold AdmittedIn
  infer_instance

/-- How many calls for the recipient the `k`-th window admitted. -/
def admissions (window : Time) (recipient : String) (k : Int) (history : BucketHistory) : Nat :=
  history.countP fun taken => AdmittedIn window recipient k taken.label

/-- What the limiter promises of a run. -/
structure FixedWindow (limit : Int) (window : Time) (history : BucketHistory) : Prop where
  atMost : ∀ recipient k, (admissions window recipient k history : Int) ≤ limit
  keepsCurrent : ∀ taken ∈ history, taken.label.op = .deleteOld → ∀ recipient,
    taken.after.buckets.lookup (recipient, windowStart taken.label.now window) =
      taken.before.buckets.lookup (recipient, windowStart taken.label.now window)
  waits : ∀ taken ∈ history, ∀ wait, taken.label.reply = .acquired (some wait) →
    0 < wait ∧ wait ≤ window ∧
      index window (taken.label.now + wait) = index window taken.label.now + 1

/-! ## The statements -/

section

variable {now window : Time} {recipient : String} {limit : Int} {buckets buckets' : Buckets}

theorem windowStart_eq : windowStart now window = start window (index window now) := rfl

/-- What an `acquire` does: insert the bucket of the window, count the call in it, or turn
    the call away. -/
theorem tryAcquireRateLimit_cases {wait : Option Time}
    (returned : tryAcquireRateLimit now recipient limit window buckets = (wait, buckets')) :
    (buckets.lookup (recipient, windowStart now window) = none ∧ wait = none ∧
        ∀ key, buckets'.lookup key =
          if (recipient, windowStart now window) = key then
            some ⟨recipient, windowStart now window, 1⟩
          else buckets.lookup key) ∨
      (∃ bucket, buckets.lookup (recipient, windowStart now window) = some bucket ∧
        bucket.count < limit ∧ wait = none ∧
        ∀ key, buckets'.lookup key =
          if (recipient, windowStart now window) = key then some bucket.increment
          else buckets.lookup key) ∨
      (∃ bucket, buckets.lookup (recipient, windowStart now window) = some bucket ∧
        limit ≤ bucket.count ∧ wait = some (start window (index window now + 1) - now) ∧
        buckets' = buckets) := by
  simp only [tryAcquireRateLimit] at returned
  split at returned
  · next inserted =>
    obtain ⟨rfl, rfl⟩ := Prod.mk.inj returned
    exact .inl ⟨Table.fresh_of_insert inserted, rfl, Table.lookup_insert inserted⟩
  · next conflict =>
    -- the insert conflicts because the window has a bucket
    have present : ∃ bucket, buckets.lookup (recipient, windowStart now window) = some bucket := by
      cases found : buckets.lookup (recipient, windowStart now window) with
      | none => exact absurd conflict (insert_ne_error found)
      | some bucket => exact ⟨bucket, rfl⟩
    obtain ⟨bucket, found⟩ := present
    have key : bucket.key = (recipient, windowStart now window) := Table.pk_of_lookup found
    split at returned
    · next matched =>
      obtain ⟨rfl, rfl⟩ := Prod.mk.inj returned
      obtain ⟨old, member, meets, _⟩ := Table.mem_of_returning_head matched
      simp only [Bool.and_eq_true, decide_eq_true_eq] at meets
      have same : buckets.lookup (recipient, windowStart now window) = some old :=
        Table.lookup_eq_some.mpr ⟨member, meets.1⟩
      obtain rfl : bucket = old := Option.some.inj (found.symm.trans same)
      refine .inr (.inl ⟨bucket, found, meets.2, rfl, ?_⟩)
      intro other
      rw [Table.lookup_update]
      by_cases this : (recipient, windowStart now window) = other
      · simp [← this, found, key, meets.2]
      · rw [if_neg this]
        cases at' : buckets.lookup other with
        | none => rfl
        | some row =>
          have rowKey := Table.pk_of_lookup at'
          simp [rowKey, Ne.symm this]
    · next unmatched =>
      obtain ⟨rfl, rfl⟩ := Prod.mk.inj returned
      refine .inr (.inr ⟨bucket, found, ?_, ?_, rfl⟩)
      -- a bucket below the limit would have matched
      · rw [List.head?_eq_none_iff] at unmatched
        by_contra room
        have member : bucket.increment ∈ buckets.returning
            (fun b => b.key = (recipient, windowStart now window) && b.count < limit)
            Bucket.increment :=
          Table.mem_returning.mpr ⟨bucket, Table.mem_of_lookup found,
            by simp [key, not_le.mp room], rfl⟩
        rw [unmatched] at member
        cases member
      · simp [start, index]

/-- The deletion only takes buckets whose window is over. -/
theorem lookup_deleteOld (now : Time) (buckets : Buckets) (r : String) (k : Int)
    (positive : 0 < window) :
    (deleteOldRateLimitBuckets now window buckets).2.lookup (r, start window k) =
        buckets.lookup (r, start window k) ∨
      start window (k + 1) < now := by
  simp only [deleteOldRateLimitBuckets, Table.lookup_delete]
  cases found : buckets.lookup (r, start window k) with
  | none => simp
  | some bucket =>
    have began : bucket.windowStart = start window k := congrArg Prod.snd (Table.pk_of_lookup found)
    by_cases old : bucket.windowStart < now - window * 2
    · right
      rw [began] at old
      rw [start_succ]
      linarith
    · left
      exact Option.filter_some_pos (by simpa using old)

end

/-! ## What a bucket counts -/

/-- A bucket counts the calls that its window admitted; only a window that is over may have
    lost its bucket. -/
structure Tallied (window : Time) (history : BucketHistory) (s : BucketState) : Prop where
  held : ∀ r k bucket, s.buckets.lookup (r, start window k) = some bucket →
    bucket.count = admissions window r k history ∧ 1 ≤ bucket.count
  lost : ∀ r k, s.buckets.lookup (r, start window k) = none →
    admissions window r k history = 0 ∨ start window (k + 1) ≤ s.clock

section

variable {limit : Int} {window : Time} {history : BucketHistory} {s s' : BucketState}
  {call : BucketCall} {r : String} {k : Int}

theorem bucket_step (step : (bucketSystem limit window).step s call s') :
    s.clock ≤ call.now ∧ s'.clock = call.now ∧
      call.op.run limit window call.now s.buckets = (call.reply, s'.buckets) := by
  simp only [bucketSystem, System.ofStep, bucketStep] at step
  split at step
  · next enabled =>
    cases step
    exact ⟨enabled.1, rfl, Prod.ext enabled.2 rfl⟩
  · contradiction

/-- What a finished transaction was. -/
theorem bucket_step_cases (step : (bucketSystem limit window).step s call s') :
    (∃ recipient wait, call.op = .acquire recipient ∧ call.reply = .acquired wait ∧
        tryAcquireRateLimit call.now recipient limit window s.buckets = (wait, s'.buckets)) ∨
      (call.op = .deleteOld ∧ (∀ wait, call.reply ≠ .acquired wait) ∧
        s'.buckets = (deleteOldRateLimitBuckets call.now window s.buckets).2) := by
  obtain ⟨_, _, ran⟩ := bucket_step step
  cases op : call.op with
  | acquire recipient =>
    rw [op] at ran
    obtain ⟨replied, buckets⟩ := Prod.mk.inj ran
    exact .inl ⟨recipient, _, rfl, replied.symm, Prod.ext rfl buckets⟩
  | deleteOld =>
    rw [op] at ran
    obtain ⟨replied, buckets⟩ := Prod.mk.inj ran
    refine .inr ⟨rfl, ?_, buckets.symm⟩
    intro wait acquired
    rw [acquired] at replied
    cases replied

theorem admissions_cons_of_not (not : ¬ AdmittedIn window r k call) :
    admissions window r k (⟨s, call, s'⟩ :: history) = admissions window r k history := by
  simp [admissions, not]

theorem admissions_cons (admitted : AdmittedIn window r k call) :
    admissions window r k (⟨s, call, s'⟩ :: history) = admissions window r k history + 1 := by
  simp [admissions, admitted]

/-- The window in which a call was admitted. -/
theorem admittedIn_iff {recipient : String} (positive : 0 < window)
    (acquires : call.op = .acquire recipient) (admitted : call.reply = .acquired none) :
    AdmittedIn window r k call ↔ (recipient, windowStart call.now window) = (r, start window k) := by
  rw [windowStart_eq, Prod.mk.injEq]
  unfold AdmittedIn
  rw [acquires, admitted, ← index_eq_iff positive]
  simp only [BucketOp.acquire.injEq, true_and]
  constructor
  · intro within
    exact ⟨within.1, by rw [within.2]⟩
  · intro same
    exact ⟨same.1, start_injective positive same.2⟩

/-- A window that has not begun to be over when the clock reads `call.now`. -/
theorem current_not_over (positive : 0 < window) (later : s.clock ≤ call.now)
    (current : windowStart call.now window = start window k) :
    ¬ start window (k + 1) ≤ s.clock := by
  intro ended
  have same : index window call.now = k := start_injective positive current
  have ends := lt_start_succ_index (t := call.now) positive
  rw [same] at ends
  linarith

/-- An admitted call is counted in the bucket of its window, and in no other. -/
theorem Tallied.admitted (tallied : Tallied window history s) (positive : 0 < window)
    {recipient : String} {bucket : Bucket} (acquires : call.op = .acquire recipient)
    (admitted : call.reply = .acquired none) (later : s.clock ≤ call.now)
    (clock : s'.clock = call.now)
    (count : bucket.count =
      admissions window recipient (index window call.now) history + 1)
    (after : ∀ key, s'.buckets.lookup key =
      if (recipient, windowStart call.now window) = key then some bucket else s.buckets.lookup key) :
    Tallied window (⟨s, call, s'⟩ :: history) s' := by
  constructor
  · intro r k row found
    rw [after] at found
    split at found
    · next same =>
      obtain rfl := Option.some.inj found
      rw [admissions_cons ((admittedIn_iff positive acquires admitted).mpr same)]
      obtain ⟨rfl, began⟩ := Prod.mk.inj same
      -- the bucket of this call: one admission more
      have now : index window call.now = k := start_injective positive began
      rw [now] at count
      push_cast
      omega
    · next other =>
      rw [admissions_cons_of_not (mt (admittedIn_iff positive acquires admitted).mp other)]
      exact tallied.held r k row found
  · intro r k absent
    rw [after] at absent
    split at absent
    · cases absent
    · next other =>
      rw [admissions_cons_of_not (mt (admittedIn_iff positive acquires admitted).mp other)]
      cases tallied.lost r k absent with
      | inl none => exact .inl none
      | inr ended => exact .inr (ended.trans (later.trans clock.ge))

theorem Tallied.step (tallied : Tallied window history s) (positive : 0 < window)
    (step : (bucketSystem limit window).step s call s') :
    Tallied window (⟨s, call, s'⟩ :: history) s' := by
  obtain ⟨later, clock, _⟩ := bucket_step step
  have stays : ∀ k, start window (k + 1) ≤ s.clock → start window (k + 1) ≤ s'.clock :=
    fun k ended => ended.trans (later.trans clock.ge)
  rcases bucket_step_cases step with ⟨recipient, wait, op, reply, returned⟩ | ⟨op, reply, deleted⟩
  · rcases tryAcquireRateLimit_cases returned with
      ⟨absent, rfl, after⟩ | ⟨bucket, found, _, rfl, after⟩ | ⟨bucket, _, _, rfl, same⟩
    · -- the window has no bucket, so it has admitted nothing: it is not over
      apply tallied.admitted positive op reply later clock _ after
      rw [windowStart_eq] at absent
      cases tallied.lost _ _ absent with
      | inl none => simp [none]
      | inr ended => exact absurd ended (current_not_over positive later rfl)
    · apply tallied.admitted positive op reply later clock _ after
      rw [windowStart_eq] at found
      have count := (tallied.held _ _ _ found).1
      simp only [Bucket.increment]
      omega
    · have refused : ∀ r k, ¬ AdmittedIn window r k call := by
        intro r k admitted
        have none := admitted.2.1
        rw [reply] at none
        cases none
      constructor
      · intro r k row found
        rw [admissions_cons_of_not (refused r k)]
        exact tallied.held r k row (same ▸ found)
      · intro r k absent
        rw [admissions_cons_of_not (refused r k)]
        exact (tallied.lost r k (same ▸ absent)).imp_right (stays k)
  · have refused : ∀ r k, ¬ AdmittedIn window r k call := fun r k admitted =>
      reply none admitted.2.1
    constructor
    · intro r k row found
      rw [admissions_cons_of_not (refused r k)]
      rw [deleted, deleteOldRateLimitBuckets, Table.lookup_delete] at found
      exact tallied.held r k row (Option.filter_eq_some_iff.mp found).1
    · intro r k absent
      rw [admissions_cons_of_not (refused r k)]
      rw [deleted] at absent
      -- the sweep takes only buckets whose window is over
      cases lookup_deleteOld call.now s.buckets r k positive with
      | inl same => exact (tallied.lost r k (same ▸ absent)).imp_right (stays k)
      | inr ended => exact .inr (ended.le.trans clock.ge)

theorem tallied_of_run (positive : 0 < window) (run : Run (bucketSystem limit window) history s) :
    Tallied window history s := by
  induction run with
  | start initial =>
    have empty : _ = Table.empty := initial
    constructor
    · intro r k bucket found
      rw [empty] at found
      cases found
    · intro r k _
      exact .inl rfl
  | next _ step inductionHypothesis => exact inductionHypothesis.step positive step

/-! ## The promises -/

/-- With room for one call a window, no window admits more calls than the limit. -/
theorem admissions_le (positive : 0 < window) (room : 1 ≤ limit)
    (run : Run (bucketSystem limit window) history s) (r : String) (k : Int) :
    (admissions window r k history : Int) ≤ limit := by
  induction run with
  | start _ =>
    simp only [admissions, List.countP_nil]
    omega
  | @next history s s' call run step inductionHypothesis =>
    by_cases admitted : AdmittedIn window r k call
    · have tallied := (tallied_of_run positive run).step positive step
      rcases bucket_step_cases step with ⟨recipient, wait, op, reply, returned⟩ | ⟨_, reply, _⟩
      · obtain rfl : wait = none := BucketReply.acquired.inj (reply.symm.trans admitted.2.1)
        have same := (admittedIn_iff positive op reply).mp admitted
        -- the count of the bucket is the number of admissions
        rcases tryAcquireRateLimit_cases returned with
          ⟨_, _, after⟩ | ⟨bucket, _, below, _, after⟩ | ⟨_, _, _, refused, _⟩
        · have present := after (r, start window k)
          rw [if_pos same] at present
          have count := (tallied.held r k _ present).1
          simp only at count
          omega
        · have present := after (r, start window k)
          rw [if_pos same] at present
          have count := (tallied.held r k _ present).1
          simp only [Bucket.increment] at count
          omega
        · cases refused
      · exact absurd admitted.2.1 (reply none)
    · rw [admissions_cons_of_not admitted]
      exact inductionHypothesis

/-- The first call of a window is admitted whatever the limit is. -/
theorem admissions_pos (positive : 0 < window) (run : Run (bucketSystem limit window) history s)
    {taken : Taken BucketState BucketCall} (member : taken ∈ history)
    (acquires : taken.label.op = .acquire r) :
    1 ≤ admissions window r (index window taken.label.now) history := by
  induction run with
  | start _ => cases member
  | @next history s s' call run step inductionHypothesis =>
    have grows : admissions window r (index window taken.label.now) history ≤
        admissions window r (index window taken.label.now) (⟨s, call, s'⟩ :: history) :=
      (List.sublist_cons_self _ _).countP_le
    cases member with
    | tail _ member => exact (inductionHypothesis member).trans grows
    | head =>
      have tallied := (tallied_of_run positive run).step positive step
      rcases bucket_step_cases step with ⟨recipient, wait, op, reply, returned⟩ | ⟨op, _, _⟩
      · obtain rfl := BucketOp.acquire.inj (op.symm.trans acquires)
        have present : ∃ bucket, s'.buckets.lookup (recipient, windowStart call.now window) =
            some bucket := by
          rcases tryAcquireRateLimit_cases returned with
            ⟨_, _, after⟩ | ⟨_, _, _, _, after⟩ | ⟨bucket, found, _, _, same⟩
          · exact ⟨_, (after _).trans (if_pos rfl)⟩
          · exact ⟨_, (after _).trans (if_pos rfl)⟩
          · exact ⟨bucket, same ▸ found⟩
        obtain ⟨bucket, found⟩ := present
        rw [windowStart_eq] at found
        have count := tallied.held _ _ _ found
        show 1 ≤ admissions window recipient (index window call.now) _
        omega
      · rw [op] at acquires
        cases acquires

/-- A deletion keeps the bucket of the current window. -/
theorem keepsCurrent_step (positive : 0 < window) (step : (bucketSystem limit window).step s call s')
    (deletes : call.op = .deleteOld) :
    s'.buckets.lookup (r, windowStart call.now window) =
      s.buckets.lookup (r, windowStart call.now window) := by
  rcases bucket_step_cases step with ⟨_, _, op, _⟩ | ⟨_, _, deleted⟩
  · rw [op] at deletes
    cases deletes
  · rw [deleted, windowStart_eq]
    cases lookup_deleteOld call.now s.buckets r (index window call.now) positive with
    | inl same => exact same
    | inr ended =>
      have ends := lt_start_succ_index (t := call.now) positive
      exact absurd ended (not_lt.mpr ends.le)

/-- A call that is turned away is told to wait until the next window begins. -/
theorem waits_step (positive : 0 < window) (step : (bucketSystem limit window).step s call s')
    {wait : Time} (refused : call.reply = .acquired (some wait)) :
    0 < wait ∧ wait ≤ window ∧ index window (call.now + wait) = index window call.now + 1 := by
  rcases bucket_step_cases step with ⟨recipient, wait', _, reply, returned⟩ | ⟨_, reply, _⟩
  · obtain rfl := BucketReply.acquired.inj (reply.symm.trans refused)
    rcases tryAcquireRateLimit_cases returned with
      ⟨_, none, _⟩ | ⟨_, _, _, none, _⟩ | ⟨_, _, _, told, _⟩
    · cases none
    · cases none
    · obtain rfl := Option.some.inj told
      have ends := lt_start_succ_index (t := call.now) positive
      have began := start_index_le (t := call.now) positive
      refine ⟨by linarith, ?_, ?_⟩
      · rw [start_succ]
        linarith
      · rw [add_sub_cancel, index_start positive]
  · exact absurd refused (reply _)

end

/-- In a run, the limiter keeps its promises exactly when the limit leaves room for the call
    that opens a window. -/
theorem fixedWindow_iff {limit : Int} {window : Time} (positive : 0 < window)
    {history : BucketHistory} {s : BucketState}
    (run : Run (bucketSystem limit window) history s) :
    FixedWindow limit window history ↔
      1 ≤ limit ∨ limit = 0 ∧ ∀ taken ∈ history, taken.label.op = .deleteOld := by
  constructor
  · intro promises
    by_cases room : 1 ≤ limit
    · exact .inl room
    · refine .inr ⟨?_, ?_⟩
      · have bound := promises.atMost "" 0
        omega
      · intro taken member
        cases op : taken.label.op with
        | deleteOld => rfl
        | acquire r =>
          -- the first call of a window is always admitted, whatever the limit
          have opened := admissions_pos positive run member op
          have bound := promises.atMost r (index window taken.label.now)
          omega
  · intro room
    refine ⟨?_, ?_, ?_⟩
    · intro r k
      cases room with
      | inl room => exact admissions_le positive room run r k
      | inr none =>
        obtain ⟨rfl, none⟩ := none
        have nothing : admissions window r k history = 0 := by
          rw [admissions, List.countP_eq_zero]
          intro taken member admitted
          have acquires := (of_decide_eq_true admitted).1
          rw [none taken member] at acquires
          cases acquires
        omega
    · intro taken member deletes r
      exact keepsCurrent_step positive (run.of_mem member).2 deletes
    · intro taken member wait refused
      exact waits_step positive (run.of_mem member).2 refused

/-! ## A limit that leaves no room -/

def bucketRun (limit : Int) (window : Time) (calls : List BucketCall) :
    BucketHistory × BucketState :=
  runOf (bucketStep limit window) ⟨.empty, 0⟩ calls

theorem run_bucketRun (limit : Int) (window : Time) (calls : List BucketCall) :
    Run (bucketSystem limit window) (bucketRun limit window calls).1
      (bucketRun limit window calls).2 := by
  have initial : (bucketSystem limit window).init ⟨.empty, 0⟩ := rfl
  exact run_runOf (bucketStep limit window) initial calls

/-- With a limit of 0 an hour, the first call of the hour is admitted. -/
def unlimitedCall : BucketHistory × BucketState :=
  bucketRun 0 3600 [⟨.acquire "a@b.c", 10, .acquired none⟩]

theorem fixedWindow_unlimitedCall :
    Run (bucketSystem 0 3600) unlimitedCall.1 unlimitedCall.2 ∧
      ¬ FixedWindow 0 3600 unlimitedCall.1 := by
  refine ⟨run_bucketRun 0 3600 _, ?_⟩
  intro promises
  have bound := promises.atMost "a@b.c" 0
  have admitted : admissions 3600 "a@b.c" 0 unlimitedCall.1 = 1 := by decide +kernel
  omega

/-- With a limit of 1 an hour, the second call is told to wait, and the bucket of the first hour
    is deleted in the fourth. -/
def oneAnHour : BucketHistory × BucketState :=
  bucketRun 1 3600 [⟨.acquire "a@b.c", 10, .acquired none⟩,
    ⟨.acquire "a@b.c", 20, .acquired (some 3580)⟩, ⟨.deleteOld, 7300, .deleted 1⟩,
    ⟨.acquire "a@b.c", 7300, .acquired none⟩]

theorem fixedWindow_iff_oneAnHour :
    oneAnHour.1.length = 4 ∧ FixedWindow 1 3600 oneAnHour.1 :=
  ⟨by decide +kernel,
    (fixedWindow_iff (by norm_num) (run_bucketRun 1 3600 _)).mpr (.inl (le_refl 1))⟩

end NotifyQueue
