import NotifyQueue.Verified.ClaimFencing
import NotifyQueue.Verified.DueTimes
import NotifyQueue.Verified.TornReads

/-! # The attempts of a job, one after another

The history of a job is a sequence of intervals from the claim of an attempt to its end.  That
they do not overlap needs no common clock: a claim waits for `run_at`, the reaper waits for the
end of the lease, and who reports on the claim that runs has seen the row that the claim wrote.
The fence lets each claim end once, so the attempts are numbered one by one; a report of an
earlier claim may come at any time. -/

namespace NotifyQueue

open Runs Tables

/-- The caller has seen the row as it is: it presents the row's own token, or it requeues the dead
    letter. -/
def JobOp.answers (op : JobOp) (row : Job) : Bool :=
  match op with
  | .requeueDeadLetter jobId _ => row.id = jobId && row.status = .deadLettered
  | op => op.presents.any fun (jobId, claimToken) => fenced jobId claimToken row

/-- The delay or the lease that the operation adds to its `now()`. -/
def JobOp.span : JobOp → Time
  | .claimDueJobs _ _ leaseSeconds _ _ => leaseSeconds
  | .markFailed _ _ _ _ retryDelay _ _ _ => retryDelay
  | .returnToQueue _ _ delaySeconds => delaySeconds
  | _ => 0

/-- A transaction starts after the update that it answers.  Claims, the reaper and reports that are
    fenced out answer nothing: their clock may be anywhere. -/
structure Causal (taken : Taken Db Call) : Prop where
  seen : ∀ row ∈ taken.before.jobs.rows, taken.label.op.answers row = true →
    row.updatedAt ≤ taken.label.now
  span : 0 ≤ taken.label.op.span

instance (taken : Taken Db Call) : Decidable (Causal taken) :=
  decidable_of_iff
    ((∀ row ∈ taken.before.jobs.rows, taken.label.op.answers row = true →
      row.updatedAt ≤ taken.label.now) ∧ 0 ≤ taken.label.op.span)
    ⟨fun both => ⟨both.1, both.2⟩, fun causal => ⟨causal.seen, causal.span⟩⟩

/-- The attempt was over when the next one started. -/
structure JobAttempt.Precedes (a b : JobAttempt) : Prop where
  numbered : a.attemptNo < b.attemptNo
  past : ∀ started, b.startedAt = some started → a.finishedAt ≤ started

/-- The attempts that `SELECT ... ORDER BY attempt_no` finds for a job. -/
structure Timeline (row : Job) (attempts : List JobAttempt) : Prop where
  numbers : attempts.map JobAttempt.attemptNo =
    (List.range row.lastClosed.toNat).map fun n : Nat => (n : Int) + 1
  inside : ∀ attempt ∈ attempts, ∃ started, attempt.startedAt = some started ∧
    started ≤ attempt.finishedAt ∧ attempt.finishedAt ≤ row.updatedAt
  disjoint : attempts.Pairwise JobAttempt.Precedes
  running : row.status = .processing → ∃ started, row.claimedAt = some started ∧
    ∀ attempt ∈ attempts, attempt.finishedAt ≤ started
  waiting : row.status = .pending → ∀ attempt ∈ attempts, attempt.finishedAt ≤ row.runAt

/-! ## One step -/

/-- The claim of a processing row: when it started, and what was over by then. -/
structure ClaimedSince (attempts : List JobAttempt) (row : Job) (started : Time) : Prop where
  claimedAt : row.claimedAt = some started
  updated : started ≤ row.updatedAt
  leased : ∀ expiresAt ∈ row.leaseExpiresAt, started ≤ expiresAt
  past : ∀ attempt ∈ attempts, attempt.finishedAt ≤ started

structure Timed (s : Slice) (row : Job) : Prop where
  inside : ∀ attempt ∈ s.attempts, ∃ started, attempt.startedAt = some started ∧
    started ≤ attempt.finishedAt ∧ attempt.finishedAt ≤ row.updatedAt
  disjoint : s.attempts.Pairwise JobAttempt.Precedes
  running : row.status = .processing → ∃ started, ClaimedSince s.attempts row started
  waiting : row.status = .pending → ∀ attempt ∈ s.attempts, attempt.finishedAt ≤ row.runAt

/-- An update that records no attempt and takes the row out of its claim. -/
theorem Timed.reschedule {s : Slice} {row row' : Job} {now : Time} (timed : Timed s row)
    (seen : row.updatedAt ≤ now) (pending : row'.status = .pending) (updated : row'.updatedAt = now)
    (later : now ≤ row'.runAt) {s' : Slice} (same : s'.attempts = s.attempts) : Timed s' row' := by
  have past : ∀ attempt ∈ s.attempts, attempt.finishedAt ≤ now := by
    intro attempt member
    obtain ⟨_, _, _, before⟩ := timed.inside attempt member
    exact before.trans seen
  constructor
  case inside =>
    rw [same]
    intro attempt member
    obtain ⟨started, begun, positive, _⟩ := timed.inside attempt member
    exact ⟨started, begun, positive, updated ▸ past attempt member⟩
  case disjoint => exact same ▸ timed.disjoint
  case running =>
    intro processing
    simp [pending] at processing
  case waiting =>
    rw [same]
    intro _ attempt member
    exact (past attempt member).trans later

/-- The end of an attempt, by the worker or by the reaper. -/
theorem Timed.finish {s s' : Slice} {row row' : Job} {now : Time} {attempt : JobAttempt}
    (timed : Timed s row) (coherent : RowCoherent s row) (processing : row.status = .processing)
    (reached : ∀ started, ClaimedSince s.attempts row started → started ≤ now)
    (recorded : s'.attempts = s.attempts ++ [attempt]) (named : attempt.attemptNo = row.attempts)
    (began : attempt.startedAt = row.claimedAt) (ended : attempt.finishedAt = now)
    (idle : row'.status ≠ .processing) (updated : row'.updatedAt = now)
    (later : row'.status = .pending → now ≤ row'.runAt) : Timed s' row' := by
  obtain ⟨started, since⟩ := timed.running processing
  have positive := reached started since
  have past : ∀ other ∈ s'.attempts, other.finishedAt ≤ now := by
    intro other member
    rw [recorded, List.mem_append, List.mem_singleton] at member
    cases member with
    | inl old => exact (since.past other old).trans positive
    | inr new => rw [new, ended]
  constructor
  case inside =>
    intro other member
    have before : other.finishedAt ≤ row'.updatedAt := updated ▸ past other member
    rw [recorded, List.mem_append, List.mem_singleton] at member
    cases member with
    | inl old =>
      obtain ⟨start, begun, order, _⟩ := timed.inside other old
      exact ⟨start, begun, order, before⟩
    | inr new =>
      subst new
      exact ⟨started, began.trans since.claimedAt, ended ▸ positive, before⟩
  case disjoint =>
    rw [recorded, List.pairwise_append]
    refine ⟨timed.disjoint, List.pairwise_singleton _ _, ?_⟩
    intro other old new member
    rw [List.mem_singleton] at member
    subst member
    constructor
    · -- the attempts that are over have smaller numbers than the one that runs
      have closed := (coherent.numbered other.attemptNo).mp ⟨other, old, rfl⟩
      simp only [Job.lastClosed, processing, if_true] at closed
      omega
    · intro start begun
      have same : started = start := Option.some.inj
        (since.claimedAt.symm.trans (began.symm.trans begun))
      exact same ▸ since.past other old
  case running => exact fun claimed => absurd claimed idle
  case waiting => exact fun pending other member => (past other member).trans (later pending)

theorem OpStep.timed {now : Time} {j : JobId} {s s' : Slice} {op : JobOp} {event : Option JobEvent}
    (coherent : Coherent s) (timed : ∀ row, s.row = some row → Timed s row)
    (named : ∀ row, s.row = some row → row.id = j)
    (seen : ∀ row, s.row = some row → op.answers row = true → row.updatedAt ≤ now)
    (span : 0 ≤ op.span) (step : OpStep now j s op event s') :
    ∀ row', s'.row = some row' → Timed s' row' := by
  intro row' present'
  cases step with
  | idle => exact timed row' present'
  | created absent _ =>
    obtain rfl := coherent.absent absent
    cases present'
    constructor <;> simp [NewJob.row]
  | @claimed row _ _ leaseSeconds _ _ _ _ present due =>
    cases present'
    have pending := isDue_iff.mp due
    have old := timed row present
    have past : ∀ attempt ∈ s.attempts, attempt.finishedAt ≤ now := fun attempt member =>
      (old.waiting pending.1 attempt member).trans pending.2
    constructor
    case inside =>
      intro attempt member
      obtain ⟨started, begun, positive, _⟩ := old.inside attempt member
      exact ⟨started, begun, positive, past attempt member⟩
    case disjoint => exact old.disjoint
    case running =>
      intro _
      refine ⟨now, rfl, le_rfl, ?_, past⟩
      intro expiresAt expires
      cases expires
      exact le_add_of_nonneg_right span
    case waiting => simp [claimedRow]
  | @sent row _ _ _ _ _ present owned _ _ =>
    cases present'
    have processing := (fenced_iff.mp owned).2.2
    apply (timed row present).finish (coherent.present row present) processing
      (fun _ since => since.updated.trans (seen row present owned)) rfl rfl rfl rfl
    · simp [sentRow]
    · rfl
    · simp [sentRow]
  | @failed row _ _ error retryDelay permanent _ _ present owned _ _ =>
    cases present'
    have processing := (fenced_iff.mp owned).2.2
    apply (timed row present).finish (coherent.present row present) processing
      (fun _ since => since.updated.trans (seen row present owned)) rfl rfl rfl rfl
    · exact failedRow_status_ne
    · rfl
    · intro pending
      have alive : ¬ (permanent || row.attempts ≥ row.maxAttempts) = true := by
        intro dead
        simp only [failedRow, dead, if_true] at pending
        contradiction
      simp only [failedRow, alive]
      exact le_add_of_nonneg_right span
  | @reaped row _ _ _ _ _ _ present processing expired _ _ =>
    cases present'
    apply (timed row present).finish (coherent.present row present) processing ?_ rfl rfl rfl rfl
    · exact reapedRow_status_ne
    · rfl
    · exact fun _ => le_rfl
    · -- the lease that the claim wrote has expired
      intro started since
      cases lease : row.leaseExpiresAt with
      | none => simp [leaseExpired, lease] at expired
      | some expiresAt =>
        simp only [leaseExpired, lease, decide_eq_true_eq] at expired
        exact (since.leased expiresAt lease).trans expired.le
  | @returned row _ delaySeconds present owned =>
    cases present'
    exact (timed row present).reschedule (seen row present owned) rfl rfl
      (le_add_of_nonneg_right span) rfl
  | @requeued row _ present dead _ =>
    cases present'
    have answers : row.id = j ∧ row.status = .deadLettered := ⟨named row present, dead⟩
    exact (timed row present).reschedule (seen row present (by simpa [JobOp.answers] using answers))
      rfl rfl le_rfl rfl

/-! ## Every run -/

/-- The step lemma for whole tables. -/
theorem timed_of_run {history : JobHistory} {db : Db} (run : Run jobSystem history db)
    (causal : Along (fun _ taken => Causal taken) history) (j : JobId) :
    ∀ row, (db.slice j).row = some row → Timed (db.slice j) row := by
  induction run with
  | start initial =>
    cases initial
    simp
  | @next history db db' call earlier committed inductionHypothesis =>
    apply (commit_op committed j).timed (coherent_slice earlier j) (inductionHypothesis causal.2)
    · exact fun row found => Table.pk_of_lookup found
    · exact fun row found answers => causal.1.seen row (Table.mem_of_lookup found) answers
    · exact causal.1.span

theorem numbers_of_counted {s : Slice} {row : Job} (counted : Counted s row)
    (ordered : s.attempts.Pairwise JobAttempt.Precedes) :
    s.attempts.map JobAttempt.attemptNo =
      (List.range row.lastClosed.toNat).map fun n : Nat => (n : Int) + 1 := by
  have rising : (s.attempts.map JobAttempt.attemptNo).Pairwise (· < ·) :=
    List.pairwise_map.mpr (ordered.imp fun precedes => precedes.numbered)
  have counting :
      ((List.range row.lastClosed.toNat).map fun n : Nat => (n : Int) + 1).Pairwise (· < ·) := by
    rw [List.pairwise_map]
    exact List.pairwise_lt_range.imp fun less => by omega
  refine rising.eq_of_mem_iff counting ?_
  intro number
  rw [List.mem_map, counted.numbered number]
  simp only [List.mem_map, List.mem_range]
  constructor
  · rintro ⟨first, last⟩
    exact ⟨(number - 1).toNat, by omega, by omega⟩
  · rintro ⟨n, inRange, rfl⟩
    omega

/-- The history of a job is a sequence of closed intervals: the attempts are numbered one by one,
    each is over before the next one starts, and all of them before the claim that runs now.
    No clock is compared with another, except that an answer comes after what it answers. -/
theorem attempts_timeline {history : JobHistory} {db : Db} (run : Run jobSystem history db)
    (causal : Along (fun _ taken => Causal taken) history) {j : JobId} {row : Job}
    (found : getJob db j = some row) : Timeline row (getJobAttempts db j) := by
  have timed := timed_of_run run causal j row found
  have counted := ((coherent_slice run j).present row found).toCounted
  have sorted : (db.slice j).attempts.Pairwise fun a b => a.attemptNo ≤ b.attemptNo :=
    timed.disjoint.imp fun precedes => precedes.numbered.le
  have read : getJobAttempts db j = (db.slice j).attempts := sorted.insertionSort_eq
  rw [read]
  constructor
  · exact numbers_of_counted counted timed.disjoint
  · exact timed.inside
  · exact timed.disjoint
  · intro processing
    obtain ⟨started, since⟩ := timed.running processing
    exact ⟨started, since.claimedAt, since.past⟩
  · exact timed.waiting

/-- A failure, a deferral and an expired lease; a late report of the first claim is fenced out. -/
def deferredJob : List (JobOp × Time) :=
  [(.createJob 1 (sampleJob 3), 0),
    (.claimDueJobs "worker-1" 5 10 (fun _ => 70) .alone, 1),
    (.markFailed 1 70 "worker-1" "provider down" 4 false "" 900, 2),
    (.claimDueJobs "worker-1" 5 10 (fun _ => 71) .alone, 6),
    (.returnToQueue 1 71 3, 7),
    (.claimDueJobs "worker-2" 5 10 (fun _ => 72) .alone, 10),
    (.markSent 1 70 "worker-1" none "" 901, 3),
    (.reapExpiredLeases 5 "" (fun _ => 902) .alone, 21)]

/-- Then the claim that runs. -/
def fourthClaim : JobHistory × Db :=
  jobRun (deferredJob ++ [(.claimDueJobs "worker-3" 5 10 (fun _ => 73) .alone, 25)])

theorem attempts_timeline_running :
    ∃ row, getJob fourthClaim.2 1 = some row ∧ row.status = .processing ∧
      (getJobAttempts fourthClaim.2 1).length = 2 ∧
      Timeline row (getJobAttempts fourthClaim.2 1) := by
  have facts : ∃ row, getJob fourthClaim.2 1 = some row ∧ row.status = .processing ∧
      (getJobAttempts fourthClaim.2 1).length = 2 := by decide +kernel
  obtain ⟨row, found, processing, two⟩ := facts
  exact ⟨row, found, processing, two, attempts_timeline (run_jobRun _) (by decide +kernel) found⟩

end NotifyQueue
