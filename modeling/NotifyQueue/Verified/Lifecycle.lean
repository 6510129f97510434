import NotifyQueue.Verified.Conflicts

/-! # The lifecycle of a job in every run

The two main results about the tables: the attempt ledger with its retry cap, and the
agreement of a job's status with its claim columns and with the satellite tables. -/

namespace NotifyQueue

open Runs Tables

/-! ## Rows of a job -/

section

variable {db : Db} {j : JobId}

theorem mem_attempts_iff {attempt : JobAttempt} :
    attempt ∈ (db.slice j).attempts ↔ attempt ∈ db.jobAttempts.rows ∧ attempt.jobId = j := by
  simp [Db.slice, Table.select]

theorem delivery_isSome_iff :
    (db.slice j).delivery.isSome = true ↔ ∃ delivery ∈ db.deliveries.rows, delivery.jobId = j := by
  simp only [Db.slice, Option.isSome_iff_exists, Table.lookup_eq_some]

theorem deadLetter_eq_some_iff {letter : DeadLetter} :
    (db.slice j).deadLetter = some letter ↔ letter ∈ db.deadLetters.rows ∧ letter.jobId = j :=
  Table.lookup_eq_some

theorem deadLetter_isSome_iff :
    (db.slice j).deadLetter.isSome = true ↔ ∃ letter ∈ db.deadLetters.rows, letter.jobId = j := by
  simp only [Option.isSome_iff_exists, deadLetter_eq_some_iff]

end

/-! ## The attempt ledger -/

/-- The last attempt of a sent job is the one that sent it. -/
theorem Counted.sent_iff {s : Slice} {row : Job} (counted : Counted s row) :
    (∃ attempt ∈ s.attempts, attempt.outcome = .sent) ↔ row.status = .sent := by
  constructor
  · intro sent
    obtain ⟨attempt, member, outcome⟩ := sent
    exact ((counted.sentAttempt attempt member).mp outcome).1
  · intro sent
    have count := counted.started (by simp [sent])
    -- a sent job has closed its last attempt, which is thus recorded
    have last := (counted.numbered row.attempts).mpr ⟨count, by simp [Job.lastClosed, sent]⟩
    obtain ⟨attempt, member, named⟩ := last
    exact ⟨attempt, member, (counted.sentAttempt attempt member).mpr ⟨sent, named⟩⟩

/-- Attempts are numbered without gaps, stay within the cap, and no insert of an attempt ever
    conflicts. -/
theorem attempt_ledger {history : JobHistory} {db : Db} (run : Run jobSystem history db)
    (grants : ∀ taken ∈ history, taken.label.op.grantsAttempt = true) :
    (∀ j row, getJob db j = some row →
      (∀ n, (∃ attempt ∈ db.jobAttempts.rows, attempt.jobId = j ∧ attempt.attemptNo = n) ↔
        1 ≤ n ∧ n ≤ if row.status = .processing then row.attempts - 1 else row.attempts) ∧
      0 ≤ row.attempts ∧ row.attempts ≤ row.maxAttempts ∧
      (row.status = .pending → row.attempts < row.maxAttempts) ∧
      ((∃ attempt ∈ db.jobAttempts.rows, attempt.jobId = j ∧ attempt.outcome = .sent) ↔
        row.status = .sent) ∧
      (∀ attempt ∈ db.jobAttempts.rows, attempt.jobId = j → attempt.outcome = .sent →
        attempt.attemptNo = row.attempts) ∧
      ∀ letter ∈ db.deadLetters.rows, letter.jobId = j → letter.reason = maxAttemptsReason →
        letter.attempts = row.maxAttempts) ∧
    ∀ op now violation, (JobOp.commit op now db).1 ≠ .raised (.conflict .jobAttempts violation) := by
  constructor
  · intro j row found
    have present : (db.slice j).row = some row := found
    have coherent := (coherent_slice run j).present row present
    have capped := capped_slice run grants j row present
    refine ⟨?_, coherent.nonneg, capped.atMost, capped.roomLeft, ?_, ?_, ?_⟩
    · intro n
      have numbered := coherent.numbered n
      simpa only [mem_attempts_iff, and_assoc, Job.lastClosed] using numbered
    · have sent := coherent.toCounted.sent_iff
      simpa only [mem_attempts_iff, and_assoc] using sent
    · intro attempt member named sent
      exact ((coherent.sentAttempt attempt (mem_attempts_iff.mpr ⟨member, named⟩)).mp sent).2
    · intro letter member named reason
      -- the letter was written when the attempts ran out, and the row has not moved since
      obtain ⟨attempts, _, exhausted⟩ :=
        coherent.buried letter (deadLetter_eq_some_iff.mpr ⟨member, named⟩)
      have atMost := capped.atMost
      have atLeast := exhausted reason
      omega
  · intro op now violation conflict
    have satellite := commit_error (coherent_slice run) (Prod.ext conflict rfl)
    cases satellite

/-- A permanent failure, a requeue with two more tries, and an expired lease. -/
def requeuedJob : List (JobOp × Time) :=
  [(.createJob 1 (sampleJob 3), 0),
    (.claimDueJobs "worker-1" 5 10 (fun _ => 70) .alone, 1),
    (.markFailed 1 70 "worker-1" "bad address" 0 true "" 900, 2),
    (.requeueDeadLetter 1 1, 3),
    (.claimDueJobs "worker-2" 5 10 (fun _ => 71) .alone, 4),
    (.reapExpiredLeases 5 "" (fun _ => 901) .alone, 15)]

theorem attempt_ledger_requeued :
    (jobRun requeuedJob).2.deadLetters.rows.length = 1 ∧
      ∀ letter ∈ (jobRun requeuedJob).2.deadLetters.rows, letter.jobId = 1 →
        letter.reason = maxAttemptsReason → letter.attempts = 2 := by
  refine ⟨by decide +kernel, ?_⟩
  obtain ⟨row, found, cap⟩ : ∃ row, getJob (jobRun requeuedJob).2 1 = some row ∧
      row.maxAttempts = 2 := by
    decide +kernel
  have ledger := (attempt_ledger (run_jobRun requeuedJob) (by decide +kernel)).1 1 row found
  rw [← cap]
  exact ledger.2.2.2.2.2.2

/-! ## Status and satellite tables -/

/-- The edges of the documented lifecycle, under the operation that takes them. -/
def JobOp.edges : JobOp → List (JobStatus × JobStatus)
  | .createJob _ _ => []
  | .claimDueJobs _ _ _ _ _ => [(.pending, .processing)]
  | .markSent _ _ _ _ _ _ => [(.processing, .sent)]
  | .markFailed _ _ _ _ _ _ _ _ => [(.processing, .pending), (.processing, .deadLettered)]
  | .returnToQueue _ _ _ => [(.processing, .pending)]
  | .reapExpiredLeases _ _ _ _ => [(.processing, .pending), (.processing, .deadLettered)]
  | .requeueDeadLetter _ _ => [(.deadLettered, .pending)]

/-- A job that changes its status goes along an edge of its operation. -/
theorem SliceStep.edge {op : JobOp} {now : Time} {j : JobId} {s s' : Slice} {event : JobEvent}
    (step : SliceStep now j s (some event) s') (caused : op.causes event = true) {row : Job}
    (present : s.row = some row) :
    ∃ row', s'.row = some row' ∧ (row.status, row'.status) ∈ op.edges := by
  cases step with
  | created absent _ =>
    rw [absent] at present
    cases present
  | @claimed old _ _ _ found due =>
    obtain rfl : old = row := Option.some.inj (found.symm.trans present)
    have pending : old.status = .pending := (isDue_iff.mp due).1
    refine ⟨_, rfl, ?_⟩
    cases op <;> simp [JobOp.causes] at caused
    simp [JobOp.edges, pending, claimedRow]
  | @sent old _ _ _ _ _ found owned _ _ =>
    obtain rfl : old = row := Option.some.inj (found.symm.trans present)
    refine ⟨_, rfl, ?_⟩
    cases op <;> simp [JobOp.causes] at caused
    simp [JobOp.edges, (fenced_iff.mp owned).2.2, sentRow]
  | @failed old _ _ error retryDelay permanent _ _ found owned _ _ =>
    obtain rfl : old = row := Option.some.inj (found.symm.trans present)
    refine ⟨_, rfl, ?_⟩
    cases op <;> simp [JobOp.causes] at caused
    simpa [JobOp.edges, (fenced_iff.mp owned).2.2] using failedRow_status error retryDelay permanent
  | @reaped old _ _ found processing _ _ _ =>
    obtain rfl : old = row := Option.some.inj (found.symm.trans present)
    refine ⟨_, rfl, ?_⟩
    cases op <;> simp [JobOp.causes] at caused
    simpa [JobOp.edges, processing] using reapedRow_status
  | @returned old _ _ found owned =>
    obtain rfl : old = row := Option.some.inj (found.symm.trans present)
    refine ⟨_, rfl, ?_⟩
    cases op <;> simp [JobOp.causes] at caused
    simp [JobOp.edges, (fenced_iff.mp owned).2.2, returnedRow]
  | @requeued old _ found dead _ =>
    obtain rfl : old = row := Option.some.inj (found.symm.trans present)
    refine ⟨_, rfl, ?_⟩
    cases op <;> simp [JobOp.causes] at caused
    simp [JobOp.edges, dead, requeuedRow]

/-- No edge leads out of `sent`. -/
theorem not_sent_of_edge {op : JobOp} {before after : JobStatus} (edge : (before, after) ∈ op.edges) :
    before ≠ .sent := by
  rintro rfl
  cases op <;> simp [JobOp.edges] at edge

/-- The status of a job says which columns and which satellite rows it has, statuses change
    along the documented edges only, and no operation touches a sent job. -/
theorem status_agrees {history : JobHistory} {db : Db} (run : Run jobSystem history db) :
    (∀ j row, getJob db j = some row →
      ((row.claimToken.isSome = true ↔ row.status = .processing) ∧
        (row.lockedBy.isSome = true ↔ row.status = .processing) ∧
        (row.leaseExpiresAt.isSome = true ↔ row.status = .processing)) ∧
      ((∃ delivery ∈ db.deliveries.rows, delivery.jobId = j) ↔ row.status = .sent) ∧
      (row.sentAt.isSome = true ↔ row.status = .sent) ∧
      ((∃ letter ∈ db.deadLetters.rows, letter.jobId = j) ↔ row.status = .deadLettered) ∧
      (∀ letter ∈ db.deadLetters.rows, letter.jobId = j →
        letter.attempts = row.attempts ∧ letter.lastError = row.lastError) ∧
      (row.status = .sent → row.lastError = none)) ∧
    ∀ op now answer db', JobOp.commit op now db = (answer, db') →
      (∀ j row, getJob db j = some row →
        (∃ row', getJob db' j = some row' ∧
          (row'.status = row.status ∨ (row.status, row'.status) ∈ op.edges)) ∧
        (row.status = .sent → db'.slice j = db.slice j)) ∧
      ∀ violation, answer ≠ .raised (.conflict .deliveries violation) ∧
        answer ≠ .raised (.conflict .deadLetters violation) := by
  constructor
  · intro j row found
    have coherent := (coherent_slice run j).present row found
    refine ⟨⟨coherent.claimToken, coherent.lockedBy, coherent.leaseExpiresAt⟩, ?_, coherent.sentAt, ?_,
      ?_, coherent.sentClean⟩
    · rw [← delivery_isSome_iff]
      exact coherent.delivery
    · rw [← deadLetter_isSome_iff]
      exact coherent.deadLetter
    · intro letter member named
      have buried := coherent.buried letter (deadLetter_eq_some_iff.mpr ⟨member, named⟩)
      exact ⟨buried.1, buried.2.1⟩
  · intro op now answer db' committed
    constructor
    · intro j row found
      have present : (db.slice j).row = some row := found
      have step := commit_slice committed j
      -- a call that says nothing of the job leaves it alone
      cases happened : Call.eventFor ⟨op, now, answer⟩ j with
      | none =>
        rw [happened] at step
        have same := step.idle_eq
        refine ⟨⟨row, ?_, .inl rfl⟩, fun _ => same⟩
        show (db'.slice j).row = some row
        rw [same]
        exact present
      | some event =>
        have caused := causes_of_eventFor happened
        rw [happened] at step
        obtain ⟨row', present', edge⟩ := step.edge caused present
        exact ⟨⟨row', present', .inr edge⟩, fun sent => absurd sent (not_sent_of_edge edge)⟩
    · intro violation
      constructor
      · rintro rfl
        cases commit_error (coherent_slice run) committed
      · rintro rfl
        cases commit_error (coherent_slice run) committed

/-- The second dead letter of a requeued job replaces the first. -/
theorem status_agrees_requeued :
    (jobRun requeuedJob).2.deadLetters.rows.length = 1 ∧
      ∀ letter ∈ (jobRun requeuedJob).2.deadLetters.rows, letter.jobId = 1 →
        letter.lastError = some leaseExpiredError := by
  refine ⟨by decide +kernel, ?_⟩
  obtain ⟨row, found, error⟩ : ∃ row, getJob (jobRun requeuedJob).2 1 = some row ∧
      row.lastError = some leaseExpiredError := by
    decide +kernel
  intro letter member named
  rw [← error]
  exact (((status_agrees (run_jobRun requeuedJob)).1 1 row found).2.2.2.2.1 letter member named).2

end NotifyQueue
