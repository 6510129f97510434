import NotifyQueue.Services.JobReads
import NotifyQueue.Verified.Coherence

/-! # A job and its history, read by two statements

Between the two `SELECT`s of `JobService.get` any calls can commit.  The attempts of a job only
grow, by one for each attempt that ends (`attempts_grow`), so the history that the second
`SELECT` finds fits the job of the first exactly when no attempt ended in between. -/

namespace NotifyQueue

open Runs Tables

/-! ## The attempts of a job -/

/-- The event ends an attempt. -/
def JobEvent.isEnd : JobEvent → Bool
  | .ended _ _ => true
  | _ => false

/-- The call ends an attempt of the job: `mark_sent`, `mark_failed` or the reaper. -/
def Call.endsAttempt (call : Call) (j : JobId) : Bool := (call.eventFor j).any JobEvent.isEnd

theorem SliceStep.attempts {now : Time} {j : JobId} {s s' : Slice} {event : Option JobEvent}
    (step : SliceStep now j s event s') :
    ∃ added, s'.attempts = s.attempts ++ added ∧ (added = [] ↔ event.any JobEvent.isEnd = false) := by
  cases step with
  | sent _ _ _ _ _ _ _ _ _ => exact ⟨_, rfl, by simp [JobEvent.isEnd]⟩
  | failed _ _ _ _ _ _ _ _ _ _ _ => exact ⟨_, rfl, by simp [JobEvent.isEnd]⟩
  | reaped _ _ _ _ _ _ _ => exact ⟨_, rfl, by simp [JobEvent.isEnd]⟩
  | _ => exact ⟨[], by simp, by simp [JobEvent.isEnd]⟩

/-- The attempts of a job grow by what ends, and by nothing else. -/
theorem attempts_grow {first second : Db} {later : JobHistory}
    (run : Run (jobSystem.startingAt first) later second) (j : JobId) :
    ∃ added, (second.slice j).attempts = (first.slice j).attempts ++ added ∧
      (added = [] ↔ ∀ taken ∈ later, taken.label.endsAttempt j = false) := by
  induction run with
  | start initial =>
    cases initial
    exact ⟨[], by simp, by simp⟩
  | @next later db db' call _ committed inductionHypothesis =>
    obtain ⟨added, grown, none⟩ := inductionHypothesis
    obtain ⟨more, grown', none'⟩ := (commit_slice committed j).attempts
    refine ⟨added ++ more, by rw [grown', grown, List.append_assoc], ?_⟩
    rw [List.append_eq_nil_iff, none, none']
    simp [Call.endsAttempt, and_comm]

/-- The primary key `(job_id, attempt_no)`. -/
theorem attemptNos_nodup (db : Db) (j : JobId) :
    ((db.slice j).attempts.map JobAttempt.attemptNo).Nodup := by
  have keys : ((db.slice j).attempts.map JobAttempt.key).Nodup :=
    db.jobAttempts.pk_nodup.sublist (List.filter_sublist.map JobAttempt.key)
  refine List.Nodup.map_on ?_ keys.of_map
  intro a member b member' same
  have ofJob : a.jobId = j := by simpa using (List.mem_filter.mp member).2
  have ofJob' : b.jobId = j := by simpa using (List.mem_filter.mp member').2
  exact List.inj_on_of_nodup_map keys member member' (Prod.ext (ofJob.trans ofJob'.symm) same)

theorem mem_getJobAttempts {db : Db} {j : JobId} {attempt : JobAttempt} :
    attempt ∈ getJobAttempts db j ↔ attempt ∈ (db.slice j).attempts :=
  List.mem_insertionSort _

/-! ## The read -/

/-- The number of the last attempt that the history of a returned job should have. -/
def JobOut.lastClosed (job : JobOut) : Int :=
  if job.status = .processing then job.attempts - 1 else job.attempts

/-- The job and the history describe one of the states that were committed during the read: the
    history has the attempts that are over, and one that sent if the job is sent. -/
structure OneState (first : Db) (later : JobHistory) (jobId : JobId) (job : JobOut)
    (history : List JobAttemptOut) : Prop where
  committed : ∃ db, (db = first ∨ ∃ taken ∈ later, taken.after = db) ∧
    (getJob db jobId).map .fromDomain = some job ∧
    (getJobAttempts db jobId).map .fromDomain = history
  numbered : ∀ n, (∃ attempt ∈ history, attempt.attemptNo = n) ↔ 1 ≤ n ∧ n ≤ job.lastClosed
  sentIff : (∃ attempt ∈ history, attempt.outcome = .sent) ↔ job.status = .sent

section

variable {jobId : JobId} {cached put : Option JobOut} {first second : Db} {job : JobOut}
  {history : List JobAttemptOut}

theorem get_returned
    (returned : JobService.get jobId true cached first second = (some ⟨job, some history⟩, put)) :
    ∃ row, getJob first jobId = some row ∧ job = .fromDomain row ∧
      history = (getJobAttempts second jobId).map .fromDomain := by
  simp only [JobService.get, if_true] at returned
  cases found : getJob first jobId with
  | none =>
    rw [found] at returned
    cases returned
  | some row =>
    rw [found] at returned
    cases returned
    exact ⟨row, rfl, rfl, rfl⟩

theorem numbers_of_history {db : Db} {n : Int} :
    (∃ attempt ∈ (getJobAttempts db jobId).map JobAttemptOut.fromDomain, attempt.attemptNo = n) ↔
      ∃ attempt ∈ (db.slice jobId).attempts, attempt.attemptNo = n := by
  constructor
  · rintro ⟨_, member, named⟩
    obtain ⟨attempt, inHistory, rfl⟩ := List.mem_map.mp member
    exact ⟨attempt, mem_getJobAttempts.mp inHistory, named⟩
  · rintro ⟨attempt, member, named⟩
    exact ⟨.fromDomain attempt, List.mem_map_of_mem (mem_getJobAttempts.mpr member), named⟩

/-- A job and its history, read from one state. -/
theorem oneState_of_snapshot {later : JobHistory} {row : Job} (coherent : Coherent (first.slice jobId))
    (found : getJob first jobId = some row) :
    OneState first later jobId (.fromDomain row)
      ((getJobAttempts first jobId).map .fromDomain) := by
  have counted := (coherent.present row found).toCounted
  constructor
  case committed => exact ⟨first, .inl rfl, by rw [found, Option.map_some], rfl⟩
  case numbered =>
    intro n
    rw [numbers_of_history]
    exact counted.numbered n
  case sentIff =>
    constructor
    · rintro ⟨_, member, sent⟩
      obtain ⟨attempt, inHistory, rfl⟩ := List.mem_map.mp member
      exact ((counted.sentAttempt attempt (mem_getJobAttempts.mp inHistory)).mp sent).1
    · intro sent
      have sent : row.status = .sent := sent
      have started := counted.started (by simp [sent])
      -- the last attempt of a sent job is the one that sent it
      obtain ⟨attempt, member, named⟩ := (counted.numbered row.attempts).mpr
        ⟨started, by simp [Job.lastClosed, sent]⟩
      exact ⟨.fromDomain attempt, List.mem_map_of_mem (mem_getJobAttempts.mpr member),
        (counted.sentAttempt attempt member).mpr ⟨sent, named⟩⟩

/-- The two statements describe one committed state exactly when no attempt of the job ended
    between them: claims, deferrals and requeues do no harm. -/
theorem read_one_state_iff {earlier later : JobHistory} (run : Run jobSystem earlier first)
    (meanwhile : Run (jobSystem.startingAt first) later second)
    (returned : JobService.get jobId true cached first second = (some ⟨job, some history⟩, put)) :
    OneState first later jobId job history ↔
      ∀ taken ∈ later, taken.label.endsAttempt jobId = false := by
  obtain ⟨row, found, rfl, rfl⟩ := get_returned returned
  have coherent := coherent_slice run jobId
  obtain ⟨added, grown, nothing⟩ := attempts_grow meanwhile jobId
  rw [← nothing]
  constructor
  · intro oneState
    rw [List.eq_nil_iff_forall_not_mem]
    intro attempt inAdded
    have inSecond : attempt ∈ (second.slice jobId).attempts := by
      rw [grown]
      exact List.mem_append_right _ inAdded
    have closed := (oneState.numbered attempt.attemptNo).mp
      (numbers_of_history.mpr ⟨attempt, inSecond, rfl⟩)
    -- an attempt of the first state has its number already
    obtain ⟨other, inFirst, same⟩ :=
      ((coherent.present row found).numbered attempt.attemptNo).mpr closed
    have nodup := attemptNos_nodup second jobId
    rw [grown, List.map_append, List.nodup_append] at nodup
    exact nodup.2.2 _ (List.mem_map_of_mem inFirst) _ (List.mem_map_of_mem inAdded) same
  · intro empty
    have same : getJobAttempts second jobId = getJobAttempts first jobId := by
      rw [empty, List.append_nil] at grown
      exact congrArg (List.insertionSort fun a b => a.attemptNo ≤ b.attemptNo) grown
    rw [same]
    exact oneState_of_snapshot coherent found

end

/-- A job is claimed again while its first, failed attempt is read. -/
def retriedJob : JobHistory × Db := jobRun
  [(.createJob 1 (sampleJob 3), 0), (.claimDueJobs "worker-1" 5 10 (fun _ => 70) .alone, 1),
    (.markFailed 1 70 "worker-1" "DeliveryError: provider down" 4 false "" 900, 2)]

def claimedMeanwhile : JobHistory × Db :=
  makeCalls ([], retriedJob.2) [(.claimDueJobs "worker-2" 5 10 (fun _ => 71) .alone, 7)]

theorem read_one_state_claimed :
    ∃ job history, (JobService.get 1 true none retriedJob.2 claimedMeanwhile.2).1 =
        some ⟨job, some history⟩ ∧ OneState retriedJob.2 claimedMeanwhile.1 1 job history := by
  have nothing : Run (jobSystem.startingAt retriedJob.2) [] retriedJob.2 := .start rfl
  cases read : JobService.get 1 true none retriedJob.2 claimedMeanwhile.2 with
  | mk result put =>
    have present : (JobService.get 1 true none retriedJob.2 claimedMeanwhile.2).1.bind
        JobRead.attemptHistory ≠ none := by decide +kernel
    rw [read] at present
    obtain _ | ⟨job, _ | history⟩ := result
    · exact absurd rfl present
    · exact absurd rfl present
    · exact ⟨job, history, rfl, (read_one_state_iff (run_jobRun _) (run_makeCalls nothing _) read).mpr
        (by decide +kernel)⟩

/-- A job is sent while it is read. -/
def claimedJob : JobHistory × Db := jobRun
  [(.createJob 1 (sampleJob 3), 0), (.claimDueJobs "worker-1" 5 10 (fun _ => 70) .alone, 1)]

def sentMeanwhile : JobHistory × Db :=
  makeCalls ([], claimedJob.2) [(.markSent 1 70 "worker-1" none "" 900, 2)]

/-- The job is still processing its first attempt, and the history says that attempt sent it. -/
theorem read_torn_by_sent :
    ∃ job history, (JobService.get 1 true none claimedJob.2 sentMeanwhile.2).1 =
        some ⟨job, some history⟩ ∧ Run jobSystem claimedJob.1 claimedJob.2 ∧
      Run (jobSystem.startingAt claimedJob.2) sentMeanwhile.1 sentMeanwhile.2 ∧
      job.status = .processing ∧ history.map JobAttemptOut.outcome = [.sent] ∧
      ¬ OneState claimedJob.2 sentMeanwhile.1 1 job history := by
  have nothing : Run (jobSystem.startingAt claimedJob.2) [] claimedJob.2 := .start rfl
  refine ⟨⟨1, none, "ada@example.com", .email, "{}", .normal, .processing, false, 0, 1, 3, none, none,
    2, 0, 1, none⟩, [⟨1, some "worker-1", .sent, none, some 1, 2⟩], by decide +kernel, run_jobRun _,
    run_makeCalls nothing _, rfl, rfl, ?_⟩
  intro oneState
  have sent := oneState.sentIff.mp ⟨_, List.mem_singleton_self _, rfl⟩
  cases sent

end NotifyQueue
