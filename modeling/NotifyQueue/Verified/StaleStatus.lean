import NotifyQueue.Verified.VersionedCache

/-! # How long a stale status lives

A text that outlives the short lifetime holds a job that was sent or dead-lettered.  A sent job
never changes again.  A dead-lettered one is changed by `requeue_dead_letter`, and by nothing
else: then the text stays for as long as a terminal status may, unless an invalidation arrives. -/

namespace NotifyQueue

open Runs Tables Versions

/-- A step that takes the job out of the dead letters at this version. -/
def requeuesAt (jobId : JobId) (version : Int) (taken : Taken CacheWorld CacheAction) : Bool :=
  match taken.label with
  | .job (.requeueDeadLetter named extraAttempts) _ =>
    named = jobId && (getJob taken.before.db jobId).any fun row =>
      row.version = version && row.status = .deadLettered && 1 ≤ row.attempts + extraAttempts
  | _ => false

/-- The job has been requeued at the version that its key shows. -/
def RequeuedSince (history : CacheHistory) (w : CacheWorld) (jobId : JobId) : Prop :=
  ∃ version, w.stored jobId = some version ∧ ∃ taken ∈ history, requeuesAt jobId version taken = true

theorem requeuesAt_iff {jobId : JobId} {version : Int} {taken : Taken CacheWorld CacheAction} :
    requeuesAt jobId version taken = true ↔ ∃ extraAttempts began row,
      taken.label = .job (.requeueDeadLetter jobId extraAttempts) began ∧
        getJob taken.before.db jobId = some row ∧ row.version = version ∧
        row.status = .deadLettered ∧ 1 ≤ row.attempts + extraAttempts := by
  obtain ⟨before, label, after⟩ := taken
  constructor
  · intro requeued
    unfold requeuesAt at requeued
    split at requeued
    · next named extraAttempts began label =>
      obtain ⟨same, found⟩ := Bool.and_eq_true_iff.mp requeued
      obtain rfl := of_decide_eq_true same
      cases present : getJob before.db named with
      | none =>
        rw [present] at found
        contradiction
      | some row =>
        simp only [present, Option.any_some, Bool.and_eq_true, decide_eq_true_eq] at found
        exact ⟨extraAttempts, began, row, label, rfl, found.1.1, found.1.2, found.2⟩
    · contradiction
  · intro requeued
    obtain ⟨extraAttempts, began, row, rfl, present, version, dead, cap⟩ := requeued
    simp [requeuesAt, present, version, dead, cap]

/-! ## Requeueing -/

section

variable {now : Time} {j : JobId} {db : Db} {row : Job}

/-- A requeue of a dead-lettered job within the `CHECK` commits. -/
theorem requeue_commits {extraAttempts : Int} (found : getJob db j = some row)
    (dead : row.status = .deadLettered) (cap : 1 ≤ row.attempts + extraAttempts) :
    getJob ((JobOp.requeueDeadLetter j extraAttempts).commit now db).2 j =
      some (requeuedRow now extraAttempts row) := by
  have named := Table.pk_of_lookup found
  have rows : db.jobs.returning (isDeadLettered j) (requeuedRow now extraAttempts) =
      [requeuedRow now extraAttempts row] := by
    have only : db.jobs.select (isDeadLettered j) = [row] := by
      refine Table.select_eq_singleton (Table.mem_of_lookup found)
        (by simp [isDeadLettered, named, dead]) ?_
      intro other member matched
      simp only [isDeadLettered, Bool.and_eq_true, decide_eq_true_eq] at matched
      have found' : getJob db j = some other := by
        rw [← matched.1]
        exact Table.lookup_of_mem member
      exact Option.some.inj (found'.symm.trans found)
    exact congrArg (List.map (requeuedRow now extraAttempts)) only
  -- the row passes the `CHECK`, so the call commits and names the job
  have happened : Call.eventFor ⟨.requeueDeadLetter j extraAttempts, now,
      ((JobOp.requeueDeadLetter j extraAttempts).commit now db).1⟩ j =
        some (.requeued extraAttempts) := by
    rw [commit_requeueDeadLetter]
    simp [requeueDeadLetter, rows, Call.eventFor, finishedEvent, transition, requeuedRow, named,
      not_lt.mpr cap]
  have step : OpStep now j (db.slice j) (.requeueDeadLetter j extraAttempts)
      (Call.eventFor ⟨.requeueDeadLetter j extraAttempts, now,
        ((JobOp.requeueDeadLetter j extraAttempts).commit now db).1⟩ j)
      (((JobOp.requeueDeadLetter j extraAttempts).commit now db).2.slice j) := commit_op rfl j
  rw [happened] at step
  show (((JobOp.requeueDeadLetter j extraAttempts).commit now db).2.slice j).row = _
  generalize ((JobOp.requeueDeadLetter j extraAttempts).commit now db).2.slice j = s' at step
  cases step with
  | requeued present _ _ =>
    cases present.symm.trans found
    rfl

end

/-! ## Runs -/

section

variable {json : JobJson} {settings : Settings} {history : CacheHistory} {w : CacheWorld}
  {jobId : JobId} {row : Job} {version : Int}

/-- A committed terminal row is the present one, or has been requeued. -/
theorem terminal_present (run : Run (cacheSystem json settings) history w)
    (was : Committed history w row) (terminal : row.status.isTerminal = true) :
    getJob w.db row.id = some row ∨ ∃ taken ∈ history, requeuesAt row.id row.version taken = true := by
  induction run with
  | start _ =>
    cases was with
    | inl now => exact .inl now
    | inr before => simp at before
  | @next history w w' action run step inductionHypothesis =>
    cases seen_cons was with
    | inr now => exact .inl now
    | inl before =>
      cases inductionHypothesis before with
      | inr requeued =>
        obtain ⟨taken, member, requeued⟩ := requeued
        exact .inr ⟨taken, List.mem_cons_of_mem _ member, requeued⟩
      | inl present =>
        -- only a commit changes the row, and of those only a requeue
        cases CacheWorld.step_cases step with
        | @job op began answer db _ committed =>
          cases (commit_op committed row.id).terminal_cases present terminal with
          | inl same => exact .inl ((congrArg Slice.row same).trans present)
          | inr requeued =>
            obtain ⟨extraAttempts, rfl, dead, cap⟩ := requeued
            refine .inr ⟨_, List.mem_cons_self, requeuesAt_iff.mpr ?_⟩
            exact ⟨extraAttempts, began, row, rfl, present, rfl, dead, cap⟩
        | _ => exact .inl present

/-- A version that was requeued is older than the present one. -/
theorem lt_present_of_requeued (run : Run (cacheSystem json settings) history w)
    {taken : Taken CacheWorld CacheAction} (member : taken ∈ history)
    (requeued : requeuesAt jobId version taken = true) {present : Job}
    (found : getJob w.db jobId = some present) : version < present.version := by
  obtain ⟨extraAttempts, began, row, label, before, rfl, dead, cap⟩ := requeuesAt_iff.mp requeued
  have taken_step := CacheWorld.step_cases (run.of_mem member).2
  have after : getJob taken.after.db jobId = some (requeuedRow began extraAttempts row) := by
    have commits : getJob ((JobOp.requeueDeadLetter jobId extraAttempts).commit began
        taken.before.db).2 jobId = some (requeuedRow began extraAttempts row) :=
      requeue_commits before dead cap
    rw [label] at taken_step
    generalize taken.after = w' at taken_step
    cases taken_step with
    | job _ committed =>
      rw [committed] at commits
      exact commits
  -- the row that the requeue wrote has the next version, and no present row is older than it
  have seen : Seen (fun w jobId => getJob w.db jobId) history w jobId
      (requeuedRow began extraAttempts row) := .of_after run member after
  obtain ⟨present', found', newest⟩ := seen.le_present run cacheSystem_bumps
  cases found'.symm.trans found
  have raised : (requeuedRow began extraAttempts row).version = row.version + 1 := rfl
  cases newest with
  | inl same =>
    subst same
    omega
  | inr older => omega

/-- A body that is returned later than the short lifetime after it was stored, on the clock of
    Redis, has the job's current version, unless the job has been requeued since. -/
theorem stale_status (run : Run (cacheSystem json settings) history w) {reply : RedisReply}
    {job : JobOut} {entry : TextEntry}
    (returned : JobTexts.get json w.now jobId reply w.texts = .ok (some job))
    (held : w.texts jobId = some entry)
    (overdue : ¬ unexpired w.now (entry.storedAt + settings.cacheJobTtlActive)) :
    (∃ row, getJob w.db jobId = some row ∧ row.version = job.version) ↔
      ¬ RequeuedSince history w jobId := by
  obtain missed | ⟨row, storedAt, was, named, stored, live, shows, returned'⟩ :=
    (fromPostgres_of_run run).get jobId reply
  · cases missed.symm.trans returned
  subst named
  cases returned'.symm.trans returned
  cases stored.symm.trans held
  -- the text has outlived the short lifetime, so it was stored with the other one
  have terminal : row.status.isTerminal = true := by
    by_contra active
    have short : JobTexts.jobTtl settings (.fromDomain row) = settings.cacheJobTtlActive := if_neg active
    rw [short] at live
    exact overdue live
  constructor
  · intro current requeued
    obtain ⟨present, found, same⟩ := current
    obtain ⟨version, shows', taken, member, requeued⟩ := requeued
    have older := lt_present_of_requeued run member requeued found
    have shown : row.version = version := Option.some.inj (shows.symm.trans shows')
    have sameVersion : present.version = row.version := same
    omega
  · intro unrequeued
    cases terminal_present run was terminal with
    | inl present => exact ⟨row, present, rfl⟩
    | inr requeued => exact absurd ⟨row.version, shows, requeued⟩ unrequeued

end

/-! ## A dead letter in the cache -/

def deadOut : JobOut := .fromDomain <|
  failedRow 2 "boom" 0 false (claimedRow 1 "worker-1" 10 (fun _ => 70) ((sampleJob 1).row 1 0))

def deadJson : JobJson := jsonOf deadOut <|
  "\"id\":\"00000000-0000-0000-0000-000000000001\",\"idempotency_key\":null," ++
  "\"recipient\":\"ada@example.com\",\"channel\":\"email\",\"payload\":\x7b\x7d," ++
  "\"priority\":\"normal\",\"status\":\"dead_lettered\",\"retrying\":false," ++
  "\"run_at\":\"1970-01-01T00:00:00Z\",\"attempts\":1,\"max_attempts\":1," ++
  "\"last_error\":\"boom\",\"callback_url\":null,\"version\":3," ++
  "\"created_at\":\"1970-01-01T00:00:00Z\",\"updated_at\":\"1970-01-01T00:00:02Z\"," ++
  "\"sent_at\":null"

/-- A job fails for good, is read and put, and half a minute goes by. -/
def buriedAndRead : List CacheAction :=
  [.job (.createJob 1 (sampleJob 1)) 0, .tick 1,
    .job (.claimDueJobs "worker-1" 5 10 (fun _ => 70) .alone) 1, .tick 1,
    .job (.markFailed 1 70 "worker-1" "boom" 0 false "" 900) 2, .read 1, .put deadOut .answered,
    .tick 31]

/-- Then it is requeued, and Redis is down for the invalidation. -/
def requeuedUnseen : List CacheAction :=
  buriedAndRead ++ [.job (.requeueDeadLetter 1 1) 33, .invalidate ⟨1, 4, .pending⟩ (.failed false)]

/-- What the key holds, whatever the JSON looks like. -/
theorem held_buriedAndRead (json : JobJson) :
    (cacheRun json .default 0 buriedAndRead).2.texts 1 =
      some ⟨JobTexts.entryText 3 (json.dump deadOut), 2, 86400⟩ := by
  with_unfolding_all rfl

theorem held_requeuedUnseen (json : JobJson) :
    (cacheRun json .default 0 requeuedUnseen).2.texts 1 =
      some ⟨JobTexts.entryText 3 (json.dump deadOut), 2, 86400⟩ := by
  with_unfolding_all rfl

theorem get_dead {json : JobJson} {texts : JobTexts}
    (held : texts 1 = some ⟨JobTexts.entryText 3 (json.dump deadOut), 2, 86400⟩) :
    JobTexts.get json 33 1 .answered texts = .ok (some deadOut) := by
  have live : unexpired 33 (2 + (86400 : Nat)) := by decide +kernel
  have stored : texts.read 33 1 = some (JobTexts.entryText 3 (json.dump deadOut)) := by
    simp only [JobTexts.read, held, Option.filter_some, Option.map_eq_some_iff]
    exact ⟨_, if_pos (decide_eq_true live), rfl⟩
  exact get_of_body stored

/-- A dead letter that stays one is shown as it is. -/
theorem stale_status_buried :
    ∃ row, getJob (cacheRun deadJson .default 0 buriedAndRead).2.db 1 = some row ∧
      row.version = deadOut.version := by
  have run : Run (cacheSystem deadJson .default) (cacheRun deadJson .default 0 buriedAndRead).1
      (cacheRun deadJson .default 0 buriedAndRead).2 := run_cacheRun _ _ _ _
  have held := held_buriedAndRead deadJson
  have now : (cacheRun deadJson .default 0 buriedAndRead).2.now = 33 := by decide +kernel
  have returned := get_dead held
  rw [← now] at returned
  have overdue : ¬ unexpired (cacheRun deadJson .default 0 buriedAndRead).2.now
      (2 + Settings.default.cacheJobTtlActive) := by decide +kernel
  have others : ((cacheRun deadJson .default 0 buriedAndRead).1.all fun taken =>
      match taken.label with
      | .job (.requeueDeadLetter _ _) _ => false
      | _ => true) = true := by
    decide +kernel
  refine (stale_status run returned held overdue).mpr ?_
  intro requeued
  obtain ⟨version, _, taken, member, requeued⟩ := requeued
  obtain ⟨extraAttempts, began, _, label, _⟩ := requeuesAt_iff.mp requeued
  have other := List.all_eq_true.mp others taken member
  rw [label] at other
  contradiction

/-- Half a minute is over, and the cache still says that the job was given up. -/
theorem stale_status_requeued :
    ¬ ∀ history w, Run (cacheSystem deadJson .default) history w → ∀ jobId reply job entry,
      JobTexts.get deadJson w.now jobId reply w.texts = .ok (some job) → w.texts jobId = some entry →
      entry.storedAt + Settings.default.cacheJobTtlActive < w.now →
        ∃ row, getJob w.db jobId = some row ∧ row.version = job.version := by
  intro claim
  have run : Run (cacheSystem deadJson .default) (cacheRun deadJson .default 0 requeuedUnseen).1
      (cacheRun deadJson .default 0 requeuedUnseen).2 := run_cacheRun _ _ _ _
  have held := held_requeuedUnseen deadJson
  have now : (cacheRun deadJson .default 0 requeuedUnseen).2.now = 33 := by decide +kernel
  have returned := get_dead held
  rw [← now] at returned
  obtain ⟨row, found, version⟩ := claim _ _ run 1 .answered deadOut _ returned held (by decide +kernel)
  have current : (getJob (cacheRun deadJson .default 0 requeuedUnseen).2.db 1).map Job.version =
      some 4 := by
    decide +kernel
  rw [found] at current
  have shown : deadOut.version = 3 := rfl
  have newer : row.version = 4 := Option.some.inj current
  omega

end NotifyQueue
