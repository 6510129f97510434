import NotifyQueue.Cache.CacheSystem
import NotifyQueue.Lib.Versions
import NotifyQueue.Verified.CacheTexts
import NotifyQueue.Verified.Registrations

/-! # What the steps around the cache do

A job's row changes only in a commit, which raises its version by one; the text of a key changes
only in a put, an invalidation or a drop.  So every text is a tombstone or holds a row that was
committed at its version, and the version of a key only falls when the key goes away. -/

namespace NotifyQueue

open Aborts Runs Tables Versions

/-! ## Commits -/

/-- Every update of a job raises its version by one. -/
theorem SliceStep.bump {now : Time} {j : JobId} {s s' : Slice} {event : Option JobEvent}
    (step : SliceStep now j s event s') : Bump Job.version 1 s.row s'.row := by
  cases step with
  | idle => exact .same _
  | created absent _ =>
    rw [absent]
    exact .created rfl
  | claimed _ _ _ present _ =>
    rw [present]
    exact .raised rfl
  | sent _ _ _ _ _ present _ _ _ =>
    rw [present]
    exact .raised rfl
  | failed _ _ _ _ _ _ _ present _ _ _ =>
    rw [present]
    exact .raised rfl
  | reaped _ _ present _ _ _ _ =>
    rw [present]
    exact .raised rfl
  | returned _ _ present _ =>
    rw [present]
    exact .raised rfl
  | requeued _ present _ _ =>
    rw [present]
    exact .raised rfl

theorem commit_bump {op : JobOp} {now : Time} {db db' : Db} {answer : Answer}
    (committed : op.commit now db = (answer, db')) (jobId : JobId) :
    Bump Job.version 1 (getJob db jobId) (getJob db' jobId) :=
  (commit_slice committed jobId).bump

theorem present_of_existing {db : Db} {new : NewJob} {job : Job}
    (existing : existingJob db new = .ok job) : getJob db job.id = some job := by
  unfold existingJob at existing
  split at existing
  · next found =>
    cases existing
    cases key : new.idempotencyKey with
    | none =>
      rw [key] at found
      cases found
    | some value =>
      rw [key] at found
      exact Table.lookup_of_mem (List.mem_of_find?_eq_some found)
  · contradiction

/-- What `create_job` returns is the job's row. -/
theorem present_of_created {op : JobOp} {now : Time} {db db' : Db} {job : Job} {isNew : Bool}
    (committed : op.commit now db = (.created job isNew, db')) : getJob db' job.id = some job := by
  cases op with
  | createJob id new =>
    rw [commit_createJob] at committed
    split at committed
    · next created =>
      cases committed
      obtain ⟨⟨row, db₁⟩, inserted, returned⟩ := bind_eq_ok.mp created
      have how := insertJob_cases now id new db
      rw [inserted] at how
      -- the row is the new one, or the one that has its key already
      cases how with
      | created _ _ _ present _ =>
        rw [pure_eq_ok] at returned
        cases returned
        exact present
      | taken _ _ =>
        obtain ⟨existing, found, returned⟩ := bind_eq_ok.mp returned
        rw [pure_eq_ok] at returned
        cases returned
        exact present_of_existing found
    · cases committed
  | claimDueJobs => cases committed
  | returnToQueue => cases committed
  | markSent =>
    rw [commit_markSent] at committed
    split at committed <;> cases committed
  | markFailed =>
    rw [commit_markFailed] at committed
    split at committed <;> cases committed
  | reapExpiredLeases =>
    rw [commit_reapExpiredLeases] at committed
    split at committed <;> cases committed
  | requeueDeadLetter =>
    rw [commit_requeueDeadLetter] at committed
    split at committed <;> cases committed

/-! ## Calls to the cache -/

/-- The version that a key shows. -/
def JobTexts.storedVersion (texts : JobTexts) (now : Time) (jobId : JobId) : Option Int :=
  (texts.read now jobId).bind JobTexts.cachedVersion

section

variable {texts : JobTexts} {now : Time} {jobId other : JobId} {version : Int} {body : String}
  {ttl : Nat} {reply : RedisReply}

theorem read_write (entry : Option TextEntry) :
    (texts.write jobId entry).read now other =
      if other = jobId then
        (entry.filter fun entry => unexpired now (entry.storedAt + entry.ttl)).map TextEntry.raw
      else texts.read now other := by
  unfold JobTexts.read JobTexts.write
  split <;> rfl

/-- The key that was written shows the text that was written. -/
theorem read_written :
    (texts.write jobId (some ⟨JobTexts.entryText version body, now, ttl⟩)).read now other =
      if other = jobId then some (JobTexts.entryText version body) else texts.read now other := by
  rw [read_write]
  simp [Option.filter, unexpired_of_ttl now ttl]

theorem cacheCall_snd {σ α : Type} (stored : σ) (reply : RedisReply) (fn : σ → α × σ) (default : α) :
    (cacheCall stored reply fn default).2 = if reply = .failed false then stored else (fn stored).2 := by
  cases reply with
  | answered => rfl
  | failed applied => cases applied <;> rfl

/-- The script writes what is not older than what the key shows, or it changes nothing. -/
inductive SetResult (texts : JobTexts) (now : Time) (jobId : JobId) (version : Int) (body : String)
    (ttl : Nat) : Bool × JobTexts → Prop where
  | older {cached : Int} (shows : texts.storedVersion now jobId = some cached)
      (newer : version < cached) :
      SetResult texts now jobId version body ttl (false, texts)
  | refused (unset : ttl = 0) : SetResult texts now jobId version body ttl (false, texts)
  | written (set : ttl ≠ 0)
      (notNewer : ∀ cached, texts.storedVersion now jobId = some cached → cached ≤ version) :
      SetResult texts now jobId version body ttl
        (true, texts.write jobId (some ⟨JobTexts.entryText version body, now, ttl⟩))

theorem setIfNewer_cases (texts : JobTexts) (now : Time) (jobId : JobId) (version : Int) (body : String)
    (ttl : Nat) :
    SetResult texts now jobId version body ttl (texts.setIfNewer now jobId version body ttl) := by
  unfold JobTexts.setIfNewer
  cases shows : (texts.read now jobId).bind JobTexts.cachedVersion with
  | none =>
    simp only [Option.any_none, Bool.false_eq_true, if_false]
    split
    · next unset => exact .refused unset
    · next set => exact .written set fun cached shown => by cases shows.symm.trans shown
  | some cached =>
    simp only [Option.any_some, decide_eq_true_eq]
    split
    · next newer => exact .older shows newer
    · next notNewer =>
      split
      · next unset => exact .refused unset
      · next set =>
        refine .written set ?_
        intro other shown
        cases shows.symm.trans shown
        exact not_lt.mp notNewer

/-- What a call leaves under the keys. -/
theorem call_texts (texts : JobTexts) (now : Time) (jobId : JobId) (version : Int) (body : String)
    (ttl : Nat) (reply : RedisReply) :
    (cacheCall texts reply (JobTexts.setIfNewer now jobId version body ttl) false).2 = texts ∨
      ttl ≠ 0 ∧ (∀ cached, texts.storedVersion now jobId = some cached → cached ≤ version) ∧
        (cacheCall texts reply (JobTexts.setIfNewer now jobId version body ttl) false).2 =
          texts.write jobId (some ⟨JobTexts.entryText version body, now, ttl⟩) := by
  rw [cacheCall_snd]
  split
  · exact .inl rfl
  · have how := setIfNewer_cases texts now jobId version body ttl
    generalize texts.setIfNewer now jobId version body ttl = result at how
    cases how with
    | older _ _ => exact .inl rfl
    | refused _ => exact .inl rfl
    | written set notNewer => exact .inr ⟨set, notNewer, rfl⟩

/-- The version of a key after a call. -/
theorem storedVersion_call (texts : JobTexts) (now : Time) (jobId other : JobId) (version : Int)
    (body : String) (ttl : Nat) (reply : RedisReply) :
    (cacheCall texts reply (JobTexts.setIfNewer now jobId version body ttl) false).2.storedVersion now
        other = texts.storedVersion now other ∨
      (other = jobId ∧ (∀ cached, texts.storedVersion now other = some cached → cached ≤ version) ∧
        (cacheCall texts reply (JobTexts.setIfNewer now jobId version body ttl) false).2.storedVersion
          now other = some version) := by
  obtain same | ⟨set, notNewer, written⟩ := call_texts texts now jobId version body ttl reply
  · rw [same]
    exact .inl rfl
  · rw [written, JobTexts.storedVersion, read_written]
    split
    · next named =>
      subst named
      exact .inr ⟨rfl, notNewer, cachedVersion_entryText version body⟩
    · exact .inl rfl

/-- After a call that reached Redis the key shows the call's version or a newer one. -/
theorem storedVersion_applied (set : ttl ≠ 0) (applied : reply ≠ .failed false) :
    ∃ v, (cacheCall texts reply (JobTexts.setIfNewer now jobId version body ttl) false).2.storedVersion
      now jobId = some v ∧ version ≤ v := by
  rw [cacheCall_snd, if_neg applied]
  have how := setIfNewer_cases texts now jobId version body ttl
  generalize texts.setIfNewer now jobId version body ttl = result at how
  cases how with
  | older shows newer => exact ⟨_, shows, newer.le⟩
  | refused unset => exact absurd unset set
  | written _ _ =>
    refine ⟨version, ?_, le_refl version⟩
    rw [JobTexts.storedVersion, read_written, if_pos rfl]
    exact cachedVersion_entryText version body

/-- A call below the version of its key writes nothing. -/
theorem call_below {cached : Int} (shows : texts.storedVersion now jobId = some cached)
    (below : version < cached) :
    cacheCall texts reply (JobTexts.setIfNewer now jobId version body ttl) false = (false, texts) := by
  have refused : texts.setIfNewer now jobId version body ttl = (false, texts) := by
    have how := setIfNewer_cases texts now jobId version body ttl
    generalize texts.setIfNewer now jobId version body ttl = result at how
    cases how with
    | older _ _ => rfl
    | refused _ => rfl
    | written _ notNewer =>
      have := notNewer cached shows
      omega
  -- a call that was swallowed reports no write, whether or not the script ran
  cases reply with
  | answered => exact refused
  | failed applied =>
    cases applied with
    | true => exact congrArg (fun result => (false, result.2)) refused
    | false => rfl

/-- What a key shows later it shows now. -/
theorem read_earlier {later : Time} (past : now ≤ later) {raw : String}
    (shown : texts.read later jobId = some raw) : texts.read now jobId = some raw := by
  unfold JobTexts.read at shown ⊢
  cases stored : texts jobId with
  | none => simp [stored] at shown
  | some entry =>
    rw [stored] at shown
    by_cases live : unexpired later (entry.storedAt + entry.ttl)
    · have liveNow := live.earlier past
      simpa [Option.filter, live, liveNow] using shown
    · simp [Option.filter, live] at shown

end

/-! ## Steps -/

inductive CacheStep (json : JobJson) (settings : Settings) (w : CacheWorld) :
    CacheAction → CacheWorld → Prop where
  | tick {elapsed : Time} (forward : 0 ≤ elapsed) :
      CacheStep json settings w (.tick elapsed) { w with now := w.now + elapsed }
  | job {op : JobOp} {began : Time} {answer : Answer} {db : Db} (past : began ≤ w.now)
      (committed : op.commit began w.db = (answer, db)) :
      CacheStep json settings w (.job op began)
        { w with
          db
          reads := w.reads ++ answer.reads
          transitions := w.transitions ++ answer.transitions }
  | read {jobId : JobId} {job : Job} (found : getJob w.db jobId = some job) :
      CacheStep json settings w (.read jobId) { w with reads := w.reads ++ [.fromDomain job] }
  | readNothing {jobId : JobId} : CacheStep json settings w (.read jobId) w
  | put {job : JobOut} (reply : RedisReply) (held : job ∈ w.reads) :
      CacheStep json settings w (.put job reply)
        { w with texts := (w.texts.put json settings w.now job reply).2 }
  | invalidate {transition : Transition} (reply : RedisReply) (held : transition ∈ w.transitions) :
      CacheStep json settings w (.invalidate transition reply)
        { w with
          texts := (w.texts.invalidate settings w.now transition.jobId transition.version reply).2 }
  | dropJob (jobId : JobId) :
      CacheStep json settings w (.dropJob jobId) { w with texts := w.texts.write jobId none }

section

variable {json : JobJson} {settings : Settings} {w w' : CacheWorld} {action : CacheAction}

theorem CacheWorld.step_cases (stepped : w.step json settings action = some w') :
    CacheStep json settings w action w' := by
  cases action with
  | tick elapsed =>
    simp only [CacheWorld.step] at stepped
    split at stepped
    · next forward =>
      cases stepped
      exact .tick forward
    · contradiction
  | job op began =>
    simp only [CacheWorld.step] at stepped
    split at stepped
    · next past =>
      cases stepped
      exact .job past rfl
    · contradiction
  | read jobId =>
    simp only [CacheWorld.step] at stepped
    split at stepped
    · next job found =>
      cases stepped
      exact .read found
    · cases stepped
      exact .readNothing
  | put job reply =>
    simp only [CacheWorld.step] at stepped
    split at stepped
    · next held =>
      cases stepped
      exact .put reply held
    · contradiction
  | invalidate transition reply =>
    simp only [CacheWorld.step] at stepped
    split at stepped
    · next held =>
      cases stepped
      exact .invalidate reply held
    · contradiction
  | dropJob jobId =>
    cases stepped
    exact .dropJob jobId

/-- A step leaves the row of a job, or commits its next version. -/
theorem CacheStep.bump (step : CacheStep json settings w action w') (jobId : JobId) :
    Bump Job.version 1 (getJob w.db jobId) (getJob w'.db jobId) := by
  cases step with
  | tick => exact .same _
  | job _ committed => exact commit_bump committed jobId
  | read => exact .same _
  | readNothing => exact .same _
  | put => exact .same _
  | invalidate => exact .same _
  | dropJob => exact .same _

theorem cacheSystem_bumps : ∀ w action w', (cacheSystem json settings).step w action w' → ∀ jobId,
    Bump Job.version 1 (getJob w.db jobId) (getJob w'.db jobId) :=
  fun _ _ _ step jobId => (CacheWorld.step_cases step).bump jobId

/-! ## The version of a key -/

def CacheWorld.stored (w : CacheWorld) (jobId : JobId) : Option Int :=
  w.texts.storedVersion w.now jobId

/-- No step lowers the version of a key that it leaves there. -/
theorem CacheStep.stored_le (step : CacheStep json settings w action w') {jobId : JobId} {v v' : Int}
    (before : w.stored jobId = some v) (after : w'.stored jobId = some v') : v ≤ v' := by
  have unchanged : w'.stored jobId = w.stored jobId → v ≤ v' := by
    intro same
    rw [same, before] at after
    cases after
    exact le_refl v
  -- a put and an invalidation are the same call
  have called : ∀ named version body ttl reply,
      w'.stored jobId = (cacheCall w.texts reply (JobTexts.setIfNewer w.now named version body ttl)
        false).2.storedVersion w.now jobId → v ≤ v' := by
    intro named version body ttl reply result
    obtain same | ⟨_, notNewer, written⟩ :=
      storedVersion_call w.texts w.now named jobId version body ttl reply
    · exact unchanged (result.trans same)
    · rw [result, written] at after
      cases after
      exact notNewer v before
  cases step with
  | @tick elapsed forward =>
    -- time only takes keys away
    apply unchanged
    obtain ⟨raw, shown, _⟩ := Option.bind_eq_some_iff.mp after
    have earlier := read_earlier (le_add_of_nonneg_right forward) shown
    simp only [CacheWorld.stored, JobTexts.storedVersion, shown, earlier]
  | job => exact unchanged rfl
  | read => exact unchanged rfl
  | readNothing => exact unchanged rfl
  | put reply _ => exact called _ _ _ _ reply rfl
  | invalidate reply _ => exact called _ _ _ _ reply rfl
  | dropJob named =>
    have shown : (w.texts.write named none).storedVersion w.now jobId =
        if jobId = named then none else w.texts.storedVersion w.now jobId := by
      rw [JobTexts.storedVersion, read_write]
      split <;> rfl
    by_cases same : jobId = named
    · have gone : (w.texts.write named none).storedVersion w.now jobId = some v' := after
      rw [shown, if_pos same] at gone
      cases gone
    · exact unchanged (shown.trans (if_neg same))

end

/-! ## What the texts hold -/

/-- A row that was committed in the run. -/
def Committed (history : CacheHistory) (w : CacheWorld) (row : Job) : Prop :=
  Seen (fun w jobId => getJob w.db jobId) history w row.id row

/-- A text of a key: a tombstone, or a committed row at its version with the lifetime of its
    status. -/
inductive TextFits (json : JobJson) (settings : Settings) (committed : Job → Prop) (jobId : JobId) :
    TextEntry → Prop where
  | tombstone (version : Int) (storedAt : Time) (ttl : Nat) :
      TextFits json settings committed jobId ⟨JobTexts.entryText version "", storedAt, ttl⟩
  | body {row : Job} (was : committed row) (named : row.id = jobId) (storedAt : Time) :
      TextFits json settings committed jobId
        ⟨JobTexts.entryText row.version (json.dump (.fromDomain row)), storedAt,
          JobTexts.jobTtl settings (.fromDomain row)⟩

/-- Everything that is held outside Postgres came from it. -/
structure FromPostgres (json : JobJson) (settings : Settings) (history : CacheHistory) (w : CacheWorld) :
    Prop where
  reads : ∀ job ∈ w.reads, ∃ row, Committed history w row ∧ job = .fromDomain row
  texts : ∀ jobId entry, w.texts jobId = some entry →
    TextFits json settings (Committed history w) jobId entry

section

variable {json : JobJson} {settings : Settings} {history : CacheHistory} {w w' : CacheWorld}
  {action : CacheAction} {jobId : JobId} {row : Job}

theorem committed_of_present (found : getJob w.db jobId = some row) : Committed history w row := by
  have named := Table.pk_of_lookup found
  subst named
  exact .inl found

theorem Committed.later (was : Committed history w row) :
    Committed (⟨w, action, w'⟩ :: history) w' row := Seen.later was

theorem TextFits.mono {committed committed' : Job → Prop} {entry : TextEntry}
    (fits : TextFits json settings committed jobId entry)
    (more : ∀ row, committed row → committed' row) :
    TextFits json settings committed' jobId entry := by
  cases fits with
  | tombstone version storedAt ttl => exact .tombstone version storedAt ttl
  | body was named storedAt => exact .body (more _ was) named storedAt

/-- The writes keep the texts in order when what they write is in order. -/
theorem texts_fit_call {committed : Job → Prop} {texts : JobTexts} {now : Time} {named : JobId}
    {version : Int} {body : String} {ttl : Nat} (reply : RedisReply)
    (fits : ∀ jobId entry, texts jobId = some entry → TextFits json settings committed jobId entry)
    (written : TextFits json settings committed named ⟨JobTexts.entryText version body, now, ttl⟩) :
    ∀ jobId entry,
      (cacheCall texts reply (JobTexts.setIfNewer now named version body ttl) false).2 jobId =
        some entry →
        TextFits json settings committed jobId entry := by
  intro jobId entry stored
  obtain same | ⟨_, _, wrote⟩ := call_texts texts now named version body ttl reply
  · rw [same] at stored
    exact fits jobId entry stored
  · rw [wrote, JobTexts.write] at stored
    split at stored
    · next own =>
      cases stored
      rw [own]
      exact written
    · exact fits jobId entry stored

/-- The step lemma: what is read or put stays what was committed. -/
theorem FromPostgres.step (holds : FromPostgres json settings history w)
    (step : CacheStep json settings w action w') :
    FromPostgres json settings (⟨w, action, w'⟩ :: history) w' := by
  have reads : ∀ job ∈ w.reads, ∃ row, Committed (⟨w, action, w'⟩ :: history) w' row ∧
      job = .fromDomain row := by
    intro job held
    obtain ⟨row, was, same⟩ := holds.reads job held
    exact ⟨row, was.later, same⟩
  have texts : ∀ jobId entry, w.texts jobId = some entry →
      TextFits json settings (Committed (⟨w, action, w'⟩ :: history) w') jobId entry :=
    fun jobId entry stored => (holds.texts jobId entry stored).mono fun _ was => was.later
  cases step with
  | tick => exact ⟨reads, texts⟩
  | @job op began answer db _ committed =>
    refine ⟨?_, texts⟩
    intro job held
    obtain held | new := List.mem_append.mp held
    · exact reads job held
    · cases answer with
      | created created isNew =>
        obtain rfl := List.mem_singleton.mp new
        exact ⟨created, committed_of_present (present_of_created committed), rfl⟩
      | _ => cases new
  | @read jobId row found =>
    refine ⟨?_, texts⟩
    intro job held
    obtain held | new := List.mem_append.mp held
    · exact reads job held
    · obtain rfl := List.mem_singleton.mp new
      exact ⟨row, committed_of_present found, rfl⟩
  | readNothing => exact ⟨reads, texts⟩
  | put reply held =>
    -- what is put was read from a committed row
    obtain ⟨row, was, rfl⟩ := reads _ held
    exact ⟨reads, texts_fit_call reply texts (.body was rfl w.now)⟩
  | invalidate reply _ =>
    exact ⟨reads, texts_fit_call reply texts (.tombstone _ w.now _)⟩
  | dropJob named =>
    refine ⟨reads, ?_⟩
    intro jobId entry stored
    have kept : w.texts jobId = some entry := by
      simp only [JobTexts.write] at stored
      split at stored
      · cases stored
      · exact stored
    exact texts jobId entry kept

theorem fromPostgres_of_run (run : Run (cacheSystem json settings) history w) :
    FromPostgres json settings history w := by
  induction run with
  | start initial =>
    obtain ⟨start, rfl⟩ := initial
    constructor
    · intro _ held
      cases held
    · intro _ _ stored
      cases stored
  | next _ step inductionHypothesis => exact inductionHypothesis.step (CacheWorld.step_cases step)

/-- What a `get` can return: a miss, or a committed row that its key still shows. -/
theorem FromPostgres.get (holds : FromPostgres json settings history w) (jobId : JobId)
    (reply : RedisReply) :
    JobTexts.get json w.now jobId reply w.texts = .ok none ∨
      ∃ row storedAt, Committed history w row ∧ row.id = jobId ∧
        w.texts jobId = some ⟨JobTexts.entryText row.version (json.dump (.fromDomain row)), storedAt,
          JobTexts.jobTtl settings (.fromDomain row)⟩ ∧
        unexpired w.now (storedAt + JobTexts.jobTtl settings (.fromDomain row)) ∧
        w.stored jobId = some row.version ∧
        JobTexts.get json w.now jobId reply w.texts = .ok (some (.fromDomain row)) := by
  cases reply with
  | failed applied => exact .inl (get_of_failed json applied)
  | answered =>
    cases stored : w.texts jobId with
    | none =>
      refine .inl (get_of_unread json ?_)
      rw [JobTexts.read, stored]
      rfl
    | some entry =>
      by_cases live : unexpired w.now (entry.storedAt + entry.ttl)
      · have shown : w.texts.read w.now jobId = some entry.raw := by
          simp [JobTexts.read, stored, Option.filter, live]
        -- the first separator of the text is the one in front of the body
        cases holds.texts jobId entry stored with
        | tombstone version storedAt ttl => exact .inl (get_of_tombstone json shown)
        | @body row was named storedAt =>
          refine .inr ⟨row, storedAt, was, named, rfl, live, ?_, get_of_body shown⟩
          rw [CacheWorld.stored, JobTexts.storedVersion, shown]
          exact cachedVersion_entryText _ _
      · refine .inl (get_of_unread json ?_)
        simp [JobTexts.read, stored, Option.filter, live]

/-! ## The entries behind the texts -/

theorem HoldsEntries.step {redis : Redis} (holds : HoldsEntries json w.texts redis)
    (step : CacheStep json settings w action w') : ∃ redis', HoldsEntries json w'.texts redis' := by
  cases step with
  | tick => exact ⟨redis, holds⟩
  | job => exact ⟨redis, holds⟩
  | read => exact ⟨redis, holds⟩
  | readNothing => exact ⟨redis, holds⟩
  | put reply _ => exact ⟨_, (holds.put _).2⟩
  | invalidate reply _ => exact ⟨_, (holds.invalidate _).2⟩
  | dropJob named => exact ⟨redis.setJob named none, holds.write rfl⟩

/-- In every run the cache answers as one that holds its entries in two parts. -/
theorem entries_of_run (run : Run (cacheSystem json settings) history w) :
    ∃ redis, HoldsEntries json w.texts redis ∧ ∀ jobId reply,
      JobTexts.get json w.now jobId reply w.texts = .ok (JobCache.get w.now jobId reply redis) := by
  have held : ∃ redis, HoldsEntries json w.texts redis := by
    refine Run.state_invariant (I := fun w : CacheWorld => ∃ redis, HoldsEntries json w.texts redis)
      ?_ ?_ run
    · intro w initial
      obtain ⟨start, rfl⟩ := initial
      exact ⟨.empty, fun _ => rfl⟩
    · intro w action w' before step
      obtain ⟨redis, holds⟩ := before
      exact holds.step (CacheWorld.step_cases step)
  obtain ⟨redis, holds⟩ := held
  exact ⟨redis, holds, fun _ _ => holds.get⟩

end

end NotifyQueue
