import NotifyQueue.Verified.Registrations

/-! # What a scheduling call can do

`CallStep` lists the steps of one call with what they find in the cache or the tables, and
`Consistent` is the invariant that ties them together: whatever the cache holds for a key
names the job that the key stands for, and every call knows no more than that. -/

namespace NotifyQueue

open Runs Tables

namespace Scheduling

section

variable {settings : Settings} {requestHash : ScheduleJobRequest → String}

/-! ## The steps -/

/-- The steps of a call from a stage. -/
inductive CallStep (settings : Settings) (requestHash : ScheduleJobRequest → String) (w : World)
    (request : ScheduleJobRequest) : Stage → CallAction → Stage × Db × Redis → Prop where
  | keyMissed {key : String} {reply : RedisReply}
      (missed : JobCache.getIdempotency w.now key reply w.redis = .ok none) :
      CallStep settings requestHash w request (.lookingUp key) (.redis reply)
        (.inserting, w.db, w.redis)
  | keyMalformed {key message : String} {reply : RedisReply}
      (raised : JobCache.getIdempotency w.now key reply w.redis = .error message) :
      CallStep settings requestHash w request (.lookingUp key) (.redis reply)
        (.done (.valueError message), w.db, w.redis)
  | keyRefused {key hash : String} {reply : RedisReply} {jobId : JobId}
      (hit : JobCache.getIdempotency w.now key reply w.redis = .ok (some (jobId, hash)))
      (other : hash ≠ requestHash request) :
      CallStep settings requestHash w request (.lookingUp key) (.redis reply)
        (.done (.idempotencyConflict jobId), w.db, w.redis)
  | keyFound {key : String} {reply : RedisReply} {jobId : JobId}
      (hit : JobCache.getIdempotency w.now key reply w.redis = .ok (some (jobId, requestHash request))) :
      CallStep settings requestHash w request (.lookingUp key) (.redis reply)
        (.reading jobId, w.db, w.redis)
  | readCached {jobId : JobId} {reply : RedisReply} {job : JobOut}
      (hit : JobCache.get w.now jobId reply w.redis = some job) :
      CallStep settings requestHash w request (.reading jobId) (.redis reply)
        (.done (.returned job false), w.db, w.redis)
  | readMissed {jobId : JobId} {reply : RedisReply} :
      CallStep settings requestHash w request (.reading jobId) (.redis reply)
        (.selecting jobId, w.db, w.redis)
  | selected {jobId : JobId} {job : Job} (found : getJob w.db jobId = some job) :
      CallStep settings requestHash w request (.selecting jobId) .select
        (.puttingRead (.fromDomain job), w.db, w.redis)
  | selectMissed {jobId : JobId} (absent : getJob w.db jobId = none) :
      CallStep settings requestHash w request (.selecting jobId) .select
        (.inserting, w.db, w.redis)
  | readPut {job : JobOut} {reply : RedisReply} :
      CallStep settings requestHash w request (.puttingRead job) (.redis reply)
        (.done (.returned job false), w.db, (JobCache.put settings w.now job reply w.redis).2)
  | inserted {id : JobId} {began : Time} {job : Job} {db : Db} (past : began ≤ w.now)
      (ran : insertJob began id (newJob settings requestHash request) w.db = .ok (some job, db)) :
      CallStep settings requestHash w request .inserting (.insert id began)
        (afterCreate requestHash request job true, db, w.redis)
  | insertIgnored {id : JobId} {began : Time} {db : Db} (past : began ≤ w.now)
      (ran : insertJob began id (newJob settings requestHash request) w.db = .ok (none, db)) :
      CallStep settings requestHash w request .inserting (.insert id began)
        (.rereading, db, w.redis)
  | insertAborted {id : JobId} {began : Time} {abort : Abort} (past : began ≤ w.now)
      (ran : insertJob began id (newJob settings requestHash request) w.db = .error abort) :
      CallStep settings requestHash w request .inserting (.insert id began)
        (.done (.aborted abort), w.db, w.redis)
  | reread {job : Job} (ran : existingJob w.db (newJob settings requestHash request) = .ok job) :
      CallStep settings requestHash w request .rereading .select
        (afterCreate requestHash request job false, w.db, w.redis)
  | rereadAborted {abort : Abort}
      (ran : existingJob w.db (newJob settings requestHash request) = .error abort) :
      CallStep settings requestHash w request .rereading .select
        (.done (.aborted abort), w.db, w.redis)
  | keyPut {key : String} {job : Job} {created : Bool} {reply : RedisReply} :
      CallStep settings requestHash w request (.puttingKey key job created) (.redis reply)
        (.putting (.fromDomain job) created, w.db,
          JobCache.putIdempotency settings w.now key job.id job.requestHash reply w.redis)
  | jobPut {job : JobOut} {created : Bool} {reply : RedisReply} :
      CallStep settings requestHash w request (.putting job created) (.redis reply)
        (.done (.returned job created), w.db, (JobCache.put settings w.now job reply w.redis).2)

theorem callStep_cases {w : World} {request : ScheduleJobRequest} {stage : Stage} {action : CallAction}
    {effect : Stage × Db × Redis}
    (stepped : callStep settings requestHash w request stage action = some effect) :
    CallStep settings requestHash w request stage action effect := by
  unfold callStep at stepped
  split at stepped
  · next key reply =>
    split at stepped
    · next message raised =>
      cases stepped
      exact .keyMalformed raised
    · next missed =>
      cases stepped
      exact .keyMissed missed
    · next jobId hash hit =>
      split at stepped
      · next other =>
        cases stepped
        exact .keyRefused hit other
      · next same =>
        cases stepped
        rw [not_not.mp same] at hit
        exact .keyFound hit
  · next jobId reply =>
    split at stepped
    · next job hit =>
      cases stepped
      exact .readCached hit
    · cases stepped
      exact .readMissed
  · next jobId =>
    split at stepped
    · next job found =>
      cases stepped
      exact .selected found
    · next absent =>
      cases stepped
      exact .selectMissed absent
  · cases stepped
    exact .readPut
  · next id began =>
    split at stepped
    · next past =>
      split at stepped
      · next abort ran =>
        cases stepped
        exact .insertAborted past ran
      · next job db ran =>
        cases stepped
        exact .inserted past ran
      · next db ran =>
        cases stepped
        exact .insertIgnored past ran
    · cases stepped
  · split at stepped
    · next abort ran =>
      cases stepped
      exact .rereadAborted ran
    · next job ran =>
      cases stepped
      exact .reread ran
  · cases stepped
    exact .keyPut
  · cases stepped
    exact .jobPut
  · cases stepped

/-- The stages at which a call can start. -/
theorem submit_stage (request : ScheduleJobRequest) (now : Time) :
    (tooLate request now = true ∧ (submit request now).stage = .done .invalidSchedule) ∨
      tooLate request now = false ∧
        ((∃ key, request.idempotencyKey = some key ∧ (submit request now).stage = .lookingUp key) ∨
          (submit request now).stage = .inserting) := by
  unfold submit
  dsimp only
  split
  · next late => exact .inl ⟨late, rfl⟩
  · next inTime =>
    refine .inr ⟨by simpa using inTime, ?_⟩
    split
    · next key named => exact .inl ⟨key, named, rfl⟩
    · exact .inr rfl

end

/-! ## Verdicts -/

/-- What a caller learns: the job's id and whether it was created, or the exception. -/
inductive Verdict where
  | accepted (jobId : JobId) (created : Bool)
  | invalidSchedule
  | idempotencyConflict (jobId : JobId)
  | aborted (abort : Abort)
  | valueError (message : String)
deriving DecidableEq, Repr

end Scheduling

def ScheduleOutcome.verdict : ScheduleOutcome → Scheduling.Verdict
  | .returned job created => .accepted job.id created
  | .invalidSchedule => .invalidSchedule
  | .idempotencyConflict jobId => .idempotencyConflict jobId
  | .aborted abort => .aborted abort
  | .valueError message => .valueError message

namespace Scheduling

/-- The verdict of a call once it is decided: what is left then are writes to the cache. -/
def Stage.verdict : Stage → Option Verdict
  | .puttingRead job => some (.accepted job.id false)
  | .puttingKey _ job created => some (.accepted job.id created)
  | .putting job created => some (.accepted job.id created)
  | .done outcome => some outcome.verdict
  | _ => none

def World.verdict (w : World) (i : Nat) : Option Verdict :=
  w.calls[i]?.bind fun call => call.stage.verdict

section

variable (requestHash : ScheduleJobRequest → String) (db : Db) (request : ScheduleJobRequest)

/-- What a verdict says about the tables: the job has the key and the hash of the request or,
    if it is refused, the key and another hash. -/
def VerdictFits : Verdict → Prop
  | .accepted jobId created =>
    (∃ row, getJob db jobId = some row ∧ row.idempotencyKey = request.idempotencyKey ∧
      row.requestHash = requestHash request) ∧ (request.idempotencyKey = none → created = true)
  | .idempotencyConflict jobId => ∃ key hash, request.idempotencyKey = some key ∧
      Registered db key jobId hash ∧ hash ≠ requestHash request
  | .invalidSchedule => True
  | .aborted abort => abort = .maxAttemptsCheck ∨ abort = .conflict .jobs .primaryKey
  | .valueError _ => False

/-- What holds of a call that is not decided. -/
def StageFits : Stage → Prop
  | .lookingUp key => request.idempotencyKey = some key
  | .reading jobId => ∃ key, request.idempotencyKey = some key ∧
      Registered db key jobId (requestHash request)
  | .selecting jobId => ∃ key, request.idempotencyKey = some key ∧
      Registered db key jobId (requestHash request)
  | .rereading => ∃ key jobId hash, request.idempotencyKey = some key ∧ Registered db key jobId hash
  | .puttingKey key job _ => request.idempotencyKey = some key ∧ job.requestHash = requestHash request
  | _ => True

end

/-- What the cache holds: an entry of a key names the job that the key stands for, and a body
    is stored under its own id. -/
structure CacheFits (db : Db) (redis : Redis) : Prop where
  keys : ∀ key entry, redis.idem key = some entry →
    ∃ jobId hash, entry.raw = JobCache.idemText jobId hash ∧ Registered db key jobId hash
  bodies : ∀ jobId entry, redis.jobs jobId = some entry → ∀ job ∈ entry.body, job.id = jobId

/-- The invariant of a state. -/
structure Consistent (requestHash : ScheduleJobRequest → String) (w : World) : Prop where
  cache : CacheFits w.db w.redis
  stages : ∀ call ∈ w.calls, StageFits requestHash w.db call.request call.stage
  verdicts : ∀ call ∈ w.calls, ∀ verdict ∈ call.stage.verdict,
    VerdictFits requestHash w.db call.request verdict

/-! ## The cache -/

section

variable {settings : Settings} {db : Db} {redis : Redis} {now : Time} {reply : RedisReply}

theorem call_snd {α : Type} (redis : Redis) (reply : RedisReply) (fn : Redis → α × Redis) (default : α) :
    (redis.call reply fn default).2 = redis ∨ (redis.call reply fn default).2 = (fn redis).2 := by
  cases reply with
  | answered => exact .inr rfl
  | failed applied =>
    cases applied with
    | false => exact .inl rfl
    | true => exact .inr rfl

/-- A lookup that is answered with a job names the job of the key. -/
theorem CacheFits.getIdempotency (fits : CacheFits db redis) (now : Time) (reply : RedisReply)
    (key : String) :
    JobCache.getIdempotency now key reply redis = .ok none ∨ ∃ jobId hash,
      JobCache.getIdempotency now key reply redis = .ok (some (jobId, hash)) ∧
        Registered db key jobId hash := by
  cases reply with
  | failed applied =>
    cases applied <;> exact .inl rfl
  | answered =>
    cases found : redis.getIdemEntry now key with
    | none =>
      left
      simp only [JobCache.getIdempotency, Redis.call, found]
    | some entry =>
      obtain ⟨jobId, hash, raw, registered⟩ := fits.keys key entry (Option.mem_filter_iff.mp found).1
      have split : Texts.partition '|' entry.raw = (jobId.repr, hash) := by
        rw [raw]
        exact Texts.partition_join (Texts.notMem_repr (by decide) jobId)
      have nonempty : entry.raw ≠ "" := by
        intro empty
        rw [empty] at raw
        have lengths := congrArg String.length raw
        have bar : "|".length = 1 := rfl
        simp [JobCache.idemText] at lengths
        omega
      refine .inr ⟨jobId, hash, ?_, registered⟩
      simp only [JobCache.getIdempotency, Redis.call, found, if_neg nonempty, split,
        JobCache.parseUuid, Texts.digits?_repr]

theorem CacheFits.registered_of_hit (fits : CacheFits db redis) {key : String} {jobId : JobId}
    {hash : String} (hit : JobCache.getIdempotency now key reply redis = .ok (some (jobId, hash))) :
    Registered db key jobId hash := by
  obtain missed | ⟨jobId', hash', hit', registered⟩ := fits.getIdempotency now reply key
  · cases missed.symm.trans hit
  · cases hit'.symm.trans hit
    exact registered

/-- No entry is malformed. -/
theorem CacheFits.getIdempotency_ne_error (fits : CacheFits db redis) {key message : String} :
    JobCache.getIdempotency now key reply redis ≠ .error message := by
  intro raised
  obtain missed | ⟨_, _, hit, _⟩ := fits.getIdempotency now reply key
  · cases missed.symm.trans raised
  · cases hit.symm.trans raised

theorem CacheFits.get (fits : CacheFits db redis) {jobId : JobId} {job : JobOut}
    (hit : JobCache.get now jobId reply redis = some job) : job.id = jobId := by
  cases reply with
  | failed applied => cases applied <;> cases hit
  | answered =>
    simp only [JobCache.get, Redis.call, Option.bind_eq_some_iff] at hit
    obtain ⟨entry, found, body⟩ := hit
    exact fits.bodies jobId entry (Option.mem_filter_iff.mp found).1 job body

theorem CacheFits.setJob (fits : CacheFits db redis) {jobId : JobId} {entry : Option JobEntry}
    (own : ∀ stored ∈ entry, ∀ job ∈ stored.body, job.id = jobId) :
    CacheFits db (redis.setJob jobId entry) where
  keys := fits.keys
  bodies other stored found := by
    simp only [Redis.setJob] at found
    split at found
    · next same =>
      subst same
      exact own stored found
    · exact fits.bodies other stored found

theorem CacheFits.setIdem (fits : CacheFits db redis) {key : String} {entry : Option IdemEntry}
    (own : ∀ stored ∈ entry, ∃ jobId hash, stored.raw = JobCache.idemText jobId hash ∧
      Registered db key jobId hash) : CacheFits db (redis.setIdem key entry) where
  bodies := fits.bodies
  keys other stored found := by
    simp only [Redis.setIdem] at found
    split at found
    · next same =>
      subst same
      exact own stored found
    · exact fits.keys other stored found

theorem CacheFits.setIfNewer (fits : CacheFits db redis) {jobId : JobId} {version : Int}
    {body : Option JobOut} {ttl : Nat} (own : ∀ job ∈ body, job.id = jobId) :
    CacheFits db (setIfNewer now jobId version body ttl redis).2 := by
  unfold NotifyQueue.setIfNewer
  split
  · exact fits
  · split
    · exact fits
    · apply fits.setJob
      intro stored same
      cases same
      exact own

theorem CacheFits.put (fits : CacheFits db redis) (job : JobOut) :
    CacheFits db (JobCache.put settings now job reply redis).2 := by
  unfold JobCache.put
  cases call_snd redis reply
      (NotifyQueue.setIfNewer now job.id job.version (some job) _) false with
  | inl same =>
    rw [same]
    exact fits
  | inr ran =>
    rw [ran]
    apply fits.setIfNewer
    intro other same
    cases same
    rfl

theorem CacheFits.invalidate (fits : CacheFits db redis) (jobId : JobId) (newVersion : Int) :
    CacheFits db (JobCache.invalidate settings now jobId newVersion reply redis).2 := by
  unfold JobCache.invalidate
  cases call_snd redis reply
      (NotifyQueue.setIfNewer now jobId newVersion none settings.cacheTombstoneTtl) false with
  | inl same =>
    rw [same]
    exact fits
  | inr ran =>
    rw [ran]
    apply fits.setIfNewer
    intro other same
    cases same

theorem CacheFits.putIdempotency (fits : CacheFits db redis) {key : String} {jobId : JobId}
    {hash : String} (registered : Registered db key jobId hash) :
    CacheFits db (JobCache.putIdempotency settings now key jobId hash reply redis) := by
  unfold JobCache.putIdempotency
  cases call_snd redis reply (fun redis => ((), redis.setIdem key
      (some ⟨JobCache.idemText jobId hash, now + settings.cacheIdempotencyTtl⟩))) () with
  | inl same =>
    rw [same]
    exact fits
  | inr ran =>
    rw [ran]
    apply fits.setIdem
    intro stored same
    cases same
    exact ⟨jobId, hash, rfl, registered⟩

end

/-! ## One step -/

/-- What no step takes back from the tables. -/
def Keeps (db db' : Db) : Prop :=
  ∀ jobId row, getJob db jobId = some row → ∃ row', getJob db' jobId = some row' ∧
    row'.idempotencyKey = row.idempotencyKey ∧ row'.requestHash = row.requestHash

theorem Keeps.refl (db : Db) : Keeps db db := fun _ row found => ⟨row, found, rfl, rfl⟩

theorem Keeps.of_commit {op : JobOp} {now : Time} {db db' : Db} {answer : Answer}
    (committed : op.commit now db = (answer, db')) : Keeps db db' :=
  fun _ _ found => row_kept committed found

theorem Keeps.registered {db db' : Db} (keeps : Keeps db db') {key : String} {jobId : JobId}
    {hash : String}
    (registered : Registered db key jobId hash) : Registered db' key jobId hash := by
  obtain ⟨row, found, named, hashed⟩ := registered
  obtain ⟨row', found', sameKey, sameHash⟩ := keeps jobId row found
  exact ⟨row', found', sameKey.trans named, sameHash.trans hashed⟩

section

variable {settings : Settings} {requestHash : ScheduleJobRequest → String} {db db' : Db}
  {request : ScheduleJobRequest}

theorem CacheFits.mono {redis : Redis} (fits : CacheFits db redis) (keeps : Keeps db db') :
    CacheFits db' redis where
  bodies := fits.bodies
  keys key entry found := by
    obtain ⟨jobId, hash, raw, registered⟩ := fits.keys key entry found
    exact ⟨jobId, hash, raw, keeps.registered registered⟩

theorem VerdictFits.mono {verdict : Verdict} (fits : VerdictFits requestHash db request verdict)
    (keeps : Keeps db db') : VerdictFits requestHash db' request verdict := by
  cases verdict with
  | accepted jobId created =>
    obtain ⟨⟨row, found, named, hashed⟩, unnamed⟩ := fits
    obtain ⟨row', found', sameKey, sameHash⟩ := keeps jobId row found
    exact ⟨⟨row', found', sameKey.trans named, sameHash.trans hashed⟩, unnamed⟩
  | idempotencyConflict jobId =>
    obtain ⟨key, hash, keyed, registered, other⟩ := fits
    exact ⟨key, hash, keyed, keeps.registered registered, other⟩
  | invalidSchedule => trivial
  | aborted abort => exact fits
  | valueError message => exact fits

theorem StageFits.mono {stage : Stage} (fits : StageFits requestHash db request stage)
    (keeps : Keeps db db') : StageFits requestHash db' request stage := by
  cases stage with
  | reading jobId =>
    obtain ⟨key, keyed, registered⟩ := fits
    exact ⟨key, keyed, keeps.registered registered⟩
  | selecting jobId =>
    obtain ⟨key, keyed, registered⟩ := fits
    exact ⟨key, keyed, keeps.registered registered⟩
  | rereading =>
    obtain ⟨key, jobId, hash, keyed, registered⟩ := fits
    exact ⟨key, jobId, hash, keyed, keeps.registered registered⟩
  | _ => exact fits

/-- The stage and the decision that `create_job` leads to. -/
theorem afterCreate_fits {job : Job} {created : Bool} (found : getJob db job.id = some job)
    (keyed : job.idempotencyKey = request.idempotencyKey)
    (new : created = true → job.requestHash = requestHash request)
    (unnamed : request.idempotencyKey = none → created = true) :
    StageFits requestHash db request (afterCreate requestHash request job created) ∧
      ∀ verdict ∈ (afterCreate requestHash request job created).verdict,
        VerdictFits requestHash db request verdict := by
  by_cases refused : created = false ∧ job.requestHash ≠ requestHash request
  · rw [afterCreate, if_pos refused]
    refine ⟨trivial, ?_⟩
    intro verdict decided
    cases decided
    -- a request without a key creates its own job, so it is not refused
    cases named : request.idempotencyKey with
    | none =>
      rw [unnamed named] at refused
      exact absurd refused.1 (by simp)
    | some key => exact ⟨key, _, named, ⟨job, found, keyed.trans named, rfl⟩, refused.2⟩
  · have hashed : job.requestHash = requestHash request := by
      cases created with
      | true => exact new rfl
      | false => simpa using refused
    have fits : VerdictFits requestHash db request (.accepted job.id created) :=
      ⟨⟨job, found, keyed, hashed⟩, unnamed⟩
    rw [afterCreate, if_neg refused]
    cases named : request.idempotencyKey with
    | none =>
      refine ⟨trivial, ?_⟩
      intro verdict decided
      cases decided
      exact fits
    | some key =>
      refine ⟨⟨named, hashed⟩, ?_⟩
      intro verdict decided
      cases decided
      exact fits

theorem accepted_of_registered {key : String} {jobId : JobId} (named : request.idempotencyKey = some key)
    (registered : Registered db key jobId (requestHash request)) :
    VerdictFits requestHash db request (.accepted jobId false) := by
  obtain ⟨row, found, keyed, hashed⟩ := registered
  refine ⟨⟨row, found, keyed.trans named.symm, hashed⟩, ?_⟩
  intro unnamed
  rw [named] at unnamed
  cases unnamed

/-- The step lemma of one call. -/
theorem CallStep.fits {w : World} {stage stage' : Stage} {action : CallAction} {redis' : Redis}
    (step : CallStep settings requestHash w request stage action (stage', db', redis'))
    (cache : CacheFits w.db w.redis) (fits : StageFits requestHash w.db request stage)
    (decided : ∀ verdict ∈ stage.verdict, VerdictFits requestHash w.db request verdict) :
    Keeps w.db db' ∧ CacheFits db' redis' ∧ StageFits requestHash db' request stage' ∧
      ∀ verdict ∈ stage'.verdict, VerdictFits requestHash db' request verdict := by
  cases step with
  | keyMissed _ => exact ⟨.refl _, cache, trivial, by simp [Stage.verdict]⟩
  | keyMalformed raised => exact absurd raised cache.getIdempotency_ne_error
  | @keyRefused key hash reply jobId hit other =>
    have registered := cache.registered_of_hit hit
    refine ⟨.refl _, cache, trivial, ?_⟩
    intro verdict same
    cases same
    exact ⟨key, hash, fits, registered, other⟩
  | @keyFound key reply jobId hit =>
    have registered := cache.registered_of_hit hit
    exact ⟨.refl _, cache, ⟨key, fits, registered⟩, by simp [Stage.verdict]⟩
  | @readCached jobId reply job hit =>
    obtain ⟨key, named, registered⟩ := fits
    refine ⟨.refl _, cache, trivial, ?_⟩
    intro verdict same
    cases same
    rw [← cache.get hit] at registered
    exact accepted_of_registered named registered
  | readMissed => exact ⟨.refl _, cache, fits, by simp [Stage.verdict]⟩
  | @selected jobId job found =>
    obtain ⟨key, named, registered⟩ := fits
    refine ⟨.refl _, cache, trivial, ?_⟩
    intro verdict same
    cases same
    rw [← Table.pk_of_lookup found] at registered
    exact accepted_of_registered named registered
  | selectMissed _ => exact ⟨.refl _, cache, trivial, by simp [Stage.verdict]⟩
  | @readPut job reply => exact ⟨.refl _, cache.put job, trivial, decided⟩
  | @inserted id began job db past ran =>
    have how := insertJob_cases began id (newJob settings requestHash request) w.db
    rw [ran] at how
    cases how with
    | created _ absent committed present others =>
      have keeps := Keeps.of_commit committed
      exact ⟨keeps, cache.mono keeps, afterCreate_fits present rfl (fun _ => rfl) (fun _ => rfl)⟩
  | @insertIgnored id began db past ran =>
    have how := insertJob_cases began id (newJob settings requestHash request) w.db
    rw [ran] at how
    cases how with
    | taken named registered =>
      exact ⟨.refl _, cache, ⟨_, _, _, named, registered⟩, by simp [Stage.verdict]⟩
  | @insertAborted id began abort past ran =>
    have how := insertJob_cases began id (newJob settings requestHash request) w.db
    rw [ran] at how
    cases how with
    | tooFew few =>
      refine ⟨.refl _, cache, trivial, ?_⟩
      intro verdict same
      cases same
      exact .inl rfl
    | repeated found =>
      refine ⟨.refl _, cache, trivial, ?_⟩
      intro verdict same
      cases same
      exact .inr rfl
  | @reread job ran =>
    obtain ⟨key, jobId, hash, named, registered⟩ := fits
    -- the insert was ignored because the key had a job, which is still there
    obtain ⟨row, existing, rfl, keyed, _, found⟩ := existingJob_of_registered
      (newJob settings requestHash request) named registered
    cases ran.symm.trans existing
    refine ⟨.refl _, cache, afterCreate_fits found (keyed.trans named.symm) ?_ ?_⟩
    · intro created
      cases created
    · intro unnamed
      rw [named] at unnamed
      cases unnamed
  | @rereadAborted abort ran =>
    obtain ⟨key, jobId, hash, named, registered⟩ := fits
    obtain ⟨row, existing, _⟩ := existingJob_of_registered
      (newJob settings requestHash request) named registered
    cases ran.symm.trans existing
  | @keyPut key job created reply =>
    obtain ⟨named, hashed⟩ := fits
    obtain ⟨⟨row, found, keyed, sameHash⟩, _⟩ := decided (.accepted job.id created) rfl
    -- what the call decided on says whose key this is
    have registered : Registered w.db key job.id job.requestHash :=
      ⟨row, found, keyed.trans named, sameHash.trans hashed.symm⟩
    exact ⟨.refl _, cache.putIdempotency registered, trivial, decided⟩
  | @jobPut job created reply => exact ⟨.refl _, cache.put job, trivial, decided⟩

/-- A decision is not taken back. -/
theorem CallStep.verdict_kept {w : World} {stage stage' : Stage} {action : CallAction} {redis' : Redis}
    (step : CallStep settings requestHash w request stage action (stage', db', redis'))
    {verdict : Verdict} (decided : stage.verdict = some verdict) : stage'.verdict = some verdict := by
  cases step <;> first | exact decided | cases decided

theorem verdict_afterCreate (requestHash : ScheduleJobRequest → String) (request : ScheduleJobRequest)
    (job : Job) (created : Bool) :
    (afterCreate requestHash request job created).verdict =
      some (if created = false ∧ job.requestHash ≠ requestHash request then
        .idempotencyConflict job.id else .accepted job.id created) := by
  unfold afterCreate
  split
  · rfl
  · split <;> rfl

/-- A call creates at most one job, and is then the one that created it. -/
theorem CallStep.creation {w : World} {stage stage' : Stage} {action : CallAction} {redis' : Redis}
    (step : CallStep settings requestHash w request stage action (stage', db', redis')) :
    (db' = w.db ∧ ∀ jobId, stage'.verdict = some (.accepted jobId true) →
      stage.verdict = some (.accepted jobId true)) ∨
    ∃ jobId, stage.verdict = none ∧ stage'.verdict = some (.accepted jobId true) ∧
      getJob w.db jobId = none ∧ ∀ j, j ≠ jobId → getJob db' j = getJob w.db j := by
  cases step with
  | @inserted id began job db past ran =>
    have how := insertJob_cases began id (newJob settings requestHash request) w.db
    rw [ran] at how
    cases how with
    | created _ absent committed present others =>
      refine .inr ⟨id, rfl, ?_, absent, others⟩
      rw [verdict_afterCreate, if_neg (by simp)]
      rfl
  | @insertIgnored id began db past ran =>
    have how := insertJob_cases began id (newJob settings requestHash request) w.db
    rw [ran] at how
    cases how with
    | taken _ _ => exact .inl ⟨rfl, fun jobId decided => by cases decided⟩
  | @reread job ran =>
    refine .inl ⟨rfl, fun jobId decided => ?_⟩
    rw [verdict_afterCreate] at decided
    split at decided <;> cases decided
  | keyPut => exact .inl ⟨rfl, fun jobId decided => decided⟩
  | jobPut => exact .inl ⟨rfl, fun jobId decided => decided⟩
  | readPut => exact .inl ⟨rfl, fun jobId decided => decided⟩
  | _ => exact .inl ⟨rfl, fun jobId decided => by cases decided⟩

end

/-! ## The whole system -/

inductive WorldStep (settings : Settings) (requestHash : ScheduleJobRequest → String) (w : World) :
    Action → World → Prop where
  | tick {elapsed : Time} (forward : 0 ≤ elapsed) :
      WorldStep settings requestHash w (.tick elapsed) { w with now := w.now + elapsed }
  | submit (request : ScheduleJobRequest) :
      WorldStep settings requestHash w (.submit request)
        { w with calls := w.calls ++ [submit request w.now] }
  | call {i : Nat} {action : CallAction} {call : Call} {stage : Stage} {db : Db} {redis : Redis}
      (found : w.calls[i]? = some call)
      (stepped : CallStep settings requestHash w call.request call.stage action (stage, db, redis)) :
      WorldStep settings requestHash w (.call i action)
        { w with db, redis, calls := w.calls.set i { call with stage } }
  | outside {op : JobOp} {began : Time} {answer : Answer} {db : Db} (outside : isOutside op = true)
      (past : began ≤ w.now) (committed : op.commit began w.db = (answer, db)) :
      WorldStep settings requestHash w (.outside op began) { w with db }
  | putRead (job : JobOut) (reply : RedisReply) :
      WorldStep settings requestHash w (.putRead job reply)
        { w with redis := (JobCache.put settings w.now job reply w.redis).2 }
  | invalidate (jobId : JobId) (newVersion : Int) (reply : RedisReply) :
      WorldStep settings requestHash w (.invalidate jobId newVersion reply)
        { w with redis := (JobCache.invalidate settings w.now jobId newVersion reply w.redis).2 }
  | dropJob (jobId : JobId) :
      WorldStep settings requestHash w (.dropJob jobId) { w with redis := w.redis.setJob jobId none }
  | dropKey (key : String) :
      WorldStep settings requestHash w (.dropKey key) { w with redis := w.redis.setIdem key none }

section

variable {settings : Settings} {requestHash : ScheduleJobRequest → String} {w w' : World}
    {action : Action}

/-- Only the first check decides at once. -/
theorem verdict_of_submit {request : ScheduleJobRequest} {now : Time} {verdict : Verdict}
    (decided : (submit request now).stage.verdict = some verdict) : verdict = .invalidSchedule := by
  obtain ⟨_, stage⟩ | ⟨_, ⟨key, _, stage⟩ | stage⟩ := submit_stage request now
  · rw [stage] at decided
    cases decided
    rfl
  · rw [stage] at decided
    cases decided
  · rw [stage] at decided
    cases decided

theorem World.step_cases (stepped : w.step settings requestHash action = some w') :
    WorldStep settings requestHash w action w' := by
  cases action with
  | tick elapsed =>
    simp only [World.step, Option.ite_none_right_eq_some, Option.some.injEq] at stepped
    obtain ⟨forward, rfl⟩ := stepped
    exact .tick forward
  | submit request =>
    cases stepped
    exact .submit request
  | call i action =>
    simp only [World.step] at stepped
    split at stepped
    · cases stepped
    · next call found =>
      split at stepped
      · cases stepped
      · next stage db redis stepped' =>
        cases stepped
        exact .call found (callStep_cases stepped')
  | outside op began =>
    simp only [World.step, Option.ite_none_right_eq_some, Option.some.injEq] at stepped
    obtain ⟨⟨outside, past⟩, rfl⟩ := stepped
    exact .outside outside past rfl
  | putRead job reply =>
    cases stepped
    exact .putRead job reply
  | invalidate jobId newVersion reply =>
    cases stepped
    exact .invalidate jobId newVersion reply
  | dropJob jobId =>
    cases stepped
    exact .dropJob jobId
  | dropKey key =>
    cases stepped
    exact .dropKey key

theorem Consistent.step (consistent : Consistent requestHash w)
    (step : WorldStep settings requestHash w action w') : Consistent requestHash w' := by
  cases step with
  | tick _ => exact ⟨consistent.cache, consistent.stages, consistent.verdicts⟩
  | submit request =>
    refine ⟨consistent.cache, ?_, ?_⟩
    · intro call member
      rw [List.mem_append, List.mem_singleton] at member
      cases member with
      | inl old => exact consistent.stages call old
      | inr new =>
        subst new
        obtain ⟨_, stage⟩ | ⟨_, ⟨key, named, stage⟩ | stage⟩ := submit_stage request w.now
        · rw [stage]
          trivial
        · rw [stage]
          exact named
        · rw [stage]
          trivial
    · intro call member verdict decided
      rw [List.mem_append, List.mem_singleton] at member
      cases member with
      | inl old => exact consistent.verdicts call old verdict decided
      | inr new =>
        subst new
        cases verdict_of_submit decided
        trivial
  | @call i callAction call stage db redis found stepped =>
    have inWorld := List.mem_of_getElem? found
    obtain ⟨keeps, cache, stageFits, verdictFits⟩ := stepped.fits consistent.cache
      (consistent.stages call inWorld) (consistent.verdicts call inWorld)
    refine ⟨cache, ?_, ?_⟩
    · intro other member
      cases List.mem_or_eq_of_mem_set member with
      | inl old => exact (consistent.stages other old).mono keeps
      | inr new =>
        subst new
        exact stageFits
    · intro other member verdict decided
      cases List.mem_or_eq_of_mem_set member with
      | inl old => exact (consistent.verdicts other old verdict decided).mono keeps
      | inr new =>
        subst new
        exact verdictFits verdict decided
  | outside _ _ committed =>
    -- operations keep ids, keys and hashes, so what fitted still fits
    have keeps := Keeps.of_commit committed
    exact ⟨consistent.cache.mono keeps, fun call member => (consistent.stages call member).mono keeps,
      fun call member verdict decided => (consistent.verdicts call member verdict decided).mono keeps⟩
  | putRead job reply => exact ⟨consistent.cache.put job, consistent.stages, consistent.verdicts⟩
  | invalidate jobId newVersion reply =>
    exact ⟨consistent.cache.invalidate jobId newVersion, consistent.stages, consistent.verdicts⟩
  | dropJob jobId =>
    exact ⟨consistent.cache.setJob (by simp), consistent.stages, consistent.verdicts⟩
  | dropKey key =>
    exact ⟨consistent.cache.setIdem (by simp), consistent.stages, consistent.verdicts⟩

theorem consistent_of_run {history : ScheduleHistory}
    (run : Run (scheduling settings requestHash) history w) : Consistent requestHash w := by
  refine Run.state_invariant (I := Consistent requestHash) ?_ ?_ run
  · rintro _ ⟨start, rfl⟩
    refine ⟨⟨?_, ?_⟩, ?_, ?_⟩
    · intro key entry found
      cases found
    · intro jobId entry found
      cases found
    · intro call member
      cases member
    · intro call member
      cases member
  · intro w action w' consistent step
    exact consistent.step (World.step_cases step)

/-! ## Creators -/

/-- Every row was created by exactly one call. -/
structure Created (w : World) : Prop where
  unique : ∀ i k jobId, w.verdict i = some (.accepted jobId true) →
    w.verdict k = some (.accepted jobId true) → i = k
  creator : ∀ jobId row, getJob w.db jobId = some row → ∃ i, w.verdict i = some (.accepted jobId true)

theorem verdict_set {i k : Nat} {call : Call} (found : w.calls[i]? = some call) {stage : Stage}
    {db : Db} {redis : Redis} :
    ({ w with db, redis, calls := w.calls.set i { call with stage } } : World).verdict k =
      if i = k then stage.verdict else w.verdict k := by
  have bound := (List.getElem?_eq_some_iff.mp found).1
  by_cases same : i = k
  · subst same
    simp [World.verdict, bound]
  · simp [World.verdict, List.getElem?_set_ne same, same]

theorem verdict_of_found {i : Nat} {call : Call} (found : w.calls[i]? = some call) :
    w.verdict i = call.stage.verdict := by
  simp [World.verdict, found]

/-- The job that a decided call names exists. -/
theorem Consistent.present (consistent : Consistent requestHash w) {i : Nat} {jobId : JobId}
    {created : Bool} (decided : w.verdict i = some (.accepted jobId created)) :
    ∃ row, getJob w.db jobId = some row := by
  obtain ⟨call, found, verdict⟩ := Option.bind_eq_some_iff.mp decided
  obtain ⟨⟨row, foundRow, _⟩, _⟩ := consistent.verdicts call (List.mem_of_getElem? found) _ verdict
  exact ⟨row, foundRow⟩

theorem verdict_submit {request : ScheduleJobRequest} {k : Nat} {jobId : JobId} {created : Bool} :
    ({ w with calls := w.calls ++ [submit request w.now] } : World).verdict k =
      some (.accepted jobId created) ↔ w.verdict k = some (.accepted jobId created) := by
  simp only [World.verdict, List.getElem?_append]
  split
  · rfl
  · next late =>
    have absent : w.calls[k]? = none := List.getElem?_eq_none (not_lt.mp late)
    rw [absent]
    constructor
    · intro decided
      obtain ⟨call, found, verdict⟩ := Option.bind_eq_some_iff.mp decided
      rw [List.getElem?_singleton] at found
      split at found
      · cases found
        cases verdict_of_submit verdict
      · cases found
    · intro decided
      cases decided

section

variable {i : Nat} {call : Call} {stage : Stage} {db : Db} {redis : Redis}

/-- What was decided stays decided. -/
theorem verdict_set_kept (found : w.calls[i]? = some call)
    (keeps : ∀ verdict, call.stage.verdict = some verdict → stage.verdict = some verdict)
    {k : Nat} {verdict : Verdict} (decided : w.verdict k = some verdict) :
    ({ w with db, redis, calls := w.calls.set i { call with stage } } : World).verdict k =
      some verdict := by
  rw [verdict_set found]
  split
  · next same =>
    subst same
    exact keeps verdict ((verdict_of_found found).symm.trans decided)
  · exact decided

/-- A step of a call that creates no job. -/
theorem Created.callIdle (created : Created w) (found : w.calls[i]? = some call)
    (keeps : ∀ verdict, call.stage.verdict = some verdict → stage.verdict = some verdict)
    (sameDb : db = w.db)
    (old : ∀ jobId, stage.verdict = some (.accepted jobId true) →
      call.stage.verdict = some (.accepted jobId true)) :
    Created { w with db, redis, calls := w.calls.set i { call with stage } } := by
  have earlier : ∀ k jobId,
      ({ w with db, redis, calls := w.calls.set i { call with stage } } : World).verdict k =
        some (.accepted jobId true) → w.verdict k = some (.accepted jobId true) := by
    intro k jobId decided
    rw [verdict_set found] at decided
    split at decided
    · next same =>
      subst same
      exact (verdict_of_found found).trans (old jobId decided)
    · exact decided
  subst sameDb
  constructor
  · intro k l jobId decided decided'
    exact created.unique k l jobId (earlier k jobId decided) (earlier l jobId decided')
  · intro jobId row foundRow
    obtain ⟨k, decided⟩ := created.creator jobId row foundRow
    exact ⟨k, verdict_set_kept found keeps decided⟩

/-- The step of a call that creates a job. -/
theorem Created.callCreates (created : Created w) (consistent : Consistent requestHash w)
    (found : w.calls[i]? = some call)
    (keeps : ∀ verdict, call.stage.verdict = some verdict → stage.verdict = some verdict)
    {newId : JobId} (decides : stage.verdict = some (.accepted newId true))
    (absent : getJob w.db newId = none)
    (others : ∀ jobId, jobId ≠ newId → getJob db jobId = getJob w.db jobId) :
    Created { w with db, redis, calls := w.calls.set i { call with stage } } := by
  -- nobody else has the new job, and the call had none before
  have creatorIs : ∀ k,
      ({ w with db, redis, calls := w.calls.set i { call with stage } } : World).verdict k =
        some (.accepted newId true) → k = i := by
    intro k decided
    rw [verdict_set found] at decided
    split at decided
    · next same => exact same.symm
    · obtain ⟨row, present⟩ := consistent.present decided
      cases absent.symm.trans present
  have earlier : ∀ k jobId, jobId ≠ newId →
      ({ w with db, redis, calls := w.calls.set i { call with stage } } : World).verdict k =
        some (.accepted jobId true) → w.verdict k = some (.accepted jobId true) := by
    intro k jobId other decided
    rw [verdict_set found] at decided
    split at decided
    · cases decides.symm.trans decided
      exact absurd rfl other
    · exact decided
  constructor
  · intro k l jobId decided decided'
    by_cases new : jobId = newId
    · subst new
      rw [creatorIs k decided, creatorIs l decided']
    · exact created.unique k l jobId (earlier k jobId new decided) (earlier l jobId new decided')
  · intro jobId row foundRow
    by_cases new : jobId = newId
    · subst new
      refine ⟨i, ?_⟩
      rw [verdict_set found, if_pos rfl]
      exact decides
    · have foundRow : getJob db jobId = some row := foundRow
      rw [others jobId new] at foundRow
      obtain ⟨k, decided⟩ := created.creator jobId row foundRow
      exact ⟨k, verdict_set_kept found keeps decided⟩

end

theorem Created.step (created : Created w) (consistent : Consistent requestHash w)
    (step : WorldStep settings requestHash w action w') : Created w' := by
  cases step with
  | submit request =>
    constructor
    · intro i k jobId decided decided'
      exact created.unique i k jobId (verdict_submit.mp decided) (verdict_submit.mp decided')
    · intro jobId row found
      obtain ⟨i, decided⟩ := created.creator jobId row found
      exact ⟨i, verdict_submit.mpr decided⟩
  | outside outside _ committed =>
    constructor
    · exact created.unique
    · intro jobId row' found'
      obtain ⟨row, found⟩ := row_of_outside outside committed found'
      exact created.creator jobId row found
  | call found stepped =>
    cases stepped.creation with
    | inl idle => exact created.callIdle found (fun _ => stepped.verdict_kept) idle.1 idle.2
    | inr creates =>
      obtain ⟨newId, _, decides, absent, others⟩ := creates
      exact created.callCreates consistent found (fun _ => stepped.verdict_kept) decides absent others
  | _ => exact ⟨created.unique, created.creator⟩

theorem created_of_run {history : ScheduleHistory}
    (run : Run (scheduling settings requestHash) history w) : Created w := by
  have holds : Consistent requestHash w ∧ Created w := by
    refine Run.state_invariant (I := fun w => Consistent requestHash w ∧ Created w) ?_ ?_ run
    · rintro w ⟨start, rfl⟩
      refine ⟨consistent_of_run (.start ⟨start, rfl⟩ : Run (scheduling settings requestHash) [] _),
        ?_, ?_⟩
      · intro i k jobId decided
        cases decided
      · intro jobId row found
        cases found
    · rintro w action w' ⟨consistent, created⟩ step
      have worldStep := World.step_cases step
      exact ⟨consistent.step worldStep, created.step consistent worldStep⟩
  exact holds.2

end

end Scheduling

end NotifyQueue
