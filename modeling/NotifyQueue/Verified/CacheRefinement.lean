import NotifyQueue.Verified.ScheduleSteps

/-! # Scheduling with a cache refines scheduling without one

A run with the cache is answered by a run of the same service with the cache disabled: a
call that the cache answers goes through `create_job` there, at the moment at which it is
answered.  The two runs agree on the tables and on every verdict, whatever Redis does. -/

namespace NotifyQueue

open Runs Tables

namespace Scheduling

/-- The verdict that `create_job` leads to when it runs on the tables. -/
def uncachedVerdict (settings : Settings) (requestHash : ScheduleJobRequest → String) (now : Time)
    (id : JobId) (request : ScheduleJobRequest) (db : Db) : Verdict :=
  match createJob now id (newJob settings requestHash request) db with
  | .error abort => .aborted abort
  | .ok ((job, created), _) =>
    if created = false ∧ job.requestHash ≠ requestHash request then .idempotencyConflict job.id
    else .accepted job.id created

/-- `gen_random_uuid` draws an id that no job has. -/
def drawsFresh (taken : Taken World Action) : Bool :=
  match taken.label with
  | .call _ (.insert id _) => (getJob taken.before.db id).isNone
  | _ => true

abbrev freshScheduling (settings : Settings) (requestHash : ScheduleJobRequest → String) :
    System World Action :=
  (scheduling settings requestHash).restrict fun taken => drawsFresh taken = true

abbrev freshUncached (settings : Settings) (requestHash : ScheduleJobRequest → String) :
    System World Action :=
  (uncachedScheduling settings requestHash).restrict fun taken => drawsFresh taken = true

section

variable {settings : Settings} {requestHash : ScheduleJobRequest → String}

theorem maxAttempts_pos (attempts : 1 ≤ settings.maxAttempts) (request : ScheduleJobRequest) :
    1 ≤ maxAttempts settings request := by
  unfold maxAttempts
  split
  · next own given =>
    have range := request.attemptsInRange own given
    split
    · exact attempts
    · exact range.1
  · exact attempts

/-! ## Steps of the uncached service -/

/-- The state in which a call is at another stage. -/
def World.withStage (t : World) (i : Nat) (call : Call) (stage : Stage) (db : Db) : World :=
  { t with db, calls := t.calls.set i { call with stage } }

section

variable {t : World} {i : Nat} {call : Call} {stage stage' : Stage} {db db' : Db}

theorem withStage_self (found : t.calls[i]? = some call) :
    t.withStage i call call.stage t.db = t := by
  have same : t.calls.set i call = t.calls := by
    apply List.ext_getElem?
    intro k
    by_cases here : i = k
    · subst here
      have bound := (List.getElem?_eq_some_iff.mp found).1
      rw [List.getElem?_set_self bound, found]
    · rw [List.getElem?_set_ne here]
  unfold World.withStage
  rw [same]

/-- One step of a call that does not touch Redis. -/
theorem withStage_step (action : CallAction) (found : t.calls[i]? = some call)
    (uncached : (Action.call i action).uncached = true)
    (drawn : ∀ id began, action = .insert id began → getJob db id = none)
    (stepped : callStep settings requestHash (t.withStage i call stage db) call.request stage action =
      some (stage', db', t.redis)) :
    Steps (freshUncached settings requestHash) (t.withStage i call stage db)
      (t.withStage i call stage' db') := by
  have bound := (List.getElem?_eq_some_iff.mp found).1
  apply Steps.single (e := .call i action)
  constructor
  · show uncachedStep settings requestHash (t.withStage i call stage db) (.call i action) = _
    have found' : (t.withStage i call stage db).calls[i]? = some { call with stage } := by
      simp [World.withStage, bound]
    simp only [uncachedStep, uncached, if_true, World.step, found', stepped]
    simp [World.withStage]
  · cases action with
    | insert id began => exact Option.isNone_iff_eq_none.mpr (drawn id began rfl)
    | _ => rfl

theorem insert_steps (found : t.calls[i]? = some call) {id : JobId} (began : Time)
    (undrawn : getJob db id = none)
    (stepped : callStep settings requestHash (t.withStage i call .inserting db) call.request .inserting
      (.insert id began) = some (stage', db', t.redis)) :
    Steps (freshUncached settings requestHash) (t.withStage i call .inserting db)
      (t.withStage i call stage' db') := by
  refine withStage_step (.insert id began) found rfl ?_ stepped
  intro _ _ same
  cases same
  exact undrawn

/-- A decided call ends with its verdict. -/
theorem steps_done (settings : Settings) (requestHash : ScheduleJobRequest → String) (db : Db)
    {verdict : Verdict} (found : t.calls[i]? = some call)
    (decided : stage.verdict = some verdict) :
    ∃ outcome : ScheduleOutcome, outcome.verdict = verdict ∧
      Steps (freshUncached settings requestHash) (t.withStage i call stage db)
        (t.withStage i call (.done outcome) db) := by
  have putting : ∀ job created, Steps (freshUncached settings requestHash)
      (t.withStage i call (.putting job created) db)
      (t.withStage i call (.done (.returned job created)) db) :=
    fun job created => withStage_step (.redis (.failed false)) found rfl (by simp) rfl
  cases stage with
  | puttingRead job =>
    cases decided
    exact ⟨.returned job false, rfl, withStage_step (.redis (.failed false)) found rfl (by simp) rfl⟩
  | puttingKey key job created =>
    cases decided
    have first : Steps (freshUncached settings requestHash)
        (t.withStage i call (.puttingKey key job created) db)
        (t.withStage i call (.putting (.fromDomain job) created) db) :=
      withStage_step (.redis (.failed false)) found rfl (by simp) rfl
    exact ⟨.returned (.fromDomain job) created, rfl, first.trans (putting _ _)⟩
  | putting job created =>
    cases decided
    exact ⟨.returned job created, rfl, putting job created⟩
  | done outcome =>
    cases decided
    exact ⟨outcome, rfl, .refl⟩
  | _ => cases decided

/-- A call whose key is registered finds the job of the key. -/
theorem create_registered (requestHash : ScheduleJobRequest → String)
    (attempts : 1 ≤ settings.maxAttempts) (found : t.calls[i]? = some call)
    {key : String} {jobId : JobId} {hash : String} (named : call.request.idempotencyKey = some key)
    (registered : Registered db key jobId hash) :
    ∃ job : Job, job.id = jobId ∧ job.requestHash = hash ∧
      Steps (freshUncached settings requestHash) (t.withStage i call .inserting db)
        (t.withStage i call (afterCreate requestHash call.request job false) db) := by
  obtain ⟨job, existing, sameId, _, sameHash, _⟩ := existingJob_of_registered
    (newJob settings requestHash call.request) named registered
  refine ⟨job, sameId, sameHash, ?_⟩
  obtain ⟨id, fresh⟩ := db.jobs.exists_fresh
  have ignored : insertJob t.now id (newJob settings requestHash call.request) db = .ok (none, db) :=
    insertJob_of_registered (maxAttempts_pos attempts call.request) named registered
  have first : Steps (freshUncached settings requestHash) (t.withStage i call .inserting db)
      (t.withStage i call .rereading db) := by
    apply insert_steps found t.now fresh
    simp only [callStep, World.withStage, le_refl, if_true, ignored]
  apply first.trans
  apply withStage_step .select found rfl (by simp)
  simp only [callStep, World.withStage, existing]

end

/-! ## The simulation -/

/-- Where the uncached call is while the other one is not decided. -/
def Stage.uncached : Stage → Stage
  | .rereading => .rereading
  | _ => .inserting

/-- Once a call is decided, the uncached one has ended with the same verdict. -/
structure CallTracks (call call' : Call) : Prop where
  request : call'.request = call.request
  undecided : call.stage.verdict = none → call'.stage = call.stage.uncached
  decided : ∀ verdict, call.stage.verdict = some verdict →
    ∃ outcome, call'.stage = .done outcome ∧ outcome.verdict = verdict

structure Tracks (w t : World) : Prop where
  now : t.now = w.now
  db : t.db = w.db
  length : t.calls.length = w.calls.length
  calls : ∀ (i : Nat) (call : Call), w.calls[i]? = some call →
    ∃ call', t.calls[i]? = some call' ∧ CallTracks call call'

section

variable {w t : World} {i : Nat} {call call' : Call} {stage stage' : Stage} {db : Db} {redis : Redis}

/-- Both calls move, and are related again. -/
theorem Tracks.set (tracks : Tracks w t)
    (related : CallTracks { call with stage } { call' with stage := stage' }) :
    Tracks { w with db, redis, calls := w.calls.set i { call with stage } }
      (t.withStage i call' stage' db)
    where
  now := tracks.now
  db := rfl
  length := by simp [World.withStage, tracks.length]
  calls k other foundOther := by
    have foundOther : (w.calls.set i { call with stage })[k]? = some other := foundOther
    show ∃ other', (t.calls.set i { call' with stage := stage' })[k]? = some other' ∧
      CallTracks other other'
    by_cases here : i = k
    · subst here
      have bound := (List.getElem?_eq_some_iff.mp foundOther).1
      rw [List.length_set] at bound
      rw [List.getElem?_set_self bound] at foundOther
      cases foundOther
      rw [List.getElem?_set_self (by rw [tracks.length]; exact bound)]
      exact ⟨_, rfl, related⟩
    · rw [List.getElem?_set_ne here] at foundOther ⊢
      exact tracks.calls k other foundOther

/-- The other call ends, with the verdict that this one has now. -/
theorem Tracks.finish (tracks : Tracks w t) (redis : Redis) (found' : t.calls[i]? = some call')
    (related : CallTracks call call')
    {verdict : Verdict} (decides : stage.verdict = some verdict)
    {outcome : ScheduleOutcome} (agrees : outcome.verdict = verdict)
    (steps : Steps (freshUncached settings requestHash) (t.withStage i call' call'.stage t.db)
      (t.withStage i call' (.done outcome) db)) :
    ∃ t', Steps (freshUncached settings requestHash) t t' ∧
      Tracks { w with db, redis, calls := w.calls.set i { call with stage } } t' := by
  rw [withStage_self found'] at steps
  refine ⟨_, steps, tracks.set ⟨related.request, ?_, ?_⟩⟩
  · intro undecided
    cases undecided.symm.trans decides
  · intro verdict' decides'
    cases decides.symm.trans decides'
    exact ⟨outcome, rfl, agrees⟩

theorem Tracks.stutter (tracks : Tracks w t) (found' : t.calls[i]? = some call')
    (related : CallTracks { call with stage } call') :
    ∃ t', Steps (freshUncached settings requestHash) t t' ∧
      Tracks { w with db := w.db, redis, calls := w.calls.set i { call with stage } } t' := by
  have again : Tracks { w with db := w.db, redis, calls := w.calls.set i { call with stage } }
      (t.withStage i call' call'.stage w.db) := tracks.set related
  rw [← tracks.db, withStage_self found', tracks.db] at again
  exact ⟨t, .refl, again⟩

/-- A call that the cache answers with what is registered is answered by `create_job` too. -/
theorem Tracks.answer (attempts : 1 ≤ settings.maxAttempts) (tracks : Tracks w t)
    (found' : t.calls[i]? = some call') (related : CallTracks call call')
    (inserting : call'.stage = .inserting) {key : String} {jobId : JobId} {hash : String}
    (named : call.request.idempotencyKey = some key) (registered : Registered w.db key jobId hash)
    (decides : stage.verdict = some (if hash ≠ requestHash call.request then
      .idempotencyConflict jobId else .accepted jobId false)) :
    ∃ t', Steps (freshUncached settings requestHash) t t' ∧
      Tracks { w with db := w.db, redis, calls := w.calls.set i { call with stage } } t' := by
  rw [← related.request] at named decides
  rw [← tracks.db] at registered
  obtain ⟨job, sameId, sameHash, created⟩ := create_registered requestHash attempts
    found' named registered
  have decided : (afterCreate requestHash call'.request job false).verdict = stage.verdict := by
    rw [verdict_afterCreate, decides, sameId, sameHash]
    simp
  obtain ⟨outcome, agrees, ends⟩ := steps_done settings requestHash t.db found' (decided.trans decides)
  have answered := tracks.finish redis found' related decides agrees
    (by rw [inserting]; exact created.trans ends)
  rw [tracks.db] at answered
  exact answered

/-- One step of a call, answered by finitely many of the uncached one. -/
theorem Tracks.callStep (attempts : 1 ≤ settings.maxAttempts) (consistent : Consistent requestHash w)
    (tracks : Tracks w t) (found : w.calls[i]? = some call) {action : CallAction}
    (fresh : ∀ id began, action = .insert id began → getJob w.db id = none)
    (stepped : CallStep settings requestHash w call.request call.stage action (stage, db, redis)) :
    ∃ t', Steps (freshUncached settings requestHash) t t' ∧
      Tracks { w with db, redis, calls := w.calls.set i { call with stage } } t' := by
  obtain ⟨call', found', related⟩ := tracks.calls i call found
  have drawn : ∀ {id : JobId} {began : Time}, action = .insert id began → getJob t.db id = none := by
    intro id began same
    rw [tracks.db]
    exact fresh id began same
  have fits := consistent.stages call (List.mem_of_getElem? found)
  have undecided : call.stage.verdict = none → call'.stage = call.stage.uncached := related.undecided
  have moves : ∀ {next : Stage}, call.stage.verdict = none → next.verdict = none →
      next.uncached = call.stage.uncached → CallTracks { call with stage := next } call' := by
    intro next before after same
    refine ⟨related.request, fun _ => (related.undecided before).trans same.symm, ?_⟩
    intro verdict decided
    cases after.symm.trans decided
  have stays : ∀ {next : Stage} {verdict : Verdict}, call.stage.verdict = some verdict →
      next.verdict = some verdict → CallTracks { call with stage := next } call' := by
    intro next verdict before after
    refine ⟨related.request, ?_, ?_⟩
    · intro undecided
      cases undecided.symm.trans after
    · intro verdict' decided
      cases after.symm.trans decided
      exact related.decided verdict before
  -- one case for each stage: the cached path stutters until it has decided
  generalize before : call.stage = stage₀ at stepped fits undecided moves stays
  cases stepped with
  | keyMissed _ => exact tracks.stutter found' (moves rfl rfl rfl)
  | keyMalformed raised => exact absurd raised consistent.cache.getIdempotency_ne_error
  | @keyRefused key hash reply jobId hit other =>
    have registered := consistent.cache.registered_of_hit hit
    apply tracks.answer attempts found' related (undecided rfl) fits registered
    rw [if_pos other]
    rfl
  | keyFound _ => exact tracks.stutter found' (moves rfl rfl rfl)
  | @readCached jobId reply job hit =>
    obtain ⟨key, named, registered⟩ := fits
    apply tracks.answer attempts found' related (undecided rfl) named registered
    rw [if_neg (by simp), ← consistent.cache.get hit]
    rfl
  | readMissed => exact tracks.stutter found' (moves rfl rfl rfl)
  | @selected jobId job foundRow =>
    obtain ⟨key, named, registered⟩ := fits
    apply tracks.answer attempts found' related (undecided rfl) named registered
    rw [if_neg (by simp), ← Table.pk_of_lookup foundRow]
    rfl
  | selectMissed _ => exact tracks.stutter found' (moves rfl rfl rfl)
  | readPut => exact tracks.stutter found' (stays rfl rfl)
  | keyPut => exact tracks.stutter found' (stays rfl rfl)
  | jobPut => exact tracks.stutter found' (stays rfl rfl)
  | @inserted id began job db past ran =>
    have first : Steps (freshUncached settings requestHash)
        (t.withStage i call' .inserting t.db)
        (t.withStage i call' (afterCreate requestHash call.request job true) db) := by
      apply insert_steps found' began (drawn rfl)
      simp only [callStep, World.withStage, tracks.now, tracks.db, related.request, if_pos past, ran]
    have decides := verdict_afterCreate requestHash call.request job true
    obtain ⟨outcome, agrees, ends⟩ := steps_done settings requestHash db found' decides
    apply tracks.finish w.redis found' related decides agrees
    rw [undecided rfl]
    exact first.trans ends
  | @insertIgnored id began db past ran =>
    have first : Steps (freshUncached settings requestHash)
        (t.withStage i call' .inserting t.db) (t.withStage i call' .rereading db) := by
      apply insert_steps found' began (drawn rfl)
      simp only [callStep, World.withStage, tracks.now, tracks.db, related.request, if_pos past, ran]
    have inserting : call'.stage = .inserting := undecided rfl
    rw [← inserting, withStage_self found'] at first
    refine ⟨_, first, tracks.set ⟨related.request, fun _ => rfl, ?_⟩⟩
    intro verdict decided
    cases decided
  | @insertAborted id began abort past ran =>
    have first : Steps (freshUncached settings requestHash)
        (t.withStage i call' .inserting t.db) (t.withStage i call' (.done (.aborted abort)) t.db) := by
      apply insert_steps found' began (drawn rfl)
      simp only [callStep, World.withStage, tracks.now, tracks.db, related.request, if_pos past, ran]
    have answered := tracks.finish w.redis found' related
      (rfl : (Stage.done (.aborted abort)).verdict = some (.aborted abort)) rfl
      (by rw [undecided rfl]; exact first)
    rw [tracks.db] at answered
    exact answered
  | @reread job ran =>
    have first : Steps (freshUncached settings requestHash)
        (t.withStage i call' .rereading t.db)
        (t.withStage i call' (afterCreate requestHash call.request job false) t.db) := by
      apply withStage_step .select found' rfl (by simp)
      simp only [callStep, World.withStage, tracks.db, related.request, ran]
    have decides := verdict_afterCreate requestHash call.request job false
    obtain ⟨outcome, agrees, ends⟩ := steps_done settings requestHash t.db found' decides
    have answered := tracks.finish w.redis found' related decides agrees
      (by rw [undecided rfl]; exact first.trans ends)
    rw [tracks.db] at answered
    exact answered
  | @rereadAborted abort ran =>
    obtain ⟨key, jobId, hash, named, registered⟩ := fits
    obtain ⟨row, existing, _⟩ := existingJob_of_registered
      (newJob settings requestHash call.request) named registered
    cases ran.symm.trans existing

/-- A submitted call, which with the cache disabled goes straight to the insert. -/
theorem Tracks.append (tracks : Tracks w t) (related : CallTracks call call') :
    Tracks { w with calls := w.calls ++ [call] } { t with calls := t.calls ++ [call'] } where
  now := tracks.now
  db := tracks.db
  length := by simp [tracks.length]
  calls k other foundOther := by
    have foundOther : (w.calls ++ [call])[k]? = some other := foundOther
    show ∃ other', (t.calls ++ [call'])[k]? = some other' ∧ CallTracks other other'
    rw [List.getElem?_append] at foundOther
    rw [List.getElem?_append, tracks.length]
    split at foundOther
    · next inside =>
      rw [if_pos inside]
      exact tracks.calls k other foundOther
    · next outside =>
      rw [if_neg outside]
      rw [List.getElem?_singleton] at foundOther ⊢
      split at foundOther
      · next last =>
        cases foundOther
        exact ⟨call', if_pos last, related⟩
      · cases foundOther

theorem Tracks.submit (tracks : Tracks w t) (request : ScheduleJobRequest) :
    ∃ t', Steps (freshUncached settings requestHash) t t' ∧
      Tracks { w with calls := w.calls ++ [submit request w.now] } t' := by
  have submitted : Steps (freshUncached settings requestHash) t
      { t with calls := t.calls ++ [Scheduling.submit request w.now] } := by
    apply Steps.single (e := .submit request)
    rw [← tracks.now]
    exact ⟨rfl, rfl⟩
  have stages := submit_stage request w.now
  generalize Scheduling.submit request w.now = call at submitted stages
  -- turned away at once, with a key to look up, or without one
  obtain ⟨_, stage⟩ | ⟨_, ⟨key, _, stage⟩ | stage⟩ := stages
  · refine ⟨_, submitted, tracks.append ⟨rfl, ?_, ?_⟩⟩
    · intro undecided
      rw [stage] at undecided
      cases undecided
    · intro verdict decided
      rw [stage] at decided
      cases decided
      exact ⟨_, stage, rfl⟩
  · -- the lookup returns its default
    have found : ({ t with calls := t.calls ++ [call] } : World).calls[t.calls.length]? = some call := by
      simp
    have missed : Steps (freshUncached settings requestHash)
        (World.withStage { t with calls := t.calls ++ [call] } t.calls.length call (.lookingUp key) t.db)
        (World.withStage { t with calls := t.calls ++ [call] } t.calls.length call .inserting t.db) :=
      withStage_step (.redis (.failed false)) found rfl (by simp) rfl
    have self := withStage_self found
    rw [stage] at self
    rw [self] at missed
    have placed :
        World.withStage { t with calls := t.calls ++ [call] } t.calls.length call .inserting t.db
        = { t with calls := t.calls ++ [{ call with stage := .inserting }] } := by
      simp [World.withStage]
    rw [placed] at missed
    refine ⟨_, submitted.trans missed, tracks.append ⟨rfl, ?_, ?_⟩⟩
    · intro _
      rw [stage]
      rfl
    · intro verdict decided
      rw [stage] at decided
      cases decided
  · refine ⟨_, submitted, tracks.append ⟨rfl, ?_, ?_⟩⟩
    · intro _
      rw [stage]
      rfl
    · intro verdict decided
      rw [stage] at decided
      cases decided

end

/-- The service with a cache refines the one without. -/
theorem cache_simulation (attempts : 1 ≤ settings.maxAttempts) :
    Simulation (freshScheduling settings requestHash) (freshUncached settings requestHash)
      (Consistent requestHash) Tracks where
  init := by
    rintro w ⟨start, rfl⟩
    refine ⟨.initial start, ⟨start, rfl⟩, rfl, rfl, rfl, ?_⟩
    intro i call found
    cases found
  step := by
    intro w action w' t consistent tracks step
    obtain ⟨step, fresh⟩ := step
    cases World.step_cases step with
    | @tick elapsed forward =>
      have ticks : uncachedStep settings requestHash t (.tick elapsed) =
          some { t with now := t.now + elapsed } := by
        simp [uncachedStep, Action.uncached, World.step, forward]
      exact ⟨_, .single ⟨ticks, rfl⟩, by rw [tracks.now], tracks.db, tracks.length, tracks.calls⟩
    | submit request => exact tracks.submit request
    | call found stepped =>
      apply tracks.callStep attempts consistent found _ stepped
      rintro id began rfl
      exact Option.isNone_iff_eq_none.mp fresh
    | @outside op began answer db outside past committed =>
      have commits : uncachedStep settings requestHash t (.outside op began) =
          some { t with db := (op.commit began t.db).2 } := by
        simp [uncachedStep, Action.uncached, World.step, outside, tracks.now, past]
      refine ⟨_, .single ⟨commits, rfl⟩, tracks.now, ?_, tracks.length, tracks.calls⟩
      simp only [tracks.db, committed]
    -- what only touches the cache is no step of the scheduler without it
    | putRead job reply => exact ⟨t, .refl, tracks.now, tracks.db, tracks.length, tracks.calls⟩
    | invalidate jobId newVersion reply =>
      exact ⟨t, .refl, tracks.now, tracks.db, tracks.length, tracks.calls⟩
    | dropJob jobId => exact ⟨t, .refl, tracks.now, tracks.db, tracks.length, tracks.calls⟩
    | dropKey key => exact ⟨t, .refl, tracks.now, tracks.db, tracks.length, tracks.calls⟩

end

end Scheduling

end NotifyQueue
