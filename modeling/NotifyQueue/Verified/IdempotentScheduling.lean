import NotifyQueue.Verified.CacheRefinement

/-! # Idempotent scheduling

For each key one call creates the job, and every other call with the key learns the id of
that job: as its own when the request is the same, as a conflict when it is not.
`schedule_refines_uncached` says so for every interleaving, with whatever Redis answers, and
`replay_iff` says when a request that was accepted can be submitted again. -/

namespace NotifyQueue

open Runs Tables

namespace Scheduling

section

variable {settings : Settings} {requestHash : ScheduleJobRequest → String} {w w' : World}
  {request : ScheduleJobRequest} {stage stage' : Stage} {callAction : CallAction} {db : Db}
  {redis : Redis}

/-! ## What holds of every call -/

/-- The induction rule for what holds of every call. -/
theorem calls_of_run {I : Call → Prop} (submitted : ∀ request now, I (submit request now))
    (moved : ∀ w call action stage db redis, Consistent requestHash w → call ∈ w.calls → I call →
      (∀ id began, action = .insert id began → getJob w.db id = none) →
      CallStep settings requestHash w call.request call.stage action (stage, db, redis) →
      I { call with stage })
    {history : ScheduleHistory} (run : Run (freshScheduling settings requestHash) history w) :
    ∀ call ∈ w.calls, I call := by
  have holds : Consistent requestHash w ∧ ∀ call ∈ w.calls, I call := by
    refine Run.state_invariant (I := fun w => Consistent requestHash w ∧ ∀ call ∈ w.calls, I call)
      ?_ ?_ run
    · rintro w ⟨start, rfl⟩
      refine ⟨consistent_of_run (.start ⟨start, rfl⟩ : Run (scheduling settings requestHash) [] _), ?_⟩
      intro call member
      cases member
    · rintro w action w' ⟨consistent, holds⟩ ⟨step, fresh⟩
      have worldStep := World.step_cases step
      refine ⟨consistent.step worldStep, ?_⟩
      cases worldStep with
      | submit request =>
        intro call member
        rw [List.mem_append, List.mem_singleton] at member
        cases member with
        | inl old => exact holds call old
        | inr new =>
          subst new
          exact submitted request w.now
      | @call i callAction call stage db redis found stepped =>
        intro other member
        have inWorld := List.mem_of_getElem? found
        cases List.mem_or_eq_of_mem_set member with
        | inl old => exact holds other old
        | inr new =>
          subst new
          apply moved w call callAction stage db redis consistent inWorld (holds call inWorld) _ stepped
          -- an insert of this run draws an id that no job has
          rintro id began rfl
          exact Option.isNone_iff_eq_none.mp fresh
      | _ => exact holds
  exact holds.2

/-- `create_job` refuses or accepts, and nothing else. -/
theorem afterCreate_verdict {job : Job} {created : Bool} {verdict : Verdict}
    (decided : (afterCreate requestHash request job created).verdict = some verdict) :
    verdict = .idempotencyConflict job.id ∨ verdict = .accepted job.id created := by
  rw [verdict_afterCreate, Option.some.injEq] at decided
  subst decided
  split
  · exact .inl rfl
  · exact .inr rfl

/-- The check of `send_at` decides at once, and nothing decides so later. -/
theorem CallStep.invalidSchedule_iff
    (step : CallStep settings requestHash w request stage callAction (stage', db, redis)) :
    stage'.verdict = some .invalidSchedule ↔ stage.verdict = some .invalidSchedule := by
  have afterwards : ∀ {stage : Stage} job created, stage.verdict = none →
      ((afterCreate requestHash request job created).verdict = some .invalidSchedule ↔
        stage.verdict = some .invalidSchedule) := by
    intro stage job created undecided
    rw [undecided]
    constructor
    · intro decided
      obtain conflict | accepted := afterCreate_verdict decided
      · cases conflict
      · cases accepted
    · intro decided
      cases decided
  cases step with
  | inserted _ _ => exact afterwards _ _ rfl
  | reread _ => exact afterwards _ _ rfl
  | _ => simp [Stage.verdict, ScheduleOutcome.verdict]

theorem invalidSchedule_iff_of_run {history : ScheduleHistory}
    (run : Run (freshScheduling settings requestHash) history w) :
    ∀ call ∈ w.calls, call.stage.verdict = some .invalidSchedule ↔
      tooLate call.request call.submittedAt = true := by
  refine calls_of_run (I := fun call => call.stage.verdict = some .invalidSchedule ↔
    tooLate call.request call.submittedAt = true) ?_ ?_ run
  · intro request now
    show _ ↔ tooLate request now = true
    obtain ⟨late, stage⟩ | ⟨inTime, ⟨key, _, stage⟩ | stage⟩ := submit_stage request now
    · rw [stage, late]
      exact iff_of_true rfl rfl
    · rw [stage, inTime]
      exact iff_of_false (by simp [Stage.verdict]) (by simp)
    · rw [stage, inTime]
      exact iff_of_false (by simp [Stage.verdict]) (by simp)
  · intro w call action stage db redis _ _ checked _ stepped
    exact stepped.invalidSchedule_iff.trans checked

/-- What a verdict says about the `max_attempts` that the insert is given. -/
def AttemptsFit (settings : Settings) (request : ScheduleJobRequest) : Verdict → Prop
  | .aborted _ => maxAttempts settings request < 1
  | .accepted _ true => 1 ≤ maxAttempts settings request
  | _ => True

theorem CallStep.attemptsFit
    (step : CallStep settings requestHash w request stage callAction (stage', db, redis))
    (fits : StageFits requestHash w.db request stage)
    (fresh : ∀ id began, callAction = .insert id began → getJob w.db id = none)
    (before : ∀ verdict ∈ stage.verdict, AttemptsFit settings request verdict) :
    ∀ verdict ∈ stage'.verdict, AttemptsFit settings request verdict := by
  intro verdict decided
  cases step with
  | @inserted id began job db past ran =>
    have how := insertJob_cases began id (newJob settings requestHash request) w.db
    rw [ran] at how
    cases how with
    | created enough _ _ _ _ =>
      obtain rfl | rfl := afterCreate_verdict decided
      · trivial
      · exact enough
  | @reread job _ =>
    obtain rfl | rfl := afterCreate_verdict decided
    · trivial
    · trivial
  | @insertAborted id began abort past ran =>
    have how := insertJob_cases began id (newJob settings requestHash request) w.db
    rw [ran] at how
    cases decided
    cases how with
    | tooFew few => exact few
    | repeated found => cases (fresh id began rfl).symm.trans found
  | @rereadAborted abort ran =>
    -- the row that was in the way is still there
    obtain ⟨key, jobId, hash, named, registered⟩ := fits
    obtain ⟨row, existing, _⟩ := existingJob_of_registered
      (newJob settings requestHash request) named registered
    cases ran.symm.trans existing
  | readPut => exact before verdict decided
  | keyPut => exact before verdict decided
  | jobPut => exact before verdict decided
  | _ => cases decided <;> trivial

theorem attemptsFit_of_run {history : ScheduleHistory}
    (run : Run (freshScheduling settings requestHash) history w) :
    ∀ call ∈ w.calls, ∀ verdict ∈ call.stage.verdict, AttemptsFit settings call.request verdict := by
  refine calls_of_run
    (I := fun call => ∀ verdict ∈ call.stage.verdict, AttemptsFit settings call.request verdict)
    ?_ ?_ run
  · intro request now verdict decided
    cases verdict_of_submit decided
    trivial
  · intro w call action stage db redis consistent member before fresh stepped
    exact stepped.attemptsFit (consistent.stages call member) fresh before

/-! ## Progress -/

/-- How many steps a call is away from its end. -/
def Stage.rank : Stage → Nat
  | .lookingUp _ => 7
  | .reading _ => 6
  | .selecting _ => 5
  | .inserting => 4
  | .rereading => 3
  | .puttingKey _ _ _ => 2
  | .puttingRead _ => 1
  | .putting _ _ => 1
  | .done _ => 0

theorem rank_afterCreate (job : Job) (created : Bool) :
    (afterCreate requestHash request job created).rank ≤ 2 := by
  unfold afterCreate
  split
  · simp [Stage.rank]
  · split <;> simp [Stage.rank]

theorem CallStep.rank_lt
    (step : CallStep settings requestHash w request stage callAction (stage', db, redis)) :
    stage'.rank < stage.rank := by
  cases step with
  | @inserted _ _ job _ _ _ => exact lt_of_le_of_lt (rank_afterCreate job true) (by simp [Stage.rank])
  | @reread job _ => exact lt_of_le_of_lt (rank_afterCreate job false) (by simp [Stage.rank])
  | _ => simp [Stage.rank]

/-- Whatever the tables and Redis hold, a call that has not ended can go on. -/
theorem exists_callStep (settings : Settings) (requestHash : ScheduleJobRequest → String) (w : World)
    (request : ScheduleJobRequest) (unfinished : stage.rank ≠ 0) :
    ∃ action, (callStep settings requestHash w request stage action).isSome = true ∧
      ∀ id began, action = .insert id began → getJob w.db id = none := by
  cases stage with
  | lookingUp key => exact ⟨.redis (.failed false), rfl, by simp⟩
  | reading jobId => exact ⟨.redis (.failed false), rfl, by simp⟩
  | selecting jobId =>
    refine ⟨.select, ?_, by simp⟩
    cases found : getJob w.db jobId <;> simp [callStep, found]
  | puttingRead job => exact ⟨.redis (.failed false), rfl, by simp⟩
  | inserting =>
    obtain ⟨id, absent⟩ := w.db.jobs.exists_fresh
    refine ⟨.insert id w.now, ?_, ?_⟩
    · simp only [callStep, le_refl, if_true]
      split <;> rfl
    · rintro _ _ ⟨rfl, rfl⟩
      exact absent
  | rereading =>
    refine ⟨.select, ?_, by simp⟩
    cases ran : existingJob w.db (newJob settings requestHash request) <;> simp [callStep, ran]
  | puttingKey key job created => exact ⟨.redis (.failed false), rfl, by simp⟩
  | putting job created => exact ⟨.redis (.failed false), rfl, by simp⟩
  | done outcome => exact absurd rfl unfinished

/-- A call ends after at most seven of its own steps, and nothing can block it. -/
structure Progresses (settings : Settings) (requestHash : ScheduleJobRequest → String) (w : World)
    (i : Nat) (call : Call) : Prop where
  bounded : call.stage.rank ≤ 7
  enabled : call.stage.rank ≠ 0 → ∃ action w', w.step settings requestHash (.call i action) = some w' ∧
    drawsFresh ⟨w, .call i action, w'⟩ = true
  closer : ∀ action w', w.step settings requestHash (.call i action) = some w' →
    ∃ stage, w'.calls[i]? = some { call with stage } ∧ stage.rank < call.stage.rank

theorem progresses {i : Nat} {call : Call} (found : w.calls[i]? = some call) :
    Progresses settings requestHash w i call where
  bounded := by cases call.stage <;> simp [Stage.rank]
  enabled := by
    intro unfinished
    obtain ⟨action, steps, drawn⟩ := exists_callStep settings requestHash w call.request unfinished
    obtain ⟨⟨stage, db, redis⟩, stepped⟩ := Option.isSome_iff_exists.mp steps
    refine ⟨action, { w with db, redis, calls := w.calls.set i { call with stage } }, ?_, ?_⟩
    · simp only [World.step, found, stepped]
    · cases action with
      | insert id began => exact Option.isNone_iff_eq_none.mpr (drawn id began rfl)
      | _ => rfl
  closer := by
    intro action w' step
    cases World.step_cases step with
    | @call _ _ other stage db redis found' stepped =>
      cases found.symm.trans found'
      have bound := (List.getElem?_eq_some_iff.mp found).1
      exact ⟨stage, by simp [bound], stepped.rank_lt⟩

/-! ## The verdicts -/

/-- The lookup of the key in the cache, and the reading of the job that it names. -/
def Stage.onFastPath : Stage → Bool
  | .lookingUp _ => true
  | .reading _ => true
  | .selecting _ => true
  | _ => false

/-- `create_job` finds the job of a registered key. -/
theorem uncachedVerdict_of_registered (attempts : 1 ≤ maxAttempts settings request) {key : String}
    {jobId : JobId} {hash : String} (named : request.idempotencyKey = some key)
    (registered : Registered db key jobId hash) (now : Time) (id : JobId) :
    uncachedVerdict settings requestHash now id request db =
      if hash ≠ requestHash request then .idempotencyConflict jobId else .accepted jobId false := by
  have ignored : insertJob now id (newJob settings requestHash request) db = .ok (none, db) :=
    insertJob_of_registered attempts named registered
  obtain ⟨job, existing, sameId, _, sameHash, _⟩ := existingJob_of_registered
    (newJob settings requestHash request) named registered
  have created : createJob now id (newJob settings requestHash request) db = .ok ((job, false), db) := by
    simp [createJob, ignored, existing, bind, Except.bind, pure, Except.pure]
  simp only [uncachedVerdict, created, sameId, sameHash, true_and]

/-- A call that is answered on the fast path learns what `create_job` would have said. -/
def FastPathAgrees (settings : Settings) (requestHash : ScheduleJobRequest → String)
    (taken : Taken World Action) : Prop :=
  ∀ i action call verdict, taken.label = .call i action → taken.before.calls[i]? = some call →
    call.stage.onFastPath = true → taken.after.verdict i = some verdict →
      (∃ jobId, verdict = .accepted jobId false ∨ verdict = .idempotencyConflict jobId) ∧
        ∀ now id, uncachedVerdict settings requestHash now id call.request taken.before.db = verdict

theorem CallStep.fastPath (attempts : 1 ≤ maxAttempts settings request)
    (step : CallStep settings requestHash w request stage callAction (stage', db, redis))
    (cache : CacheFits w.db w.redis) (fits : StageFits requestHash w.db request stage)
    (fast : stage.onFastPath = true) {verdict : Verdict} (decided : stage'.verdict = some verdict) :
    (∃ jobId, verdict = .accepted jobId false ∨ verdict = .idempotencyConflict jobId) ∧
      ∀ now id, uncachedVerdict settings requestHash now id request w.db = verdict := by
  cases step with
  | keyMalformed raised => exact absurd raised cache.getIdempotency_ne_error
  | @keyRefused key hash reply jobId hit other =>
    have registered := cache.registered_of_hit hit
    cases decided
    refine ⟨⟨jobId, .inr rfl⟩, ?_⟩
    intro now id
    rw [uncachedVerdict_of_registered attempts fits registered, if_pos other]
    rfl
  | @readCached jobId reply job hit =>
    obtain ⟨key, named, registered⟩ := fits
    cases decided
    refine ⟨⟨job.id, .inl rfl⟩, ?_⟩
    intro now id
    rw [uncachedVerdict_of_registered attempts named registered, if_neg (by simp), ← cache.get hit]
    rfl
  | @selected jobId job found =>
    obtain ⟨key, named, registered⟩ := fits
    cases decided
    refine ⟨⟨job.id, .inl rfl⟩, ?_⟩
    intro now id
    rw [uncachedVerdict_of_registered attempts named registered, if_neg (by simp),
      ← Table.pk_of_lookup found]
    rfl
  | keyMissed _ => cases decided
  | keyFound _ => cases decided
  | readMissed => cases decided
  | selectMissed _ => cases decided
  | _ => cases fast

theorem fastPathAgrees_of_run (attempts : 1 ≤ settings.maxAttempts) {history : ScheduleHistory}
    (run : Run (scheduling settings requestHash) history w) :
    ∀ taken ∈ history, FastPathAgrees settings requestHash taken := by
  intro taken member i action call verdict label found fast decided
  obtain ⟨⟨earlier, reaches, _⟩, step⟩ := run.of_mem member
  have consistent := consistent_of_run reaches
  rw [label] at step
  have worldStep := World.step_cases step
  generalize taken.after = after at worldStep decided
  cases worldStep with
  | @call _ _ other stage db redis found' stepped =>
    cases found.symm.trans found'
    rw [verdict_set found, if_pos rfl] at decided
    exact stepped.fastPath (maxAttempts_pos attempts call.request) consistent.cache
      (consistent.stages call (List.mem_of_getElem? found)) fast decided

/-- The call passed the check, and its verdict is known. -/
def Call.settled (call : Call) : Bool :=
  tooLate call.request call.submittedAt = false && call.stage.verdict.isSome

/-- What a call that passed the check learns: the job of its key, or a job of its own. -/
def Answers (requestHash : ScheduleJobRequest → String) (db : Db) (request : ScheduleJobRequest)
    (verdict : Verdict) : Prop :=
  match request.idempotencyKey with
  | some key => ∃ row ∈ db.jobs.rows, row.idempotencyKey = some key ∧
      if row.requestHash = requestHash request then ∃ created, verdict = .accepted row.id created
      else verdict = .idempotencyConflict row.id
  | none => ∃ row ∈ db.jobs.rows, row.idempotencyKey = none ∧ verdict = .accepted row.id true

/-- One job and one creator for each key that was settled; the others learn its id. -/
structure Idempotent (requestHash : ScheduleJobRequest → String) (w : World) : Prop where
  created : ∀ row ∈ w.db.jobs.rows, ∃! i, w.verdict i = some (.accepted row.id true)
  keyed : ∀ key, (∃ call ∈ w.calls, call.settled = true ∧ call.request.idempotencyKey = some key) →
    (∃! row, row ∈ w.db.jobs.rows ∧ row.idempotencyKey = some key) ∧
      ∃! i : Nat, ∃ (call : Call) (jobId : JobId),
        w.calls[i]? = some call ∧ call.request.idempotencyKey = some key ∧
        call.stage.verdict = some (.accepted jobId true)
  answered : ∀ call ∈ w.calls, call.settled = true → ∀ verdict, call.stage.verdict = some verdict →
    Answers requestHash w.db call.request verdict

theorem answers_of_settled {history : ScheduleHistory}
    (run : Run (freshScheduling settings requestHash) history w) {call : Call} (member : call ∈ w.calls)
    (attempts : 1 ≤ maxAttempts settings call.request)
    (inTime : tooLate call.request call.submittedAt = false)
    {verdict : Verdict} (decided : call.stage.verdict = some verdict) :
    Answers requestHash w.db call.request verdict := by
  have fits := (consistent_of_run (run_restrict.mp run).1).verdicts call member verdict decided
  cases verdict with
  | accepted jobId created =>
    obtain ⟨⟨row, found, named, hashed⟩, unnamed⟩ := fits
    have inTable := Table.mem_of_lookup found
    have sameId : row.id = jobId := Table.pk_of_lookup found
    subst sameId
    -- without a key only the call that created the job was accepted with it
    unfold Answers
    cases key : call.request.idempotencyKey with
    | some key => exact ⟨row, inTable, named.trans key, by rw [if_pos hashed]; exact ⟨created, rfl⟩⟩
    | none =>
      cases unnamed key
      exact ⟨row, inTable, named.trans key, rfl⟩
  | invalidSchedule =>
    have late := (invalidSchedule_iff_of_run run call member).mp decided
    rw [inTime] at late
    cases late
  | idempotencyConflict jobId =>
    obtain ⟨key, hash, named, ⟨row, found, keyed, rfl⟩, other⟩ := fits
    have sameId : row.id = jobId := Table.pk_of_lookup found
    subst sameId
    unfold Answers
    rw [named]
    exact ⟨row, Table.mem_of_lookup found, keyed, by rw [if_neg other]⟩
  | aborted abort =>
    have few : maxAttempts settings call.request < 1 := attemptsFit_of_run run call member _ decided
    exact absurd attempts (not_le.mpr few)
  | valueError message => exact fits.elim

/-- A call that created a job has the key of its row. -/
theorem key_of_creator {history : ScheduleHistory}
    (run : Run (scheduling settings requestHash) history w)
    {i : Nat} {call : Call} (found : w.calls[i]? = some call) {jobId : JobId} {created : Bool}
    (decided : call.stage.verdict = some (.accepted jobId created)) :
    ∃ row ∈ w.db.jobs.rows, row.id = jobId ∧ row.idempotencyKey = call.request.idempotencyKey := by
  obtain ⟨⟨row, inTable, named, _⟩, _⟩ :=
    (consistent_of_run run).verdicts call (List.mem_of_getElem? found) _ decided
  exact ⟨row, Table.mem_of_lookup inTable, Table.pk_of_lookup inTable, named⟩

theorem idempotent_of_run (attempts : 1 ≤ settings.maxAttempts) {history : ScheduleHistory}
    (run : Run (freshScheduling settings requestHash) history w) : Idempotent requestHash w := by
  have wholeRun := (run_restrict.mp run).1
  have created := created_of_run wholeRun
  have answered : ∀ call ∈ w.calls, call.settled = true → ∀ verdict, call.stage.verdict = some verdict →
      Answers requestHash w.db call.request verdict := by
    intro call member settled verdict decided
    simp only [Call.settled, Bool.and_eq_true, decide_eq_true_eq] at settled
    exact answers_of_settled run member (maxAttempts_pos attempts call.request) settled.1 decided
  have creators : ∀ row ∈ w.db.jobs.rows, ∃! i, w.verdict i = some (.accepted row.id true) := by
    intro row member
    obtain ⟨i, decided⟩ := created.creator row.id row (Table.lookup_of_mem member)
    exact ⟨i, decided, fun k decided' => created.unique k i row.id decided' decided⟩
  refine ⟨creators, ?_, answered⟩
  rintro key ⟨call, member, settled, named⟩
  -- the settled call knows the row, and the row knows its creator
  have known : ∃ row ∈ w.db.jobs.rows, row.idempotencyKey = some key := by
    have decided := settled
    simp only [Call.settled, Bool.and_eq_true, Option.isSome_iff_exists] at decided
    obtain ⟨_, verdict, decided⟩ := decided
    have answers := answered call member settled verdict decided
    unfold Answers at answers
    rw [named] at answers
    obtain ⟨row, inTable, keyed, _⟩ := answers
    exact ⟨row, inTable, keyed⟩
  obtain ⟨row, inTable, keyed⟩ := known
  have only : ∀ other ∈ w.db.jobs.rows, other.idempotencyKey = some key → other = row :=
    fun other inTable' keyed' => Table.eq_of_uk inTable' inTable keyed' keyed
  obtain ⟨i, decided, unique⟩ := creators row inTable
  refine ⟨⟨row, ⟨inTable, keyed⟩, fun other other' => only other other'.1 other'.2⟩, i, ?_, ?_⟩
  · obtain ⟨creator, found, verdict⟩ := Option.bind_eq_some_iff.mp decided
    obtain ⟨row', inTable', sameId, named'⟩ := key_of_creator wholeRun found verdict
    have same : row' = row := by
      have lookup := Table.lookup_of_mem inTable'
      rw [sameId, Table.lookup_of_mem inTable] at lookup
      exact (Option.some.inj lookup).symm
    subst same
    exact ⟨creator, row'.id, found, named'.symm.trans keyed, verdict⟩
  · rintro k ⟨other, jobId, found, named', verdict⟩
    obtain ⟨row', inTable', rfl, keyed'⟩ := key_of_creator wholeRun found verdict
    cases only row' inTable' (keyed'.trans named')
    exact unique k ((verdict_of_found found).trans verdict)

/-- The uncached run that answers a run has its tables and its verdicts. -/
theorem Tracks.verdict {w t : World} (tracks : Tracks w t) (i : Nat) : t.verdict i = w.verdict i := by
  cases found : w.calls[i]? with
  | none =>
    have short : t.calls[i]? = none := by
      rw [List.getElem?_eq_none_iff] at found ⊢
      rw [tracks.length]
      exact found
    simp only [World.verdict, found, short]
  | some call =>
    obtain ⟨call', found', related⟩ := tracks.calls i call found
    rw [verdict_of_found found, verdict_of_found found']
    cases decided : call.stage.verdict with
    | none =>
      rw [related.undecided decided]
      cases call.stage <;> rfl
    | some verdict =>
      obtain ⟨outcome, stage, agrees⟩ := related.decided verdict decided
      rw [stage, ← agrees]
      rfl

/-- Whatever Redis answers and however the calls are interleaved, they are idempotent, and a
    run of the service with the cache disabled has the same tables and the same verdicts. -/
theorem schedule_refines_uncached (attempts : 1 ≤ settings.maxAttempts) {history : ScheduleHistory}
    (run : Run (scheduling settings requestHash) history w)
    (fresh : Along (fun _ taken => drawsFresh taken = true) history) :
    Idempotent requestHash w ∧ (∀ taken ∈ history, FastPathAgrees settings requestHash taken) ∧
      (∀ (i : Nat) (call : Call), w.calls[i]? = some call → Progresses settings requestHash w i call) ∧
      ∃ history' w', Run (uncachedScheduling settings requestHash) history' w' ∧
        Along (fun _ taken => drawsFresh taken = true) history' ∧ w'.db = w.db ∧
        ∀ i, w'.verdict i = w.verdict i := by
  have freshRun : Run (freshScheduling settings requestHash) history w := run_restrict.mpr ⟨run, fresh⟩
  have invariant : ∀ history w, Run (freshScheduling settings requestHash) history w →
      Consistent requestHash w :=
    fun _ _ run => consistent_of_run (run_restrict.mp run).1
  obtain ⟨history', w', run', tracks⟩ := (cache_simulation attempts).run invariant freshRun
  obtain ⟨uncachedRun, fresh'⟩ := run_restrict.mp run'
  refine ⟨idempotent_of_run attempts freshRun, fastPathAgrees_of_run attempts run, ?_, ?_⟩
  · intro i call found
    exact progresses found
  · exact ⟨history', w', uncachedRun, fresh', tracks.db, tracks.verdict⟩

end

section

def sampleRequest (recipient : String) (key : Option String) (sendAt : Option Time) :
    ScheduleJobRequest where
  recipient := recipient
  channel := .email
  payload := "hello"
  priority := .normal
  sendAt := sendAt
  delaySeconds := none
  maxAttempts := none
  callbackUrl := none
  idempotencyKey := key
  delayInRange := by simp
  attemptsInRange := by simp
  oneScheduleMode := .inr rfl

/-- Two submissions of one request race, one of them without Redis; a third reuses the key for
    another request, and finds the key in the cache. -/
def raced : ScheduleHistory × World :=
  scheduleRun .default ScheduleJobRequest.recipient 0
    [.submit (sampleRequest "ann" (some "k") none), .submit (sampleRequest "ann" (some "k") none),
      .submit (sampleRequest "bob" (some "k") none), .call 0 (.redis .answered),
      .call 1 (.redis (.failed false)), .call 0 (.insert 5 0), .call 1 (.insert 6 0),
      .call 0 (.redis .answered), .call 1 .select, .call 2 (.redis .answered), .dropKey "k",
      .submit (sampleRequest "ann" none none), .call 3 (.insert 7 0)]

theorem schedule_refines_uncached_raced :
    raced.2.calls.map (fun call => call.stage.verdict) =
        [some (.accepted 5 true), some (.accepted 5 false), some (.idempotencyConflict 5),
          some (.accepted 7 true)] ∧
      Idempotent ScheduleJobRequest.recipient raced.2 ∧
      ∃ history w, Run (uncachedScheduling .default ScheduleJobRequest.recipient) history w ∧
        w.db = raced.2.db := by
  have run : Run (scheduling .default ScheduleJobRequest.recipient) raced.1 raced.2 :=
    run_scheduleRun _ _ _ _
  have fresh : Along (fun _ taken => drawsFresh taken = true) raced.1 := by decide +kernel
  obtain ⟨idempotent, _, _, history, w, run', _, sameDb, _⟩ :=
    schedule_refines_uncached (by decide) run fresh
  exact ⟨by decide +kernel, idempotent, history, w, run', sameDb⟩

end

/-! ## Replays -/

section

variable {settings : Settings} {requestHash : ScheduleJobRequest → String} {w : World}

/-- A submission is answered with the job, as one that it did not create, and with nothing else. -/
structure Replayed (settings : Settings) (requestHash : ScheduleJobRequest → String) (w : World)
    (k : Nat) (replay : Call) (jobId : JobId) : Prop where
  answered : ∀ verdict, replay.stage.verdict = some verdict → verdict = .accepted jobId false
  progresses : Progresses settings requestHash w k replay

theorem tooLate_eq_false {request : ScheduleJobRequest} {now : Time} :
    tooLate request now = false ↔ ∀ sendAt ∈ request.sendAt, now ≤ sendAt + sendAtGrace := by
  unfold tooLate
  cases request.sendAt with
  | none => simp
  | some sendAt =>
    simp only [Option.any_some, decide_eq_false_iff_not, not_lt, Option.mem_some_iff, forall_eq']
    exact sub_le_iff_le_add

/-- Once a request is accepted, another submission of it is answered with its job exactly when
    it has no `send_at`, or comes no later than `SEND_AT_GRACE` after it. -/
theorem replay_iff {history : ScheduleHistory} (run : Run (scheduling settings requestHash) history w)
    (fresh : Along (fun _ taken => drawsFresh taken = true) history) {i k : Nat} {call replay : Call}
    {key : String} {jobId : JobId} (found : w.calls[i]? = some call)
    (accepted : call.stage.verdict = some (.accepted jobId true))
    (named : call.request.idempotencyKey = some key) (again : i ≠ k) (found' : w.calls[k]? = some replay)
    (identical : replay.request = call.request) :
    Replayed settings requestHash w k replay jobId ↔
      ∀ sendAt ∈ call.request.sendAt, replay.submittedAt ≤ sendAt + sendAtGrace := by
  have freshRun : Run (freshScheduling settings requestHash) history w := run_restrict.mpr ⟨run, fresh⟩
  have member := List.mem_of_getElem? found
  have member' := List.mem_of_getElem? found'
  rw [← identical, ← tooLate_eq_false]
  constructor
  · intro replayed
    by_contra late
    have refused := (invalidSchedule_iff_of_run freshRun replay member').mpr (by simpa using late)
    cases replayed.answered .invalidSchedule refused
  · intro inTime
    refine ⟨?_, progresses found'⟩
    intro verdict decided
    have enough : 1 ≤ maxAttempts settings replay.request := by
      rw [identical]
      exact attemptsFit_of_run freshRun call member _ accepted
    have answers := answers_of_settled freshRun member' enough inTime decided
    -- the job of the key is the one that the first submission created
    obtain ⟨⟨row, inTable, keyed, hashed⟩, _⟩ := (consistent_of_run run).verdicts call member _ accepted
    unfold Answers at answers
    rw [identical, named] at answers
    obtain ⟨row', inTable', keyed', answer⟩ := answers
    cases Table.eq_of_uk inTable' (Table.mem_of_lookup inTable) keyed' (keyed.trans named)
    rw [if_pos hashed, Table.pk_of_lookup inTable] at answer
    obtain ⟨created, rfl⟩ := answer
    cases created with
    | false => rfl
    | true =>
      have one := (created_of_run run).unique i k jobId ((verdict_of_found found).trans accepted)
        ((verdict_of_found found').trans decided)
      exact absurd one again

/-- A request for time 10 is accepted at time 0 and submitted again some time later. -/
def submittedAgain (elapsed : Time) (actions : List Action) : ScheduleHistory × World :=
  scheduleRun .default ScheduleJobRequest.recipient 0
    ([.submit (sampleRequest "ann" (some "k") (some 10)), .call 0 (.redis .answered),
      .call 0 (.insert 5 0),
      .call 0 (.redis .answered), .call 0 (.redis .answered), .tick elapsed,
      .submit (sampleRequest "ann" (some "k") (some 10))] ++ actions)

/-- Within the grace period the cache answers it. -/
theorem replay_iff_in_time :
    (submittedAgain 15 [.call 1 (.redis .answered), .call 1 (.redis .answered)]).2.verdict 1 =
        some (.accepted 5 false) ∧
      ∃ replay, Replayed .default ScheduleJobRequest.recipient
        (submittedAgain 15 [.call 1 (.redis .answered), .call 1 (.redis .answered)]).2 1 replay 5 := by
  generalize reached : submittedAgain 15 [.call 1 (.redis .answered), .call 1 (.redis .answered)] = final
  have run : Run (scheduling .default ScheduleJobRequest.recipient) final.1 final.2 := by
    rw [← reached]
    exact run_scheduleRun _ _ _ _
  have fresh : Along (fun _ taken => drawsFresh taken = true) final.1 := by
    rw [← reached]
    decide +kernel
  have verdicts : final.2.verdict 0 = some (.accepted 5 true) ∧
      final.2.verdict 1 = some (.accepted 5 false) := by
    rw [← reached]
    decide +kernel
  have requests : ∀ call ∈ final.2.calls, call.request = sampleRequest "ann" (some "k") (some 10) ∧
      call.submittedAt ≤ 15 := by
    rw [← reached]
    decide +kernel
  obtain ⟨call, found, accepted⟩ := Option.bind_eq_some_iff.mp verdicts.1
  obtain ⟨replay, found', _⟩ := Option.bind_eq_some_iff.mp verdicts.2
  have first := requests call (List.mem_of_getElem? found)
  have second := requests replay (List.mem_of_getElem? found')
  have named : call.request.idempotencyKey = some "k" := by rw [first.1, sampleRequest]
  refine ⟨verdicts.2, replay, (replay_iff run fresh found accepted named (by decide) found' ?_).mpr ?_⟩
  · rw [first.1, second.1]
  · rw [first.1]
    intro sendAt same
    cases same
    -- the second call came just within the grace of its time
    have grace : (15 : Time) = 10 + sendAtGrace := by decide +kernel
    rw [← grace]
    exact second.2

/-- A second later it is refused, though its job exists. -/
theorem replay_refused_late :
    Run (scheduling .default ScheduleJobRequest.recipient) (submittedAgain 16 []).1
        (submittedAgain 16 []).2 ∧
      Along (fun _ taken => drawsFresh taken = true) (submittedAgain 16 []).1 ∧
      (submittedAgain 16 []).2.calls.map
          (fun call => (call.request, call.submittedAt, call.stage.verdict)) =
        [(sampleRequest "ann" (some "k") (some 10), 0, some (.accepted 5 true)),
          (sampleRequest "ann" (some "k") (some 10), 16, some .invalidSchedule)] ∧
      ¬ ∃ replay, (submittedAgain 16 []).2.calls[1]? = some replay ∧
        Replayed .default ScheduleJobRequest.recipient (submittedAgain 16 []).2 1 replay 5 := by
  refine ⟨run_scheduleRun _ _ _ _, by decide +kernel, by decide +kernel, ?_⟩
  have refused : (submittedAgain 16 []).2.verdict 1 = some .invalidSchedule := by decide +kernel
  rintro ⟨replay, found, replayed⟩
  rw [verdict_of_found found] at refused
  cases replayed.answered _ refused

end

end Scheduling

end NotifyQueue
