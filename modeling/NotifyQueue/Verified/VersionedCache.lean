import Mathlib.Data.Rat.Encodable
import Mathlib.Logic.Equiv.List
import Mathlib.Tactic.DeriveEncodable
import NotifyQueue.Verified.CacheSteps

/-! # The cache and the versions of the rows

Readers and invalidators hold what they read or committed for as long as they like.  A text is
nevertheless always one committed row at its version, and a write for a version fences off every
older one for as long as its key lives. -/

namespace NotifyQueue

open Runs Tables Versions

/-- The key and the version of a write that Redis carried out. -/
def CacheAction.applied (settings : Settings) : CacheAction → Option (JobId × Int)
  | .put out reply =>
    if reply ≠ .failed false ∧ JobTexts.jobTtl settings out ≠ 0 then some (out.id, out.version)
    else none
  | .invalidate transition reply =>
    if reply ≠ .failed false ∧ settings.cacheTombstoneTtl ≠ 0 then
      some (transition.jobId, transition.version)
    else none
  | _ => none

/-- The key lived through these steps. -/
def Unexpired (jobId : JobId) (later : CacheHistory) : Prop :=
  ∀ taken ∈ later, (taken.after.stored jobId).isSome = true

/-- The coherence of the cache at the end of a run. -/
structure VersionedCoherence (json : JobJson) (settings : Settings) (history : CacheHistory)
    (w : CacheWorld) : Prop where
  raisesByOne : ∀ taken ∈ history, ∀ jobId,
    Bump Job.version 1 (getJob taken.before.db jobId) (getJob taken.after.db jobId)
  determined : ∀ row other, Committed history w row → Committed history w other →
    row.id = other.id → row.version = other.version → row = other
  committed : ∀ jobId reply, JobTexts.get json w.now jobId reply w.texts = .ok none ∨
    ∃ row, Committed history w row ∧ row.id = jobId ∧
      JobTexts.get json w.now jobId reply w.texts = .ok (some (.fromDomain row))
  readBack : ∀ job reply, (w.texts.put json settings w.now job reply).1 = true →
    JobTexts.get json w.now job.id .answered (w.texts.put json settings w.now job reply).2 =
      .ok (some job)
  increases : ∀ later taken earlier jobId v, history = later ++ taken :: earlier →
    taken.after.stored jobId = some v → Unexpired jobId later → ∃ v', w.stored jobId = some v' ∧ v ≤ v'
  fenced : ∀ later taken earlier jobId v, history = later ++ taken :: earlier →
    taken.label.applied settings = some (jobId, v) → Unexpired jobId later →
      (∀ reply job, JobTexts.get json w.now jobId reply w.texts = .ok (some job) → v ≤ job.version) ∧
        ∀ job reply, job.id = jobId → job.version < v →
          w.texts.put json settings w.now job reply = (false, w.texts)

section

variable {json : JobJson} {settings : Settings} {history : CacheHistory} {w w' : CacheWorld}
  {action : CacheAction} {jobId : JobId} {v : Int}

/-- A put that reports success is read back as the job that was put. -/
theorem get_put {texts : JobTexts} {now : Time} {job : JobOut} {reply : RedisReply}
    (written : (texts.put json settings now job reply).1 = true) :
    JobTexts.get json now job.id .answered (texts.put json settings now job reply).2 =
      .ok (some job) := by
  cases reply with
  | failed applied => cases applied <;> cases written
  | answered =>
    have how := setIfNewer_cases texts now job.id job.version (json.dump job)
      (JobTexts.jobTtl settings job)
    simp only [JobTexts.put, cacheCall] at written ⊢
    generalize texts.setIfNewer now job.id job.version (json.dump job) (JobTexts.jobTtl settings job) =
      result at how written
    cases how with
    | older _ _ => cases written
    | refused _ => cases written
    | written set _ =>
      apply get_of_body
      rw [read_written, if_pos rfl]

/-- While its key lives, a version is only followed by newer ones. -/
theorem stored_since {later earlier : CacheHistory} {taken : Taken CacheWorld CacheAction}
    (run : Run (cacheSystem json settings) (later ++ taken :: earlier) w)
    (begins : ∃ v', taken.after.stored jobId = some v' ∧ v ≤ v') (lived : Unexpired jobId later) :
    ∃ v', w.stored jobId = some v' ∧ v ≤ v' := by
  refine Run.since (P := fun w : CacheWorld => ∃ v', w.stored jobId = some v' ∧ v ≤ v')
    (Q := fun w : CacheWorld => (w.stored jobId).isSome = true) ?_ run begins lived
  intro w action w' before step lives
  obtain ⟨old, shows, newer⟩ := before
  obtain ⟨new, shows'⟩ := Option.isSome_iff_exists.mp lives
  -- the key is still there after the step, so the step did not lower its version
  exact ⟨new, shows', newer.trans ((CacheWorld.step_cases step).stored_le shows shows')⟩

/-- A write that was carried out leaves its version, or a newer one. -/
theorem CacheStep.stored_applied (step : CacheStep json settings w action w')
    (applied : action.applied settings = some (jobId, v)) :
    ∃ v', w'.stored jobId = some v' ∧ v ≤ v' := by
  cases step with
  | put reply _ =>
    simp only [CacheAction.applied, Option.ite_none_right_eq_some, Option.some.injEq,
      Prod.mk.injEq] at applied
    obtain ⟨⟨reached, set⟩, rfl, rfl⟩ := applied
    exact storedVersion_applied set reached
  | invalidate reply _ =>
    simp only [CacheAction.applied, Option.ite_none_right_eq_some, Option.some.injEq,
      Prod.mk.injEq] at applied
    obtain ⟨⟨reached, set⟩, rfl, rfl⟩ := applied
    exact storedVersion_applied set reached
  | _ => cases applied

/-- Whatever the order in which rows are read, put, invalidated and dropped, the cache returns
    committed rows only, and never one below a version that was written for its key. -/
theorem versioned_cache (run : Run (cacheSystem json settings) history w) :
    VersionedCoherence json settings history w := by
  have held := fromPostgres_of_run run
  constructor
  case raisesByOne =>
    intro taken member jobId
    exact cacheSystem_bumps _ _ _ (run.of_mem member).2 jobId
  case determined =>
    intro row other was otherWas sameId sameVersion
    rw [Committed, ← sameId] at otherWas
    exact Seen.determined run cacheSystem_bumps was otherWas sameVersion
  case committed =>
    intro jobId reply
    obtain missed | ⟨row, _, was, named, _, _, _, returned⟩ := held.get jobId reply
    · exact .inl missed
    · exact .inr ⟨row, was, named, returned⟩
  case readBack => exact fun job reply written => get_put written
  case increases =>
    intro later taken earlier jobId v split shows lived
    subst split
    exact stored_since run ⟨v, shows, le_refl v⟩ lived
  case fenced =>
    intro later taken earlier jobId v split applied lived
    subst split
    have step := CacheWorld.step_cases (run.of_mem (List.mem_append_right later List.mem_cons_self)).2
    -- the key has lived since, so its version has not gone down
    obtain ⟨v', shows, newer⟩ := stored_since run (step.stored_applied applied) lived
    constructor
    · intro reply job returned
      obtain missed | ⟨row, _, _, _, _, _, shows', returned'⟩ := held.get jobId reply
      · cases missed.symm.trans returned
      · cases returned'.symm.trans returned
        cases shows'.symm.trans shows
        exact newer
    · intro job reply named below
      subst named
      exact call_below shows (lt_of_lt_of_le below newer)

end

/-! ## A read that comes too late -/

instance encodableChar : Encodable Char := .ofLeftInverse Char.toNat Char.ofNat (by simp)

instance encodableString : Encodable String := .ofLeftInverse String.toList String.ofList (by simp)

deriving instance Encodable for Channel, JobStatus, Priority, JobOut

theorem brace_mem (fields : String) : '\x7b' ∈ ("\x7b" ++ fields ++ "\x7d").toList := by
  simp

/-- The JSON of one job; every other job is numbered. -/
def jsonOf (known : JobOut) (fields : String) : JobJson where
  dump job := if job = known then "\x7b" ++ fields ++ "\x7d" else (Encodable.encode job).repr
  validate text :=
    if text = "\x7b" ++ fields ++ "\x7d" then some known
    else (Texts.digits? text).bind Encodable.decode
  validate_dump := by
    intro job
    by_cases same : job = known
    · simp [same]
    · have numbered : (Encodable.encode job).repr ≠ "\x7b" ++ fields ++ "\x7d" := by
        intro text
        have digits := Texts.digits?_repr (Encodable.encode job)
        rw [text, Texts.digits?_eq_none (brace_mem fields) (by decide)] at digits
        contradiction
      simp [same, numbered, Texts.digits?_repr]
  dump_ne_empty := by
    intro job
    split
    · intro empty
      have member := brace_mem fields
      rw [empty] at member
      simp at member
    · exact Nat.repr_ne_empty

/-- A job whose payload has a separator in it. -/
def barredJob : NewJob := { sampleJob 3 with payload := "\x7b\"text\":\"a|b\"\x7d" }

/-- The job as it was created. -/
def barredOut : JobOut := .fromDomain (barredJob.row 1 0)

def barredJson : JobJson := jsonOf barredOut <|
  "\"id\":\"00000000-0000-0000-0000-000000000001\",\"idempotency_key\":null," ++
  "\"recipient\":\"ada@example.com\",\"channel\":\"email\",\"payload\":\x7b\"text\":\"a|b\"\x7d," ++
  "\"priority\":\"normal\",\"status\":\"pending\",\"retrying\":false," ++
  "\"run_at\":\"1970-01-01T00:00:00Z\",\"attempts\":0,\"max_attempts\":3,\"last_error\":null," ++
  "\"callback_url\":null,\"version\":1,\"created_at\":\"1970-01-01T00:00:00Z\"," ++
  "\"updated_at\":\"1970-01-01T00:00:00Z\",\"sent_at\":null"

def firstRead : CacheHistory × CacheWorld :=
  cacheRun barredJson .default 0 [.job (.createJob 1 barredJob) 0, .read 1]

/-- The job is read and put; then it is sent and invalidated. -/
def overtakenRead : CacheHistory × CacheWorld :=
  cacheRun barredJson .default 0
    [.job (.createJob 1 barredJob) 0, .read 1, .put barredOut .answered, .tick 1,
      .job (.claimDueJobs "worker-1" 5 10 (fun _ => 70) .alone) 1,
      .job (.markSent 1 70 "worker-1" none "" 900) 1, .invalidate ⟨1, 3, .sent⟩ .answered]

/-- The first version is read back, separator and all; once it is overtaken, a reader that still
    holds it cannot put it. -/
theorem versioned_cache_late :
    JobTexts.get barredJson firstRead.2.now 1 .answered
        (firstRead.2.texts.put barredJson .default firstRead.2.now barredOut .answered).2 =
          .ok (some barredOut) ∧
      barredOut ∈ overtakenRead.2.reads ∧
      overtakenRead.2.texts.put barredJson .default overtakenRead.2.now barredOut .answered =
        (false, overtakenRead.2.texts) := by
  have firstRun : Run (cacheSystem barredJson .default) firstRead.1 firstRead.2 := run_cacheRun _ _ _ _
  have run : Run (cacheSystem barredJson .default) overtakenRead.1 overtakenRead.2 :=
    run_cacheRun _ _ _ _
  have readBack := (versioned_cache firstRun).readBack barredOut .answered (by decide +kernel)
  have last : overtakenRead.1.head?.map (fun taken => taken.label.applied .default) =
      some (some (1, 3)) := by
    decide +kernel
  obtain ⟨taken, head, applied⟩ := Option.map_eq_some_iff.mp last
  have split : overtakenRead.1 = [] ++ taken :: overtakenRead.1.tail :=
    (List.cons_head?_tail head).symm
  have fenced := (versioned_cache run).fenced [] taken _ 1 3 split applied (by simp [Unexpired])
  exact ⟨readBack, by decide +kernel, fenced.2 barredOut .answered rfl (by decide)⟩

end NotifyQueue
