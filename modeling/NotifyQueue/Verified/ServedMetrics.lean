import NotifyQueue.Services.Metrics
import NotifyQueue.Verified.MetricTotals

/-! # What the metrics endpoint serves

Every snapshot, cached or not, is what one count saw of the tables (`CountedAt`), so its numbers fit
together although the jobs moved on in the meantime.  A cached one was written to the cache
(`WroteAt`) at most the ttl before it was read (`FetchedAt`), whichever of the callers wrote it and
whatever Redis lost. -/

namespace NotifyQueue

open Runs MetricsCache

namespace MetricsService

/-! ## Where metrics come from -/

section

variable (history : History World Action) (i : Nat) (t : Time) (metrics : Metrics)

/-- The snapshot `i` counted the tables at `t`. -/
def CountedAt : Prop :=
  ∃ taken ∈ history, taken.before.caches.now = t ∧ ∃ generatedAt, taken.label = .count i generatedAt ∧
    metrics = compute t generatedAt taken.before.db

/-- The snapshot `i` wrote what it had counted to the cache at `t`. -/
def WroteAt : Prop :=
  ∃ taken ∈ history, taken.before.caches.now = t ∧ ∃ reply gotLock,
    taken.label = .cache (.caller i (.redis reply)) ∧ reply ≠ .failed false ∧
    taken.before.caches.callers[i]? = some (.putting metrics gotLock)

/-- The snapshot `i` found metrics in the cache at `t`. -/
def FetchedAt : Prop :=
  ∃ taken ∈ history, taken.before.caches.now = t ∧
    taken.label = .cache (.caller i (.redis .answered)) ∧
    taken.after.caches.callers[i]? = some (.returned metrics true)

end

/-- An entry of the cache: someone counted it, and later wrote it. -/
def Stored (settings : Settings) (history : History World Action) (now : Time)
    (entry : MetricsCache.Entry Metrics) : Prop :=
  ∃ k counted wrote, CountedAt history k counted entry.metrics ∧ WroteAt history k wrote entry.metrics ∧
    counted ≤ wrote ∧ wrote ≤ now ∧ entry.expiresAt = wrote + settings.cacheMetricsTtl

/-- The metrics that the snapshot `i` holds or returns. -/
def Sound (settings : Settings) (history : History World Action) (now : Time) (i : Nat) :
    Stage Metrics → Prop
  | .putting metrics _ => ∃ counted ≤ now, CountedAt history i counted metrics
  | .unlocking metrics _ => ∃ counted ≤ now, CountedAt history i counted metrics
  | .returned metrics false => ∃ counted ≤ now, CountedAt history i counted metrics
  | .returned metrics true =>
    ∃ k counted wrote fetched, CountedAt history k counted metrics ∧ WroteAt history k wrote metrics ∧
      FetchedAt history i fetched metrics ∧ counted ≤ wrote ∧ wrote ≤ fetched ∧ fetched ≤ now ∧
      unexpired fetched (wrote + settings.cacheMetricsTtl)
  | _ => True

structure Provenance (settings : Settings) (history : History World Action) (w : World) : Prop where
  stages : ∀ i stage, w.caches.callers[i]? = some stage →
    Sound settings history w.caches.now i stage
  entry : ∀ entry, w.caches.keys.metrics = some entry → Stored settings history w.caches.now entry

/-! ## What happened stays -/

section

variable {settings : Settings} {history : History World Action} {taken : Taken World Action} {i : Nat}
  {t now now' : Time} {metrics : Metrics}

theorem CountedAt.cons (counted : CountedAt history i t metrics) :
    CountedAt (taken :: history) i t metrics := by
  obtain ⟨earlier, member, rest⟩ := counted
  exact ⟨earlier, List.mem_cons_of_mem _ member, rest⟩

theorem WroteAt.cons (wrote : WroteAt history i t metrics) : WroteAt (taken :: history) i t metrics := by
  obtain ⟨earlier, member, rest⟩ := wrote
  exact ⟨earlier, List.mem_cons_of_mem _ member, rest⟩

theorem FetchedAt.cons (fetched : FetchedAt history i t metrics) :
    FetchedAt (taken :: history) i t metrics := by
  obtain ⟨earlier, member, rest⟩ := fetched
  exact ⟨earlier, List.mem_cons_of_mem _ member, rest⟩

theorem Stored.cons {entry : MetricsCache.Entry Metrics} (stored : Stored settings history now entry)
    (later : now ≤ now') : Stored settings (taken :: history) now' entry := by
  obtain ⟨k, counted, wrote, countedThen, wroteThen, inOrder, past, expires⟩ := stored
  exact ⟨k, counted, wrote, countedThen.cons, wroteThen.cons, inOrder, past.trans later, expires⟩

theorem own_cons (held : ∃ counted ≤ now, CountedAt history i counted metrics)
    (later : now ≤ now') : ∃ counted ≤ now', CountedAt (taken :: history) i counted metrics := by
  obtain ⟨counted, past, countedThen⟩ := held
  exact ⟨counted, past.trans later, countedThen.cons⟩

theorem Sound.cons {stage : Stage Metrics} (sound : Sound settings history now i stage)
    (later : now ≤ now') : Sound settings (taken :: history) now' i stage := by
  cases stage with
  | putting metrics gotLock => exact own_cons sound later
  | unlocking metrics gotLock => exact own_cons sound later
  | returned metrics fromCache =>
    cases fromCache with
    | false => exact own_cons sound later
    | true =>
      obtain ⟨k, counted, wrote, fetched, countedThen, wroteThen, fetchedThen, first, second, past,
        fresh⟩ := sound
      exact ⟨k, counted, wrote, fetched, countedThen.cons, wroteThen.cons, fetchedThen.cons, first,
        second, past.trans later, fresh⟩
  | _ => trivial

end

/-! ## One step -/

theorem get_eq_some {now : Time} {reply : RedisReply} {keys : Keys Metrics} {metrics : Metrics}
    (found : get now reply keys = some metrics) :
    reply = .answered ∧ ∃ entry, keys.metrics = some entry ∧ unexpired now entry.expiresAt ∧
      entry.metrics = metrics := by
  obtain _ | applied := reply
  · obtain ⟨entry, live, same⟩ := Option.map_eq_some_iff.mp found
    obtain ⟨stored, unexpired⟩ := Option.filter_eq_some_iff.mp live
    exact ⟨rfl, entry, stored, of_decide_eq_true unexpired, same⟩
  · cases applied <;> cases found

theorem metrics_setLock (now : Time) (owner : Option Nat) (reply : RedisReply)
    (keys : Keys Metrics) :
    (cacheCall keys reply (setLock now owner) false).2.metrics = keys.metrics := by
  have kept : (setLock now owner keys).2.metrics = keys.metrics := by
    unfold setLock
    split <;> rfl
  obtain _ | applied := reply
  · exact kept
  · cases applied with
    | true => exact kept
    | false => rfl

/-- A `SET` of the metrics that reaches Redis leaves the new entry or, for a ttl of 0, the old one. -/
theorem metrics_put {settings : Settings} {now : Time} {metrics : Metrics} {reply : RedisReply}
    {keys : Keys Metrics} {entry : MetricsCache.Entry Metrics}
    (stored :
      (cacheCall keys reply (fun keys => ((), setMetrics settings now metrics keys)) ()).2.metrics =
      some entry) :
    keys.metrics = some entry ∨
      reply ≠ .failed false ∧ entry = ⟨metrics, now + settings.cacheMetricsTtl⟩ := by
  have either : ∀ {entry}, (setMetrics settings now metrics keys).metrics = some entry →
      keys.metrics = some entry ∨ entry = ⟨metrics, now + settings.cacheMetricsTtl⟩ := by
    intro entry stored
    unfold setMetrics at stored
    split at stored
    · exact .inl stored
    · exact .inr (Option.some.inj stored).symm
  obtain _ | applied := reply
  · exact (either stored).imp_right fun same => ⟨by simp, same⟩
  · cases applied with
    | true => exact (either stored).imp_right fun same => ⟨by simp, same⟩
    | false => exact .inl stored

section

variable {settings : Settings} {history : History World Action} {w w' : World} {i : Nat}
  {stage stage' : Stage Metrics} {keys' : Keys Metrics}

/-- What a caller that goes on has to show. -/
theorem Provenance.of_caller (provenance : Provenance settings history w) {label : Action}
    (moved : w' = { w with
      caches := { w.caches with keys := keys', callers := w.caches.callers.set i stage' } })
    (inside : i < w.caches.callers.length)
    (sound : Sound settings (⟨w, label, w'⟩ :: history) w.caches.now i stage')
    (entry : ∀ entry, keys'.metrics = some entry → w.caches.keys.metrics = some entry ∨
      Stored settings (⟨w, label, w'⟩ :: history) w.caches.now entry) :
    Provenance settings (⟨w, label, w'⟩ :: history) w' := by
  subst moved
  constructor
  · intro k other found
    by_cases same : k = i
    · subst same
      rw [List.getElem?_set_self inside] at found
      cases found
      exact sound
    · rw [List.getElem?_set_ne (Ne.symm same)] at found
      exact (provenance.stages k other found).cons le_rfl
  · intro stored present
    cases entry stored present with
    | inl kept => exact (provenance.entry stored kept).cons le_rfl
    | inr new => exact new

/-- A lookup in the cache returns what is stored there, or goes on. -/
theorem sound_lookup (provenance : Provenance settings history w) {taken : Taken World Action}
    {reply : RedisReply} {metrics : Metrics}
    (found : get w.caches.now reply w.caches.keys = some metrics)
    (label : taken.label = .cache (.caller i (.redis reply)))
    (before : taken.before = w)
    (after : taken.after.caches.callers[i]? = some (.returned metrics true)) :
    Sound settings (taken :: history) w.caches.now i (.returned metrics true) := by
  obtain ⟨rfl, entry, stored, live, rfl⟩ := get_eq_some found
  obtain ⟨k, counted, wrote, countedThen, wroteThen, inOrder, past, expires⟩ :=
    provenance.entry entry stored
  have fetched : FetchedAt (taken :: history) i w.caches.now entry.metrics :=
    ⟨taken, List.mem_cons_self, by rw [before], label, after⟩
  exact ⟨k, counted, wrote, w.caches.now, countedThen.cons, wroteThen.cons, fetched, inOrder, past,
    le_rfl, expires ▸ live⟩

theorem sound_afterLock (gotLock : Bool) :
    Sound settings history w.caches.now i (afterLock settings w.caches.now gotLock) := by
  unfold afterLock
  split
  · trivial
  · split <;> trivial

/-- A command to Redis and its answer. -/
theorem Provenance.redis (provenance : Provenance settings history w) {reply : RedisReply}
    (found : w.caches.callers[i]? = some stage)
    (stepped : callerStep settings w.caches.now i w.caches.keys stage (.redis reply) =
      some (stage', keys'))
    (moved : w' = { w with
      caches := { w.caches with keys := keys', callers := w.caches.callers.set i stage' } }) :
    Provenance settings (⟨w, .cache (.caller i (.redis reply)), w'⟩ :: history) w' := by
  have inside : i < w.caches.callers.length := (List.getElem?_eq_some_iff.mp found).1
  have sound := provenance.stages i stage found
  have arrives : w'.caches.callers[i]? = some stage' := by
    rw [moved]
    exact List.getElem?_set_self inside
  cases stage with
  | looking =>
    simp only [callerStep] at stepped
    split at stepped <;> cases stepped
    · next metrics hit =>
      exact provenance.of_caller moved inside (sound_lookup provenance hit rfl rfl arrives)
        fun entry stored => .inl stored
    · exact provenance.of_caller moved inside trivial fun entry stored => .inl stored
  | lookingAgain =>
    simp only [callerStep] at stepped
    split at stepped <;> cases stepped
    · next metrics hit =>
      exact provenance.of_caller moved inside (sound_lookup provenance hit rfl rfl arrives)
        fun entry stored => .inl stored
    · exact provenance.of_caller moved inside trivial fun entry stored => .inl stored
  | locking =>
    cases stepped
    refine provenance.of_caller moved inside (sound_afterLock _) ?_
    intro entry stored
    have kept := metrics_setLock w.caches.now (if reply = .answered then some i else none) reply
      w.caches.keys
    exact .inl (kept.symm.trans stored)
  | putting metrics gotLock =>
    cases stepped
    refine provenance.of_caller moved inside ?_ ?_
    · cases gotLock <;> exact own_cons sound le_rfl
    · intro entry stored
      refine (metrics_put stored).imp_right ?_
      rintro ⟨reached, rfl⟩
      obtain ⟨counted, past, countedThen⟩ := sound
      have wrote : WroteAt (⟨w, .cache (.caller i (.redis reply)), w'⟩ :: history) i w.caches.now
          metrics := ⟨_, List.mem_cons_self, rfl, reply, gotLock, rfl, reached, found⟩
      exact ⟨i, counted, w.caches.now, countedThen.cons, wrote, past, le_rfl, rfl⟩
  | unlocking metrics gotLock =>
    cases stepped
    refine provenance.of_caller moved inside ?_ ?_
    · exact own_cons sound le_rfl
    · intro entry stored
      refine .inl ?_
      obtain _ | applied := reply
      · exact stored
      · cases applied <;> exact stored
  | _ => cases stepped

/-- The count of a snapshot that computes. -/
theorem Provenance.count (provenance : Provenance settings history w) {generatedAt : Time}
    (found : w.caches.callers[i]? = some stage)
    (stepped : callerStep settings w.caches.now i w.caches.keys stage
      (.computed (compute w.caches.now generatedAt w.db)) = some (stage', keys'))
    (moved : w' = { w with
      caches := { w.caches with keys := keys', callers := w.caches.callers.set i stage' } }) :
    Provenance settings (⟨w, .count i generatedAt, w'⟩ :: history) w' := by
  have inside : i < w.caches.callers.length := (List.getElem?_eq_some_iff.mp found).1
  cases stage with
  | computing gotLock =>
    cases stepped
    refine provenance.of_caller moved inside ?_ fun entry stored => .inl stored
    exact ⟨w.caches.now, le_rfl, _, List.mem_cons_self, rfl, generatedAt, rfl, rfl⟩
  | _ => cases stepped

/-- A caller that wakes up or fails holds nothing. -/
theorem Provenance.quiet (provenance : Provenance settings history w) {action : CallerAction Metrics}
    (quiet : action = .wake ∨ action = .fail) (found : w.caches.callers[i]? = some stage)
    (stepped : callerStep settings w.caches.now i w.caches.keys stage action = some (stage', keys'))
    (moved : w' = { w with
      caches := { w.caches with keys := keys', callers := w.caches.callers.set i stage' } }) :
    Provenance settings (⟨w, .cache (.caller i action), w'⟩ :: history) w' := by
  have inside : i < w.caches.callers.length := (List.getElem?_eq_some_iff.mp found).1
  have nothing : keys' = w.caches.keys ∧ (stage' = .lookingAgain ∨ stage' = .raised) := by
    obtain rfl | rfl := quiet
    · cases stage with
      | sleeping wakesAt =>
        simp only [callerStep, Option.ite_none_right_eq_some, Option.some.injEq,
          Prod.mk.injEq] at stepped
        exact ⟨stepped.2.2.symm, .inl stepped.2.1.symm⟩
      | _ => cases stepped
    · cases stage <;> cases stepped <;> exact ⟨rfl, .inr rfl⟩
  obtain ⟨rfl, ends⟩ := nothing
  refine provenance.of_caller moved inside ?_ fun entry stored => .inl stored
  obtain rfl | rfl := ends <;> trivial

/-- A world in which the callers are where they were, and the cache has no more than before. -/
theorem Provenance.later (provenance : Provenance settings history w) {label : Action}
    (callers : ∀ (i : Nat) (stage : Stage Metrics), w'.caches.callers[i]? = some stage →
      w.caches.callers[i]? = some stage ∨ stage = .looking)
    (keys : ∀ entry, w'.caches.keys.metrics = some entry → w.caches.keys.metrics = some entry)
    (forward : w.caches.now ≤ w'.caches.now) :
    Provenance settings (⟨w, label, w'⟩ :: history) w' := by
  constructor
  · intro i stage found
    obtain before | rfl := callers i stage found
    · exact (provenance.stages i stage before).cons forward
    · trivial
  · intro entry stored
    exact (provenance.entry entry (keys entry stored)).cons forward

end

section

variable {settings : Settings} {history : History World Action} {w w' : World}

theorem Provenance.step (provenance : Provenance settings history w) {action : Action}
    (stepped : w.step settings action = some w') :
    Provenance settings (⟨w, action, w'⟩ :: history) w' := by
  cases action with
  | operate op began =>
    simp only [World.step, Option.ite_none_right_eq_some, Option.some.injEq] at stepped
    obtain ⟨_, rfl⟩ := stepped
    exact provenance.later (fun i stage found => .inl found) (fun entry stored => stored) le_rfl
  | count i generatedAt =>
    simp only [World.step, Option.map_eq_some_iff] at stepped
    obtain ⟨caches, stepped, rfl⟩ := stepped
    simp only [MetricsCache.World.step] at stepped
    split at stepped
    · cases stepped
    · next stage found =>
      simp only [Option.ite_none_right_eq_some, Option.map_eq_some_iff] at stepped
      obtain ⟨_, ⟨stage', keys'⟩, callerSteps, rfl⟩ := stepped
      exact provenance.count found callerSteps rfl
  | cache action =>
    simp only [World.step, Option.ite_none_left_eq_some, Option.map_eq_some_iff] at stepped
    obtain ⟨uncomputed, caches, stepped, rfl⟩ := stepped
    cases action with
    | tick elapsed =>
      simp only [MetricsCache.World.step, Option.ite_none_right_eq_some, Option.some.injEq] at stepped
      obtain ⟨forward, rfl⟩ := stepped
      exact provenance.later (fun i stage found => .inl found) (fun entry stored => stored)
        (le_add_of_nonneg_right forward)
    | getOrCompute =>
      cases stepped
      refine provenance.later ?_ (fun entry stored => stored) le_rfl
      intro i stage found
      have found : (w.caches.callers ++ [.looking])[i]? = some stage := found
      rw [List.getElem?_append] at found
      split at found
      · exact .inl found
      · rw [List.getElem?_singleton] at found
        split at found <;> cases found
        exact .inr rfl
    | dropMetrics =>
      cases stepped
      exact provenance.later (fun i stage found => .inl found) (fun entry stored => by cases stored)
        le_rfl
    | caller i action =>
      simp only [MetricsCache.World.step] at stepped
      split at stepped
      · cases stepped
      · next stage found =>
        simp only [Option.ite_none_right_eq_some, Option.map_eq_some_iff] at stepped
        obtain ⟨_, ⟨stage', keys'⟩, callerSteps, rfl⟩ := stepped
        cases action with
        | redis reply => exact provenance.redis found callerSteps rfl
        | wake => exact provenance.quiet (.inl rfl) found callerSteps rfl
        | computed metrics => exact absurd rfl uncomputed
        | fail => exact provenance.quiet (.inr rfl) found callerSteps rfl

theorem provenance_of_run (reaches : Run (system settings) history w) :
    Provenance settings history w := by
  induction reaches with
  | start initial =>
    obtain ⟨start, rfl⟩ := initial
    exact ⟨fun i stage found => (by cases found), fun entry stored => (by cases stored)⟩
  | next _ stepped inductionHypothesis => exact inductionHypothesis.step stepped

/-- The tables at any moment are those of a run of the job operations. -/
theorem tables_of_run (reaches : Run (system settings) history w) :
    ∃ jobHistory, Run jobSystem jobHistory w.db := by
  induction reaches with
  | start initial =>
    obtain ⟨start, rfl⟩ := initial
    exact ⟨[], .start rfl⟩
  | @next history w w' action _ stepped inductionHypothesis =>
    obtain ⟨jobHistory, jobs⟩ := inductionHypothesis
    have stepped : w.step settings action = some w' := stepped
    cases action with
    | operate op began =>
      simp only [World.step, Option.ite_none_right_eq_some, Option.some.injEq] at stepped
      obtain ⟨_, rfl⟩ := stepped
      have committed : jobSystem.step w.db ⟨op, began, (op.commit began w.db).1⟩
        (op.commit began w.db).2 := rfl
      exact ⟨_, .next jobs committed⟩
    | count i generatedAt =>
      simp only [World.step, Option.map_eq_some_iff] at stepped
      obtain ⟨caches, _, rfl⟩ := stepped
      exact ⟨jobHistory, jobs⟩
    | cache action =>
      simp only [World.step, Option.ite_none_left_eq_some, Option.map_eq_some_iff] at stepped
      obtain ⟨_, caches, _, rfl⟩ := stepped
      exact ⟨jobHistory, jobs⟩

end

/-- The numbers of an answer fit together, and the tables that were counted. -/
structure Fits (metrics : Metrics) (db : Db) : Prop where
  jobs : metrics.pending + metrics.processing + metrics.sent + metrics.deadLettered =
    db.jobs.rows.length
  attempts : metrics.failedAttemptsTotal + metrics.sent = db.jobAttempts.rows.length

/-- Whatever a snapshot returns was counted in one state of the tables, by itself or, when it comes
    from the cache, by a snapshot that wrote it there at most the ttl before it was read, on the
    clock of Redis. -/
theorem served_metrics {settings : Settings} {history : History World Action} {w : World}
    (reaches : Run (system settings) history w) {i : Nat} {metrics : Metrics} {fromCache : Bool}
    (served : w.caches.callers[i]? = some (.returned metrics fromCache)) :
    ∃ k counted, counted ≤ w.caches.now ∧
      (∃ taken ∈ history, ∃ generatedAt, taken.label = .count k generatedAt ∧
        taken.before.caches.now = counted ∧
        metrics = compute counted generatedAt taken.before.db ∧ Fits metrics taken.before.db) ∧
      (fromCache = false → k = i) ∧
      (fromCache = true → ∃ wrote fetched, WroteAt history k wrote metrics ∧
        FetchedAt history i fetched metrics ∧ counted ≤ wrote ∧ wrote ≤ fetched ∧
        fetched ≤ w.caches.now ∧ unexpired fetched (wrote + settings.cacheMetricsTtl)) := by
  have tables : ∀ {k counted}, CountedAt history k counted metrics →
      ∃ taken ∈ history, ∃ generatedAt, taken.label = .count k generatedAt ∧
        taken.before.caches.now = counted ∧ metrics = compute counted generatedAt taken.before.db ∧
        Fits metrics taken.before.db := by
    intro k counted countedThen
    obtain ⟨taken, member, time, generatedAt, label, same⟩ := countedThen
    obtain ⟨⟨earlier, reached, _⟩, _⟩ := reaches.of_mem member
    obtain ⟨jobHistory, jobs⟩ := tables_of_run reached
    have fits : Fits metrics taken.before.db := by
      rw [same]
      exact ⟨status_split _, failed_add_sent jobs counted⟩
    exact ⟨taken, member, generatedAt, label, time, same, fits⟩
  have sound := (provenance_of_run reaches).stages i _ served
  cases fromCache with
  | false =>
    obtain ⟨counted, past, countedThen⟩ := sound
    exact ⟨i, counted, past, tables countedThen, fun _ => rfl, fun cached => by cases cached⟩
  | true =>
    obtain ⟨k, counted, wrote, fetched, countedThen, wroteThen, fetchedThen, first, second, past,
      fresh⟩ := sound
    exact ⟨k, counted, first.trans (second.trans past), tables countedThen, (fun own => by cases own),
      fun _ => ⟨wrote, fetched, wroteThen, fetchedThen, first, second, past, fresh⟩⟩

/-- A snapshot a second after the job was claimed is answered from the cache, which does not know. -/
def cachedSnapshot : History World Action × World :=
  run .default 0
    [.operate (.createJob 1 (sampleJob 3)) 0, .cache .getOrCompute,
      .cache (.caller 0 (.redis .answered)), .cache (.caller 0 (.redis .answered)), .count 0 0,
      .cache (.caller 0 (.redis .answered)), .cache (.caller 0 (.redis .answered)), .cache (.tick 1),
      .operate (.claimDueJobs "worker-1" 5 10 (fun _ => 70) .alone) 1, .cache .getOrCompute,
      .cache (.caller 1 (.redis .answered))]

theorem served_metrics_cached :
    (jobCounts 1 cachedSnapshot.2.db).pending = 0 ∧ ∃ metrics,
      cachedSnapshot.2.caches.callers[1]? = some (.returned metrics true) ∧ metrics.pending = 1 ∧
        ∃ k wrote, WroteAt cachedSnapshot.1 k wrote metrics := by
  have served : cachedSnapshot.2.caches.callers[1]? =
      some (.returned ⟨1, 1, 0, 0, 0, 0, 0, 0, 0, 0⟩ true) := by decide +kernel
  obtain ⟨k, _, _, _, _, cached⟩ := served_metrics (run_run .default 0 _) served
  obtain ⟨wrote, _, wroteThen, _⟩ := cached rfl
  exact ⟨by decide +kernel, _, served, rfl, k, wrote, wroteThen⟩

end MetricsService

end NotifyQueue
