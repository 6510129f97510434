import NotifyQueue.Lib.Draining
import NotifyQueue.Verified.FixedWindow
import NotifyQueue.Worker.Reaper

/-! # What one pass of the reaper does

A pass takes the expired leases, oldest first, as many as its batch has room for, and passes over
the rows that others have locked (`PassReclaims`).  On tables that a run has reached nothing can
roll it back but an event id that was drawn before. -/

namespace NotifyQueue

open Aborts Draining Runs Tables

/-! ## The order -/

instance expiryOrder_total : Std.Total expiryOrder where
  total a b := by
    unfold expiryOrder nullsLast
    cases a.leaseExpiresAt with
    | none => cases b.leaseExpiresAt <;> simp
    | some x =>
      cases b.leaseExpiresAt with
      | none => simp
      | some y => simpa using le_total x y

instance expiryOrder_trans : IsTrans Job expiryOrder where
  trans a b c := by
    unfold expiryOrder nullsLast
    cases a.leaseExpiresAt <;> cases b.leaseExpiresAt <;> cases c.leaseExpiresAt <;> simp
    exact le_trans

/-- Among rows with a lease the order is that of the leases. -/
theorem expiryOrder_iff {a b : Job} {x y : Time} (leaseA : a.leaseExpiresAt = some x)
    (leaseB : b.leaseExpiresAt = some y) : expiryOrder a b ↔ x ≤ y := by
  simp [expiryOrder, nullsLast, leaseA, leaseB]

/-! ## One pass -/

/-- The jobs that a pass may take. -/
def reclaimable (now : Time) (choices : Choices) (db : Db) : List Job :=
  db.jobs.select fun row =>
    row.status = .processing && leaseExpired now row && !choices.locked row.id

/-- What a pass promises: the oldest expired leases, as many as fit, each of them ended with its
    attempt, its event and, at the cap, its dead letter; no other job is touched, and of the
    buckets only those older than two windows are gone. -/
structure PassReclaims (settings : Settings) (now : Time) (newEvent : JobId → EventId)
    (choices : Choices) (tables : QueueTables) (reaped : List Transition) (tables' : QueueTables) :
    Prop where
  count : reaped.length = min settings.reaperBatchSize (reclaimable now choices tables.db).length
  distinct : (reaped.map Transition.jobId).Nodup
  ended : ∀ t ∈ reaped, ∃ row ∈ reclaimable now choices tables.db,
    t = transition (reapedRow now row) ∧
    tables'.db.slice row.id = (tables.db.slice row.id).finishFailed now (reapedRow now row)
      row.lockedBy .leaseExpired leaseExpiredError maxAttemptsReason
      (targetUrl row.callbackUrl settings.defaultCallbackUrl) (newEvent row.id) row.claimedAt
  oldestFirst : ∀ row ∈ reclaimable now choices tables.db, row.id ∈ reaped.map Transition.jobId →
    ∀ other ∈ reclaimable now choices tables.db, other.id ∉ reaped.map Transition.jobId →
      expiryOrder row other
  unchanged : ∀ j, j ∉ reaped.map Transition.jobId → tables'.db.slice j = tables.db.slice j
  buckets : ∀ key, tables'.buckets.lookup key =
    (tables.buckets.lookup key).filter fun bucket =>
      !(bucket.windowStart < now - settings.rateLimitWindowSeconds * 2)

section

variable {settings : Settings} {now : Time} {limit : Nat} {defaultCallbackUrl : String}
  {newEvent : JobId → EventId} {choices : Choices} {db db' : Db} {tables tables' : QueueTables}
  {reaped : List Transition}

theorem mem_reclaimable {row : Job} : row ∈ reclaimable now choices db ↔
    row ∈ db.jobs.rows ∧ row.status = .processing ∧ leaseExpired now row = true ∧
      choices.locked row.id = false := by
  simp [reclaimable, Table.select, and_assoc]

theorem reclaimable_ids_nodup (now : Time) (choices : Choices) (db : Db) :
    ((reclaimable now choices db).map Job.id).Nodup :=
  db.jobs.pk_nodup.sublist (List.filter_sublist.map Job.id)

/-- The pass takes the first expired rows. -/
theorem expiredJobs_takes (now : Time) (limit : Nat) (choices : Choices) (db : Db) :
    ∃ rest, Takes expiryOrder limit (reclaimable now choices db) (expiredJobs now limit choices db)
      rest :=
  takes_topRows choices.scan limit _

/-- The rows that `RETURNING` yields are the selected ones. -/
theorem returned_perm (choices : Choices) {rows : List Job}
    (inTable : ∀ row ∈ rows, row ∈ db.jobs.rows) (nodup : rows.Nodup) :
    (choices.returned.arrange (db.jobs.select (selected rows))).Perm rows := by
  have arranged := choices.returned.perm (db.jobs.select (selected rows))
  have distinct : (choices.returned.arrange (db.jobs.select (selected rows))).Nodup :=
    arranged.nodup_iff.mpr (db.jobs.rows_nodup.filter _)
  rw [List.perm_ext_iff_of_nodup distinct nodup]
  intro row
  exact mem_arrange_selected choices inTable

/-- The transitions that the reaper returns are those of the rows that it selected. -/
theorem reaped_perm
    (returned : reapExpiredLeases now limit defaultCallbackUrl newEvent choices db = .ok (reaped, db')) :
    reaped.Perm ((expiredJobs now limit choices db).map fun old => transition (reapedRow now old)) := by
  obtain ⟨_, _, returned⟩ := bind_eq_ok.mp returned
  rw [pure_eq_ok] at returned
  obtain ⟨rfl, _⟩ := Prod.mk.inj returned
  have inTable : ∀ row ∈ expiredJobs now limit choices db, row ∈ db.jobs.rows :=
    fun row member => (mem_expiredJobs member).1
  have nodup : (expiredJobs now limit choices db).Nodup := by
    obtain ⟨rest, takes⟩ := expiredJobs_takes now limit choices db
    have whole := takes.perm.nodup_iff.mpr (reclaimable_ids_nodup now choices db).of_map
    exact (List.nodup_append.mp whole).1
  exact (returned_perm choices inTable nodup).map _

theorem reaped_ids
    (returned : reapExpiredLeases now limit defaultCallbackUrl newEvent choices db = .ok (reaped, db')) :
    (reaped.map Transition.jobId).Perm ((expiredJobs now limit choices db).map Job.id) := by
  have mapped := (reaped_perm returned).map Transition.jobId
  rwa [List.map_map] at mapped

/-- What the pass leaves of a job that it returned a transition for. -/
theorem slice_of_reaped
    (returned : reapExpiredLeases now limit defaultCallbackUrl newEvent choices db = .ok (reaped, db'))
    {row : Job} (expired : row ∈ expiredJobs now limit choices db) :
    db'.slice row.id = (db.slice row.id).finishFailed now (reapedRow now row) row.lockedBy
      .leaseExpired leaseExpiredError maxAttemptsReason
      (targetUrl row.callbackUrl defaultCallbackUrl) (newEvent row.id) row.claimedAt := by
  have step := reapExpiredLeases_slice returned row.id
  have found : getJob db row.id = some row := Table.lookup_of_mem (mem_expiredJobs expired).1
  -- the transition that names the job is its own
  have named : row.id ∈ reaped.map Transition.jobId :=
    (reaped_ids returned).mem_iff.mpr (List.mem_map_of_mem expired)
  obtain ⟨t, member, ofRow⟩ := List.mem_map.mp named
  have first : ∃ status, finishedEvent (.ended .leaseExpired)
      (reaped.find? fun t => t.jobId = row.id) row.id = some (.ended .leaseExpired status) := by
    have sought : reaped.find? (fun other => other.jobId = t.jobId) = some t :=
      Table.find?_key (reaped_nodup returned) member
    rw [ofRow] at sought
    exact ⟨t.status, by rw [sought]; simp [finishedEvent, ofRow]⟩
  obtain ⟨status, event⟩ := first
  rw [event] at step
  generalize db'.slice row.id = s' at step
  cases step with
  | reaped _ _ present _ _ _ _ =>
    cases present.symm.trans found
    rfl

/-- What the pass leaves alone. -/
theorem slice_of_not_reaped
    (returned : reapExpiredLeases now limit defaultCallbackUrl newEvent choices db = .ok (reaped, db'))
    {j : JobId} (unnamed : j ∉ reaped.map Transition.jobId) : db'.slice j = db.slice j := by
  have step := (reapExpiredLeases_slice returned j).slice
  have none : reaped.find? (fun t => t.jobId = j) = none := by
    rw [List.find?_eq_none]
    intro t member
    have other : t.jobId ≠ j := by
      intro same
      rw [← same] at unnamed
      exact unnamed (List.mem_map_of_mem member)
    simp [other]
  rw [none] at step
  exact step.idle_eq

theorem runOnce_eq_ok
    (passed : Reaper.runOnce settings now newEvent choices tables = .ok (reaped, tables')) :
    reapExpiredLeases now settings.reaperBatchSize settings.defaultCallbackUrl newEvent choices
        tables.db = .ok (reaped, tables'.db) ∧
      tables'.buckets =
        (deleteOldRateLimitBuckets now settings.rateLimitWindowSeconds tables.buckets).2 := by
  obtain ⟨⟨_, db'⟩, returned, rest⟩ := bind_eq_ok.mp passed
  rw [pure_eq_ok] at rest
  obtain ⟨rfl, rfl⟩ := Prod.mk.inj rest
  exact ⟨returned, rfl⟩

theorem passReclaims
    (passed : Reaper.runOnce settings now newEvent choices tables = .ok (reaped, tables')) :
    PassReclaims settings now newEvent choices tables reaped tables' := by
  obtain ⟨returned, buckets⟩ := runOnce_eq_ok passed
  obtain ⟨rest, takes⟩ := expiredJobs_takes now settings.reaperBatchSize choices tables.db
  have ids := reaped_ids returned
  have whole := (takes.perm.map Job.id).nodup_iff.mpr (reclaimable_ids_nodup now choices tables.db)
  rw [List.map_append, List.nodup_append] at whole
  constructor
  case count => rw [(reaped_perm returned).length_eq, List.length_map, takes.length]
  case distinct => exact reaped_nodup returned
  case ended =>
    intro t member
    obtain ⟨row, expired, rfl⟩ := List.mem_map.mp ((reaped_perm returned).mem_iff.mp member)
    have inItems := takes.perm.mem_iff.mp (List.mem_append_left rest expired)
    exact ⟨row, inItems, rfl, slice_of_reaped returned expired⟩
  case oldestFirst =>
    intro row inItems named other otherInItems unnamed
    have taken : row ∈ expiredJobs now settings.reaperBatchSize choices tables.db := by
      cases List.mem_append.mp (takes.perm.mem_iff.mpr inItems) with
      | inl taken => exact taken
      | inr left =>
        exact absurd rfl (whole.2.2 row.id (ids.mem_iff.mp named) row.id (List.mem_map_of_mem left))
    have left : other ∈ rest := by
      cases List.mem_append.mp (takes.perm.mem_iff.mpr otherInItems) with
      | inl taken => exact absurd (ids.mem_iff.mpr (List.mem_map_of_mem taken)) unnamed
      | inr left => exact left
    exact takes.first row taken other left
  case unchanged => exact fun j unnamed => slice_of_not_reaped returned unnamed
  case buckets =>
    intro key
    rw [buckets, deleteOldRateLimitBuckets, Table.lookup_delete]

/-! ## No pass is rolled back -/

/-- Event ids as `uuid4` draws them: new to the outbox, and one for each job. -/
structure FreshEvents (newEvent : JobId → EventId) (db : Db) : Prop where
  undrawn : ∀ j, ¬ Drawn db (newEvent j)
  injective : Function.Injective newEvent

/-- An event that the rounds before wrote is not the event of a later round. -/
theorem undrawn_after_rounds {base : Db} {done : List Job} {old : Job}
    (fresh : FreshEvents newEvent base) (nodup : (done.map Job.id).Nodup)
    (written : ∀ other ∈ done, (base.slice other.id).row = some (reapedRow now other))
    (looped : done.foldlM (recordReaped now defaultCallbackUrl newEvent) base = .ok db')
    (unnamed : ∀ other ∈ done, other.id ≠ old.id) : ¬ Drawn db' (newEvent old.id) := by
  intro drawn
  obtain ⟨event, found⟩ := Option.ne_none_iff_exists'.mp drawn
  obtain ⟨member, key⟩ := Table.lookup_eq_some.mp found
  have inBase : ∀ j, event ∈ (base.slice j).events → False := by
    intro j earlier
    have lookup := Table.lookup_eq_some.mpr ⟨(List.mem_filter.mp earlier).1, key⟩
    exact fresh.undrawn old.id (by simp [Drawn, lookup])
  have inSlice : event ∈ (db'.slice event.jobId).events :=
    List.mem_filter.mpr ⟨member, by simp⟩
  cases reapLoop_slice nodup written looped event.jobId with
  | inr untouched =>
    rw [untouched.2] at inSlice
    exact inBase _ inSlice
  | inl touched =>
    obtain ⟨other, inDone, _, _, _, slice⟩ := touched
    rw [slice] at inSlice
    cases List.mem_append.mp inSlice with
    | inl earlier => exact inBase _ earlier
    | inr last =>
      -- the round on another job wrote it, under that job's id
      have ofOther : event.id = newEvent other.id := by
        rw [List.mem_singleton.mp last]
        simp only [outboxRow]
        split <;> rfl
      exact unnamed other inDone (fresh.injective (ofOther.symm.trans key))

/-- With fresh event ids the reaper's transaction on coherent tables goes through. -/
theorem reapExpiredLeases_ok (coherent : ∀ j, Coherent (db.slice j)) (fresh : FreshEvents newEvent db)
    (now : Time) (limit : Nat) (defaultCallbackUrl : String) (choices : Choices) :
    ∃ reaped db', reapExpiredLeases now limit defaultCallbackUrl newEvent choices db =
      .ok (reaped, db') := by
  cases returned : reapExpiredLeases now limit defaultCallbackUrl newEvent choices db with
  | ok result => exact ⟨result.1, result.2, rfl⟩
  | error abort =>
    exfalso
    have inTable : ∀ row ∈ expiredJobs now limit choices db, row ∈ db.jobs.rows :=
      fun row member => (mem_expiredJobs member).1
    have nodup := arrange_select_nodup choices db (selected (expiredJobs now limit choices db))
    have updated : ∀ old ∈ choices.returned.arrange
        (db.jobs.select (selected (expiredJobs now limit choices db))),
        old.status = .processing ∧ db.jobs.lookup old.id = some old ∧
        (db.updateJobs (selected (expiredJobs now limit choices db)) (reapedRow now)
          (reapedRow_keeps now)).slice old.id =
            { db.slice old.id with row := some (reapedRow now old) } := by
      intro old member
      have expired := (mem_arrange_selected choices inTable).mp member
      exact ⟨(mem_expiredJobs expired).2.1, Table.lookup_of_mem (inTable old expired),
        slice_of_selected (reapedRow_keeps now) inTable expired⟩
    cases bind_eq_error.mp returned with
    | inr ended =>
      obtain ⟨_, _, ended⟩ := ended
      exact absurd ended pure_ne_error
    | inl looped =>
      obtain ⟨done, old, rest, middle, rows, before, aborted⟩ := foldlM_error looped
      rw [rows] at nodup updated
      rw [List.map_append, List.nodup_append] at nodup
      obtain ⟨processing, found, slice⟩ := updated old (by simp)
      have written : ∀ other ∈ done, ((db.updateJobs (selected (expiredJobs now limit choices db))
          (reapedRow now) (reapedRow_keeps now)).slice other.id).row =
            some (reapedRow now other) := by
        intro other member
        rw [(updated other (by simp [member])).2.2]
      have unnamed : ∀ other ∈ done, other.id ≠ old.id := by
        intro other member
        exact nodup.2.2 other.id (List.mem_map_of_mem member) old.id (by simp)
      have untouched := reapLoop_untouched nodup.1 written before unnamed
      obtain ⟨_, unburied, freshAttempt⟩ := ready_of_updated (coherent old.id) found processing slice
      rw [← untouched] at unburied freshAttempt
      -- so the round could only fail on its event id, which is new
      have drawn := (recordReaped_error unburied freshAttempt aborted).2
      have base : FreshEvents newEvent (db.updateJobs (selected (expiredJobs now limit choices db))
          (reapedRow now) (reapedRow_keeps now)) := ⟨fresh.undrawn, fresh.injective⟩
      exact undrawn_after_rounds base nodup.1 written before unnamed drawn

end

/-! ## Passes on reachable tables -/

/-- On the job tables, a transaction of the system is a job operation or nothing. -/
theorem jobs_of_commit {settings : Settings} {tables : QueueTables} (step : QueueStep) :
    (step.commit settings tables).db = tables.db ∨
      ∃ op : JobOp, (step.commit settings tables).db = (op.commit step.now tables.db).2 ∧
        (step.action = .call op ∨ op.causes .claimed = false) := by
  obtain ⟨action, now⟩ := step
  cases action with
  | acquire recipient limit => exact .inl rfl
  | call op => exact .inr ⟨op, rfl, .inl rfl⟩
  | pass newEvent choices =>
    cases passed : Reaper.runOnce settings now newEvent choices tables with
    | error abort => simp [QueueStep.commit, passed]
    | ok result =>
      refine .inr ⟨.reapExpiredLeases settings.reaperBatchSize settings.defaultCallbackUrl newEvent
        choices, ?_, .inr rfl⟩
      rw [commit_reapExpiredLeases, (runOnce_eq_ok passed).1]
      simp [QueueStep.commit, passed]

/-- The job tables that the system reaches are reached by job operations. -/
theorem jobs_of_run {settings : Settings} {history : ReaperHistory} {tables : QueueTables}
    (run : Run (reaperSystem settings) history tables) :
    ∃ calls, Run jobSystem calls tables.db := by
  induction run with
  | start initial => exact ⟨[], .start initial.1⟩
  | @next history tables tables' step run committed inductionHypothesis =>
    obtain ⟨calls, reaches⟩ := inductionHypothesis
    have committed : step.commit settings tables = tables' := Option.some.inj committed
    subst committed
    cases jobs_of_commit step with
    | inl same =>
      rw [same]
      exact ⟨calls, reaches⟩
    | inr called =>
      obtain ⟨op, after, _⟩ := called
      have call : jobSystem.step tables.db ⟨op, step.now, (op.commit step.now tables.db).1⟩
        (op.commit step.now tables.db).2 := rfl
      rw [after]
      exact ⟨_, .next reaches call⟩

/-- A pass on reachable tables, with the event ids that `uuid4` draws, commits and does what it
    promises. -/
theorem reaper_pass {settings : Settings} {history : ReaperHistory} {tables : QueueTables}
    (run : Run (reaperSystem settings) history tables) {newEvent : JobId → EventId}
    (fresh : FreshEvents newEvent tables.db) (now : Time) (choices : Choices) :
    ∃ reaped tables', Reaper.runOnce settings now newEvent choices tables = .ok (reaped, tables') ∧
      PassReclaims settings now newEvent choices tables reaped tables' := by
  obtain ⟨calls, reaches⟩ := jobs_of_run run
  obtain ⟨reaped, db', returned⟩ := reapExpiredLeases_ok (coherent_slice reaches) fresh now
    settings.reaperBatchSize settings.defaultCallbackUrl choices
  have passed : Reaper.runOnce settings now newEvent choices tables = .ok (reaped,
      ⟨db', (deleteOldRateLimitBuckets now settings.rateLimitWindowSeconds tables.buckets).2⟩) := by
    unfold Reaper.runOnce
    rw [returned]
    rfl
  exact ⟨reaped, _, passed, passReclaims passed⟩

theorem reaper_pass_abandoned :
    ((reclaimable 20 .alone (reaperRun oneAtATime ⟨.empty, .empty⟩ abandonClaims).2.db).map Job.id =
        [1, 2]) ∧
      ∃ reaped tables', Reaper.runOnce oneAtATime 20 (fun j => j + 100) .alone
          (reaperRun oneAtATime ⟨.empty, .empty⟩ abandonClaims).2 = .ok (reaped, tables') ∧
        PassReclaims oneAtATime 20 (fun j => j + 100) .alone
          (reaperRun oneAtATime ⟨.empty, .empty⟩ abandonClaims).2 reaped tables' := by
  have noEvents : (reaperRun oneAtATime ⟨.empty, .empty⟩ abandonClaims).2.db.webhookOutbox.rows =
    [] := by decide +kernel
  have fresh : FreshEvents (fun j => j + 100)
      (reaperRun oneAtATime ⟨.empty, .empty⟩ abandonClaims).2.db := by
    constructor
    case undrawn => simp [Drawn, Table.lookup_eq_none, noEvents]
    case injective => exact add_left_injective 100
  exact ⟨by decide +kernel,
    reaper_pass (run_reaperRun_empty oneAtATime abandonClaims) fresh 20 .alone⟩

end NotifyQueue
