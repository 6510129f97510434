import NotifyQueue.Lib.Overtaking
import NotifyQueue.Verified.ReaperPasses

/-! # Every expired lease is ended

A job whose worker vanished stays `processing` until a reaper gets to it.  A pass that does not
find its row locked ends its claim, or else fills its batch with claims whose leases ended no
later.  No new claim joins those, because its lease ends after the clock.  So the number of such
claims bounds the passes that the job waits for, whatever else goes on and whichever other rows
are locked. -/

namespace NotifyQueue

open Overtaking Runs Tables

/-! ## Who is ahead in the queue of the reapers -/

def leaseEndsBy (expiresAt : Time) (row : Job) : Bool :=
  match row.leaseExpiresAt with
  | some leaseEnd => leaseEnd ≤ expiresAt
  | none => false

/-- The claims whose leases end by a time. -/
def owing (expiresAt : Time) (db : Db) : List Job :=
  db.jobs.select fun row => row.status = .processing && leaseEndsBy expiresAt row

def JobOp.leaseSeconds : JobOp → Time
  | .claimDueJobs _ _ leaseSeconds _ _ => leaseSeconds
  | _ => 0

def QueueAction.leaseSeconds : QueueAction → Time
  | .call op => op.leaseSeconds
  | _ => 0

/-- A step after a time, whose leases do not end before they begin. -/
structure Late (expiresAt : Time) (taken : Taken QueueTables QueueStep) : Prop where
  past : expiresAt < taken.label.now
  leases : 0 ≤ taken.label.action.leaseSeconds

instance Late.decidable (expiresAt : Time) (taken : Taken QueueTables QueueStep) :
    Decidable (Late expiresAt taken) :=
  decidable_of_iff (_ ∧ _) ⟨fun ⟨past, leases⟩ => ⟨past, leases⟩,
    fun late => ⟨late.past, late.leases⟩⟩

/-- A pass that commits and does not find the job locked. -/
def serves (settings : Settings) (j : JobId) (taken : Taken QueueTables QueueStep) : Bool :=
  match taken.label.action with
  | .pass newEvent choices =>
    match Reaper.runOnce settings taken.label.now newEvent choices taken.before with
    | .ok _ => !choices.locked j
    | .error _ => false
  | _ => false

/-- The step ends the claim that the row records. -/
structure EndsClaim (row : Job) (taken : Taken QueueTables QueueStep) : Prop where
  held : getJob taken.before.db row.id = some row
  ended : ∃ row', getJob taken.after.db row.id = some row' ∧ row'.status ≠ .processing ∧
    row'.claimToken = none

section

variable {settings : Settings} {expiresAt now : Time} {j : JobId} {s s' : Slice} {op : JobOp}
  {event : Option JobEvent} {row : Job} {db : Db} {tables tables' : QueueTables} {step : QueueStep}

theorem leaseEndsBy_iff :
    leaseEndsBy expiresAt row = true ↔ ∃ leaseEnd, row.leaseExpiresAt = some leaseEnd ∧
      leaseEnd ≤ expiresAt := by
  cases lease : row.leaseExpiresAt with
  | none => simp [leaseEndsBy, lease]
  | some leaseEnd => simp [leaseEndsBy, lease]

theorem mem_owing : row ∈ owing expiresAt db ↔ getJob db row.id = some row ∧
    row.status = .processing ∧ leaseEndsBy expiresAt row = true := by
  rw [owing, Table.select, List.mem_filter, getJob, Table.lookup_eq_some]
  simp

theorem owing_ids_nodup (expiresAt : Time) (db : Db) : ((owing expiresAt db).map Job.id).Nodup :=
  db.jobs.pk_nodup.sublist (List.filter_sublist.map Job.id)

/-! ## What a transaction does to a claim -/

/-- A processing job keeps its row or loses its claim. -/
theorem SliceStep.leaves_processing (step : SliceStep now j s event s') (present : s.row = some row)
    (processing : row.status = .processing) :
    s'.row = some row ∨
      ∃ row', s'.row = some row' ∧ row'.status ≠ .processing ∧ row'.claimToken = none := by
  cases step with
  | idle => exact .inl present
  | created absent _ => cases absent.symm.trans present
  | claimed _ _ _ found due =>
    cases found.symm.trans present
    cases (isDue_iff.mp due).1.symm.trans processing
  | sent _ _ _ _ _ found _ _ _ => exact .inr ⟨_, rfl, by simp [sentRow], rfl⟩
  | failed _ _ _ _ _ _ _ found _ _ _ => exact .inr ⟨_, rfl, failedRow_status_ne, rfl⟩
  | reaped _ _ found _ _ _ _ => exact .inr ⟨_, rfl, reapedRow_status_ne, rfl⟩
  | returned _ _ found _ => exact .inr ⟨_, rfl, by simp [returnedRow], rfl⟩
  | requeued _ found dead _ =>
    cases found.symm.trans present
    cases dead.symm.trans processing

/-- A processing job had its row before, or it was claimed just now. -/
theorem OpStep.was_processing (step : OpStep now j s op event s') (present : s'.row = some row)
    (processing : row.status = .processing) :
    s.row = some row ∨
      op.causes .claimed = true ∧ row.leaseExpiresAt = some (now + op.leaseSeconds) := by
  cases step with
  | idle => exact .inl present
  | claimed _ _ found _ =>
    cases present
    exact .inr ⟨rfl, rfl⟩
  | created _ _ =>
    cases present
    cases processing
  | sent _ _ _ _ =>
    cases present
    cases processing
  | failed _ _ _ _ =>
    cases present
    exact absurd processing failedRow_status_ne
  | reaped _ _ _ _ _ _ _ =>
    cases present
    exact absurd processing reapedRow_status_ne
  | returned _ _ =>
    cases present
    cases processing
  | requeued _ _ _ =>
    cases present
    cases processing

/-- A transaction leaves a processing job its row, or ends its claim. -/
theorem ended_or_kept (step : QueueStep) (held : getJob tables.db row.id = some row)
    (processing : row.status = .processing) :
    getJob (step.commit settings tables).db row.id = some row ∨
      EndsClaim row ⟨tables, step, step.commit settings tables⟩ := by
  have written : (step.commit settings tables).db = tables.db ∨ _ := jobs_of_commit step
  cases written with
  | inl same =>
    rw [same]
    exact .inl held
  | inr called =>
    obtain ⟨op, after, _⟩ := called
    have committed : op.commit step.now tables.db =
      ((op.commit step.now tables.db).1, (op.commit step.now tables.db).2) := rfl
    cases (commit_slice committed row.id).leaves_processing held processing with
    | inl kept =>
      rw [after]
      exact .inl kept
    | inr ended =>
      refine .inr ⟨held, ?_⟩
      show ∃ row', getJob (step.commit settings tables).db row.id = some row' ∧ _
      rw [after]
      exact ended

/-- No claim joins those whose leases ended. -/
theorem owing_of_commit
    (late : Late expiresAt ⟨tables, step, step.commit settings tables⟩)
    (owes : row ∈ owing expiresAt (step.commit settings tables).db) :
    row ∈ owing expiresAt tables.db := by
  have written : (step.commit settings tables).db = tables.db ∨ _ := jobs_of_commit step
  cases written with
  | inl same => rwa [same] at owes
  | inr called =>
    obtain ⟨op, after, which⟩ := called
    obtain ⟨found, processing, ends⟩ := mem_owing.mp owes
    rw [after] at found
    have committed : op.commit step.now tables.db =
      ((op.commit step.now tables.db).1, (op.commit step.now tables.db).2) := rfl
    cases (commit_op committed row.id).was_processing found processing with
    | inl was => exact mem_owing.mpr ⟨was, processing, ends⟩
    | inr claimed =>
      -- the lease of a new claim ends after the clock
      exfalso
      obtain ⟨claims, lease⟩ := claimed
      obtain ⟨leaseEnd, recorded, by_⟩ := leaseEndsBy_iff.mp ends
      obtain rfl : step.now + op.leaseSeconds = leaseEnd := Option.some.inj (lease.symm.trans recorded)
      cases which with
      | inl call =>
        have past : expiresAt < step.now := late.past
        have lasts : 0 ≤ step.action.leaseSeconds := late.leases
        rw [call] at lasts
        have lasts : 0 ≤ op.leaseSeconds := lasts
        linarith
      | inr other =>
        rw [claims] at other
        cases other

/-! ## What a pass does to the queue -/

section

variable {newEvent : JobId → EventId} {choices : Choices} {reaped : List Transition}

/-- Whatever id the pass returned, its row was there to take. -/
theorem PassReclaims.taken (reclaims : PassReclaims settings now newEvent choices tables reaped tables')
    {j : JobId} (named : j ∈ reaped.map Transition.jobId) :
    ∃ old ∈ reclaimable now choices tables.db, old.id = j ∧
      getJob tables'.db j = some (reapedRow now old) := by
  obtain ⟨t, inReaped, rfl⟩ := List.mem_map.mp named
  obtain ⟨old, member, rfl, slice⟩ := reclaims.ended t inReaped
  exact ⟨old, member, rfl, congrArg Slice.row slice⟩

/-- A row that is processing after the pass was not taken. -/
theorem PassReclaims.not_taken
    (reclaims : PassReclaims settings now newEvent choices tables reaped tables')
    (found : getJob tables'.db row.id = some row) (processing : row.status = .processing) :
    row.id ∉ reaped.map Transition.jobId := by
  intro named
  obtain ⟨old, _, _, ended⟩ := reclaims.taken named
  cases ended.symm.trans found
  exact reapedRow_status_ne processing

/-- What owes after the pass owed before it, and was not taken. -/
theorem PassReclaims.still_owing
    (reclaims : PassReclaims settings now newEvent choices tables reaped tables')
    (owes : row ∈ owing expiresAt tables'.db) :
    row ∈ owing expiresAt tables.db ∧ row.id ∉ reaped.map Transition.jobId := by
  obtain ⟨found, processing, ends⟩ := mem_owing.mp owes
  have unnamed := reclaims.not_taken found processing
  have unchanged := congrArg Slice.row (reclaims.unchanged row.id unnamed)
  exact ⟨mem_owing.mpr ⟨unchanged.symm.trans found, processing, ends⟩, unnamed⟩

/-- A pass that leaves an expired, unlocked row its claim takes a whole batch of claims whose
    leases ended no later. -/
theorem PassReclaims.full_batch
    (reclaims : PassReclaims settings now newEvent choices tables reaped tables')
    (held : getJob tables.db row.id = some row) (processing : row.status = .processing)
    (lease : row.leaseExpiresAt = some expiresAt) (past : expiresAt < now)
    (unlocked : choices.locked row.id = false) (kept : getJob tables'.db row.id = some row) :
    (owing expiresAt tables'.db).length + settings.reaperBatchSize ≤
      (owing expiresAt tables.db).length := by
  have expired : leaseExpired now row = true := by simp [leaseExpired, lease, past]
  have inItems : row ∈ reclaimable now choices tables.db :=
    mem_reclaimable.mpr ⟨Table.mem_of_lookup held, processing, expired, unlocked⟩
  have unnamed := reclaims.not_taken kept processing
  have full : reaped.length = settings.reaperBatchSize := by
    -- the row itself is left over, so the batch was full
    have subset : row.id :: reaped.map Transition.jobId ⊆
        (reclaimable now choices tables.db).map Job.id := by
      intro id named
      cases named with
      | head => exact List.mem_map_of_mem inItems
      | tail _ named =>
        obtain ⟨old, member, ofOld, _⟩ := reclaims.taken named
        exact List.mem_map.mpr ⟨old, member, ofOld⟩
    have room := (List.nodup_cons.mpr ⟨unnamed, reclaims.distinct⟩).length_le_of_subset subset
    have count := reclaims.count
    simp only [List.length_cons, List.length_map] at room
    omega
  -- the batch is out of what owed, and the rest of it still owes
  have room : ((owing expiresAt tables'.db).map Job.id).length +
      (reaped.map Transition.jobId).length ≤
        ((owing expiresAt tables.db).map Job.id).length + ([] : List JobId).length := by
    apply length_add_le (owing_ids_nodup expiresAt tables'.db) reclaims.distinct
    · intro id owes
      obtain ⟨still, stillOwes, rfl⟩ := List.mem_map.mp owes
      obtain ⟨owed, unnamed⟩ := reclaims.still_owing stillOwes
      exact .inl ⟨List.mem_map_of_mem owed, unnamed⟩
    · intro id named
      obtain ⟨old, member, rfl, _⟩ := reclaims.taken named
      obtain ⟨inTable, oldProcessing, oldExpired, _⟩ := mem_reclaimable.mp member
      have first := reclaims.oldestFirst old member named row inItems unnamed
      apply List.mem_map_of_mem
      refine mem_owing.mpr ⟨Table.lookup_of_mem inTable, oldProcessing, ?_⟩
      cases oldLease : old.leaseExpiresAt with
      | none => simp [leaseExpired, oldLease] at oldExpired
      | some leaseEnd =>
        exact leaseEndsBy_iff.mpr ⟨leaseEnd, oldLease, (expiryOrder_iff oldLease lease).mp first⟩
  simpa [full] using room

end

/-! ## Passes one after another -/

theorem serves_iff {taken : Taken QueueTables QueueStep} :
    serves settings j taken = true ↔ ∃ newEvent choices reaped tables',
      taken.label.action = .pass newEvent choices ∧
      Reaper.runOnce settings taken.label.now newEvent choices taken.before = .ok (reaped, tables') ∧
      choices.locked j = false := by
  unfold serves
  cases action : taken.label.action with
  | call op => simp
  | acquire recipient limit => simp
  | pass newEvent choices =>
    cases passed : Reaper.runOnce settings taken.label.now newEvent choices taken.before with
    | error abort => simp [passed]
    | ok result =>
      simp only [passed, QueueAction.pass.injEq]
      constructor
      · intro unlocked
        exact ⟨newEvent, choices, result.1, result.2, ⟨rfl, rfl⟩, passed, by simpa using unlocked⟩
      · rintro ⟨_, _, _, _, ⟨rfl, rfl⟩, _, unlocked⟩
        simpa using unlocked

/-- The row of a claim waits in the queue of those whose leases ended no later. -/
theorem waitsForReaper (processing : row.status = .processing)
    (lease : row.leaseExpiresAt = some expiresAt) :
    InLine (reaperSystem settings) (Late expiresAt)
      (fun tables => getJob tables.db row.id = some row) (EndsClaim row)
      (fun tables => (owing expiresAt tables.db).length)
      (fun taken => if serves settings row.id taken then settings.reaperBatchSize else 0)
      (fun _ => 0) := by
  constructor
  intro tables step tables' held committed late
  have committed : step.commit settings tables = tables' := Option.some.inj committed
  subst committed
  have written : _ ∨ EndsClaim row ⟨tables, step, step.commit settings tables⟩ :=
    ended_or_kept step held processing
  cases written with
  | inr ends => exact .inl ends
  | inl kept =>
    refine .inr ⟨kept, ?_⟩
    by_cases served : serves settings row.id ⟨tables, step, step.commit settings tables⟩ = true
    · obtain ⟨newEvent, choices, reaped, after, action, passed, unlocked⟩ := serves_iff.mp served
      have passed : Reaper.runOnce settings step.now newEvent choices tables =
        .ok (reaped, after) := passed
      have action : step.action = .pass newEvent choices := action
      have reached : step.commit settings tables = after := by
        simp [QueueStep.commit, action, passed]
      have batch := (passReclaims passed).full_batch held processing lease late.past unlocked
        (reached ▸ kept)
      rw [if_pos served, reached]
      exact batch
    · have subset : (owing expiresAt (step.commit settings tables).db).map Job.id ⊆
          (owing expiresAt tables.db).map Job.id := by
        intro id member
        obtain ⟨still, owes, rfl⟩ := List.mem_map.mp member
        exact List.mem_map_of_mem (owing_of_commit late owes)
      have fewer := (owing_ids_nodup expiresAt _).length_le_of_subset subset
      rw [if_neg served]
      simpa using fewer

end

/-- A claim whose lease has ended is ended itself, by its worker or by a reaper, once the passes
    that commit and do not find it locked have room for all the claims whose leases ended no
    later.  The other transactions are arbitrary, and so are the locks on other rows. -/
theorem leases_reclaimed {settings : Settings} {since : ReaperHistory}
    {start final : QueueTables} (run : Run ((reaperSystem settings).startingAt start) since final)
    {row : Job} (held : getJob start.db row.id = some row) (processing : row.status = .processing)
    {expiresAt : Time} (lease : row.leaseExpiresAt = some expiresAt)
    (late : Along (fun _ taken => Late expiresAt taken) since)
    (enough : (owing expiresAt start.db).length ≤
      settings.reaperBatchSize * since.countP (serves settings row.id)) :
    ∃ taken ∈ since, EndsClaim row taken := by
  have inQueue : ∀ tables : QueueTables, getJob tables.db row.id = some row →
      0 < (owing expiresAt tables.db).length := by
    intro tables found
    have ends : leaseEndsBy expiresAt row = true := leaseEndsBy_iff.mpr ⟨expiresAt, lease, le_rfl⟩
    exact List.length_pos_of_mem (mem_owing.mpr ⟨found, processing, ends⟩)
  apply (waitsForReaper processing lease).ended run late held inQueue
  rw [total_zero, total_ite]
  exact enough

/-- The first pass finds the row of job 1 locked; of the other two, the second one gets to it. -/
def threePasses : ReaperHistory × QueueTables :=
  reaperRun oneAtATime (reaperRun oneAtATime ⟨.empty, .empty⟩ abandonClaims).2
    [⟨.pass (fun j => j + 100) ⟨fun j => j = 1, .stored, .stored⟩, 20⟩,
      ⟨.call (.createJob 3 (sampleJob 3)), 21⟩, ⟨.pass (fun j => j + 200) .alone, 22⟩,
      ⟨.call (.claimDueJobs "w2" 1 10 (fun j => j + 60) .alone), 23⟩,
      ⟨.pass (fun j => j + 300) .alone, 24⟩]

theorem leases_reclaimed_threePasses :
    ∃ row, getJob (reaperRun oneAtATime ⟨.empty, .empty⟩ abandonClaims).2.db 1 = some row ∧
      ∃ taken ∈ threePasses.1, EndsClaim row taken := by
  have held : ∃ row, getJob (reaperRun oneAtATime ⟨.empty, .empty⟩ abandonClaims).2.db 1 = some row ∧
    row.status = .processing ∧ row.leaseExpiresAt = some 15 := by decide +kernel
  obtain ⟨row, found, processing, lease⟩ := held
  have named : row.id = 1 := Table.pk_of_lookup found
  have late : Along (fun _ taken => Late 15 taken) threePasses.1 := by decide +kernel
  have enough : (owing 15 (reaperRun oneAtATime ⟨.empty, .empty⟩ abandonClaims).2.db).length ≤
    oneAtATime.reaperBatchSize * threePasses.1.countP (serves oneAtATime 1) := by decide +kernel
  rw [← named] at found enough
  have ended := leases_reclaimed (run_reaperRun oneAtATime _ _) found processing lease late enough
  rw [named] at found
  exact ⟨row, found, ended⟩

end NotifyQueue
