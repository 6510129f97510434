import NotifyQueue.Lib.Draining
import NotifyQueue.Verified.SliceSteps

/-! # Claims go by priority

The rows that a claim takes are chosen in SQL under whatever locks others hold, and their order
is rebuilt in Python from another key (`sortsBefore_iff`).  `ClaimsInOrder` is what one claim
does, on every table.

`DrainsInOrder` is about claims one after another: while nothing disturbs the due jobs, a claim
is a `Takes` of the queue's keys, and takes compose. -/

namespace NotifyQueue

open Runs Tables Draining

/-! ## The order -/

/-- Strictly before, in the order (priority descending, `run_at` ascending). -/
def comesBefore (a b : Job) : Prop :=
  b.priority.value < a.priority.value ∨ a.priority.value = b.priority.value ∧ a.runAt < b.runAt

theorem not_comesBefore {a b : Job} : ¬ comesBefore a b ↔ claimOrder b a := by
  unfold comesBefore claimOrder
  rcases lt_trichotomy a.priority.value b.priority.value with less | same | more
  · simp [less, less.not_gt, less.ne]
  · simp [same]
  · simp [more, more.not_gt, more.ne]

instance claimOrder_total : Std.Total claimOrder where
  total a b := by
    unfold claimOrder
    rcases lt_trichotomy a.priority.value b.priority.value with less | same | more
    · exact .inr (.inl less)
    · simpa [same] using le_total a.runAt b.runAt
    · exact .inl (.inl more)

instance claimOrder_trans : IsTrans Job claimOrder where
  trans a b c := by
    rintro (above | ⟨level, earlier⟩) (above' | ⟨level', earlier'⟩)
    · exact .inl (above'.trans above)
    · exact .inl (level' ▸ above)
    · exact .inl (level ▸ above')
    · exact .inr ⟨level.trans level', earlier.trans earlier'⟩

/-- The key of the sort in Python orders as the `ORDER BY` does. -/
theorem sortsBefore_iff {a b : Job} : sortsBefore a b ↔ claimOrder a b := by
  simp [sortsBefore, claimOrder, neg_lt_neg_iff, neg_inj]

instance sortsBefore_total : Std.Total sortsBefore where
  total a b := by
    rw [sortsBefore_iff, sortsBefore_iff]
    exact claimOrder_total.total a b

instance sortsBefore_trans : IsTrans Job sortsBefore where
  trans a b c := by
    rw [sortsBefore_iff, sortsBefore_iff, sortsBefore_iff]
    exact claimOrder_trans.trans a b c

/-! ## One claim -/

/-- The jobs that a claim may take. -/
def claimable (now : Time) (choices : Choices) (db : Db) : List Job :=
  db.jobs.select fun row => isDue now row && !choices.locked row.id

/-- What a claim promises: as many of the claimable jobs as the batch has room for, the first
    ones, in order, and no other row is touched. -/
structure ClaimsInOrder (now : Time) (workerId : String) (batchSize : Nat) (leaseSeconds : Time)
    (newToken : JobId → ClaimToken) (choices : Choices) (db : Db) (jobs : List Job) (db' : Db) :
    Prop where
  count : jobs.length = min batchSize (claimable now choices db).length
  distinct : (jobs.map Job.id).Nodup
  wereDue : ∀ job ∈ jobs, ∃ row, getJob db job.id = some row ∧ row.status = .pending ∧
    row.runAt ≤ now ∧ choices.locked row.id = false ∧
    claimedRow now workerId leaseSeconds newToken row = job
  ahead : ∀ job ∈ jobs, ∀ row ∈ claimable now choices db, row.id ∉ jobs.map Job.id →
    ¬ comesBefore row job
  sorted : jobs.Pairwise fun a b => ¬ comesBefore b a
  stored : ∀ job ∈ jobs, getJob db' job.id = some job
  unchanged : ∀ j, j ∉ jobs.map Job.id → db'.slice j = db.slice j

section

variable {now : Time} {workerId : String} {batchSize : Nat} {leaseSeconds : Time}
  {newToken : JobId → ClaimToken} {choices : Choices} {db db' : Db} {jobs : List Job}

theorem mem_claimable {row : Job} : row ∈ claimable now choices db ↔
    row ∈ db.jobs.rows ∧ row.status = .pending ∧ row.runAt ≤ now ∧ choices.locked row.id = false := by
  simp [claimable, Table.select, isDue_iff, and_assoc]

theorem claimable_ids_nodup (now : Time) (choices : Choices) (db : Db) :
    ((claimable now choices db).map Job.id).Nodup :=
  db.jobs.pk_nodup.sublist (List.filter_sublist.map Job.id)

/-- The claim takes the first claimable rows. -/
theorem dueJobs_takes (now : Time) (batchSize : Nat) (choices : Choices) (db : Db) :
    ∃ rest, Takes claimOrder batchSize (claimable now choices db)
      (dueJobs now batchSize choices db) rest :=
  takes_topRows choices.scan batchSize _

/-- What a claim returns is the selection, updated, in another order. -/
theorem claimed_perm
    (returned : claimDueJobs now workerId batchSize leaseSeconds newToken choices db = (jobs, db')) :
    jobs.Perm ((dueJobs now batchSize choices db).map
      (claimedRow now workerId leaseSeconds newToken)) := by
  have inTable : ∀ row ∈ dueJobs now batchSize choices db, row ∈ db.jobs.rows :=
    fun row inDue => (mem_dueJobs inDue).1
  have nodup : (dueJobs now batchSize choices db).Nodup := by
    obtain ⟨rest, takes⟩ := dueJobs_takes now batchSize choices db
    have whole := takes.perm.nodup_iff.mpr (claimable_ids_nodup now choices db).of_map
    exact (List.nodup_append.mp whole).1
  have chosen : (db.jobs.rows.filter (selected (dueJobs now batchSize choices db))).Perm
      (dueJobs now batchSize choices db) := by
    rw [List.perm_ext_iff_of_nodup (db.jobs.rows_nodup.filter _) nodup]
    intro row
    rw [List.mem_filter]
    constructor
    · rintro ⟨member, isSelected⟩
      exact (selected_iff inTable member).mp isSelected
    · intro inDue
      exact ⟨inTable row inDue, (selected_iff inTable (inTable row inDue)).mpr inDue⟩
  have jobsEq := congrArg Prod.fst returned
  dsimp only [claimDueJobs] at jobsEq
  rw [← jobsEq]
  exact ((List.perm_insertionSort _ _).trans (choices.returned.perm _)).trans (chosen.map _)

theorem claimed_ids
    (returned : claimDueJobs now workerId batchSize leaseSeconds newToken choices db = (jobs, db')) :
    (jobs.map Job.id).Perm ((dueJobs now batchSize choices db).map Job.id) := by
  have mapped := (claimed_perm returned).map Job.id
  rwa [List.map_map] at mapped

theorem claimsInOrder
    (returned : claimDueJobs now workerId batchSize leaseSeconds newToken choices db = (jobs, db')) :
    ClaimsInOrder now workerId batchSize leaseSeconds newToken choices db jobs db' := by
  have same := claimed_perm returned
  obtain ⟨rest, takes⟩ := dueJobs_takes now batchSize choices db
  have ids := claimed_ids returned
  constructor
  case count => rw [same.length_eq, List.length_map, takes.length]
  case distinct =>
    have whole := (takes.perm.map Job.id).nodup_iff.mpr (claimable_ids_nodup now choices db)
    rw [List.map_append] at whole
    exact ids.nodup_iff.mpr (List.nodup_append.mp whole).1
  case wereDue =>
    intro job member
    obtain ⟨row, inDue, rfl⟩ := List.mem_map.mp (same.mem_iff.mp member)
    have isClaimable := takes.perm.mem_iff.mp (List.mem_append_left _ inDue)
    obtain ⟨inTable, pending, due, unlocked⟩ := mem_claimable.mp isClaimable
    exact ⟨row, Table.lookup_of_mem inTable, pending, due, unlocked, rfl⟩
  case ahead =>
    intro job member row isClaimable unclaimed
    obtain ⟨first, inDue, rfl⟩ := List.mem_map.mp (same.mem_iff.mp member)
    -- a claimable row that was not selected is among the rest
    have inRest : row ∈ rest := by
      cases List.mem_append.mp (takes.perm.mem_iff.mpr isClaimable) with
      | inl taken => exact absurd (ids.mem_iff.mpr (List.mem_map_of_mem taken)) unclaimed
      | inr left => exact left
    exact not_comesBefore.mpr (takes.first first inDue row inRest)
  case sorted =>
    have sorted := List.pairwise_insertionSort sortsBefore (choices.returned.arrange
      (db.jobs.returning (selected (dueJobs now batchSize choices db))
        (claimedRow now workerId leaseSeconds newToken)))
    have jobsEq := congrArg Prod.fst returned
    dsimp only [claimDueJobs] at jobsEq
    rw [← jobsEq]
    exact sorted.imp fun earlier => not_comesBefore.mpr (sortsBefore_iff.mp earlier)
  case stored =>
    intro job member
    obtain ⟨_, _, _, _, stored⟩ := lookup_of_claimed returned member
    exact stored
  case unchanged =>
    intro j unclaimed
    have step := claimDueJobs_slice returned j
    have notAny : ¬ (jobs.any fun job => job.id = j) = true := by
      simpa [List.mem_map] using unclaimed
    rw [if_neg notAny] at step
    exact step.slice.idle_eq

/-! ## Claims one after another -/

/-- What the order of the queue looks at, and the id. -/
structure QueueKey where
  id : JobId
  priority : Priority
  runAt : Time

def Job.queueKey (job : Job) : QueueKey := ⟨job.id, job.priority, job.runAt⟩

def keyOrder (a b : QueueKey) : Prop :=
  b.priority.value < a.priority.value ∨ a.priority.value = b.priority.value ∧ a.runAt ≤ b.runAt

/-- The jobs that are due at a time. -/
def dueAt (began : Time) (db : Db) : List Job := db.jobs.select (isDue began)

theorem mem_dueAt {began : Time} {row : Job} :
    row ∈ dueAt began db ↔ getJob db row.id = some row ∧ isDue began row = true := by
  rw [dueAt, Table.select, List.mem_filter, getJob, Table.lookup_eq_some]
  simp

theorem dueAt_nodup (began : Time) (db : Db) : ((dueAt began db).map Job.id).Nodup :=
  db.jobs.pk_nodup.sublist (List.filter_sublist.map Job.id)

/-- Two tables with the same due jobs. -/
theorem dueAt_perm {began : Time}
    (same : ∀ row, isDue began row = true →
      (getJob db' row.id = some row ↔ getJob db row.id = some row)) :
    (dueAt began db').Perm (dueAt began db) := by
  rw [List.perm_ext_iff_of_nodup (dueAt_nodup began db').of_map (dueAt_nodup began db).of_map]
  intro row
  rw [mem_dueAt, mem_dueAt]
  constructor
  · rintro ⟨found, due⟩
    exact ⟨(same row due).mp found, due⟩
  · rintro ⟨found, due⟩
    exact ⟨(same row due).mpr found, due⟩

/-- What is due after a claim is what was due and is not claimed. -/
theorem mem_dueAt_of_claim {began : Time}
    (returned : claimDueJobs now workerId batchSize leaseSeconds newToken choices db = (jobs, db'))
    {row : Job} : row ∈ dueAt began db' ↔ row ∈ dueAt began db ∧ row.id ∉ jobs.map Job.id := by
  have inOrder := claimsInOrder returned
  constructor
  · intro member
    obtain ⟨found, due⟩ := mem_dueAt.mp member
    have unclaimed : row.id ∉ jobs.map Job.id := by
      intro claimed
      obtain ⟨job, inJobs, named⟩ := List.mem_map.mp claimed
      obtain ⟨old, _, _, _, _, claims⟩ := inOrder.wereDue job inJobs
      have stored := inOrder.stored job inJobs
      rw [named, found] at stored
      cases stored
      simp [← claims, isDue, claimedRow] at due
    have unchanged := congrArg Slice.row (inOrder.unchanged row.id unclaimed)
    exact ⟨mem_dueAt.mpr ⟨unchanged.symm.trans found, due⟩, unclaimed⟩
  · rintro ⟨member, unclaimed⟩
    obtain ⟨found, due⟩ := mem_dueAt.mp member
    have unchanged := congrArg Slice.row (inOrder.unchanged row.id unclaimed)
    exact mem_dueAt.mpr ⟨unchanged.trans found, due⟩

/-- A claim that finds the same jobs due, none of them locked, takes the first of their keys and
    leaves the others. -/
theorem claim_takes {began : Time}
    (returned : claimDueJobs now workerId batchSize leaseSeconds newToken choices db = (jobs, db'))
    (sameDue : ∀ row ∈ db.jobs.rows, isDue now row = isDue began row)
    (unlocked : ∀ row ∈ dueAt began db, choices.locked row.id = false) :
    Takes keyOrder batchSize ((dueAt began db).map Job.queueKey) (jobs.map Job.queueKey)
      ((dueAt began db').map Job.queueKey) := by
  have items : claimable now choices db = dueAt began db := by
    apply List.filter_congr
    intro row member
    rw [sameDue row member]
    cases due : isDue began row with
    | false => rfl
    | true => simp [unlocked row (List.mem_filter.mpr ⟨member, due⟩)]
  obtain ⟨rest, takes⟩ := dueJobs_takes now batchSize choices db
  rw [items] at takes
  have ids := claimed_ids returned
  have whole := (takes.perm.map Job.id).nodup_iff.mpr (dueAt_nodup began db)
  rw [List.map_append, List.nodup_append] at whole
  have left : (dueAt began db').Perm rest := by
    rw [List.perm_ext_iff_of_nodup (dueAt_nodup began db').of_map whole.2.1.of_map]
    intro row
    rw [mem_dueAt_of_claim returned, ← takes.perm.mem_iff, List.mem_append]
    constructor
    · rintro ⟨taken | inRest, unclaimed⟩
      · exact absurd (ids.mem_iff.mpr (List.mem_map_of_mem taken)) unclaimed
      · exact inRest
    · intro inRest
      refine ⟨.inr inRest, ?_⟩
      intro claimed
      exact whole.2.2 row.id (ids.mem_iff.mp claimed) row.id (List.mem_map_of_mem inRest) rfl
  have batch : (jobs.map Job.queueKey).Perm
      ((dueJobs now batchSize choices db).map Job.queueKey) := by
    have mapped := (claimed_perm returned).map Job.queueKey
    rwa [List.map_map] at mapped
  have keys : Takes keyOrder batchSize ((dueAt began db).map Job.queueKey)
      ((dueJobs now batchSize choices db).map Job.queueKey) (rest.map Job.queueKey) :=
    takes.map fun _ _ ordered => ordered
  refine (keys.perm_batch batch ?_).perm_rest (left.map _)
  exact List.pairwise_map.mpr ((claimsInOrder returned).sorted.imp not_comesBefore.mp)

end

/-! ## Draining -/

def JobOp.batchSize : JobOp → Nat
  | .claimDueJobs _ batchSize _ _ _ => batchSize
  | _ => 0

def Call.claimedJobs (call : Call) : List Job :=
  match call.op, call.answer with
  | .claimDueJobs _ _ _ _ _, .claimed jobs => jobs
  | _, _ => []

/-- The jobs that the claims of a run returned, first claim first. -/
def claimedSoFar : JobHistory → List Job
  | [] => []
  | taken :: history => claimedSoFar history ++ taken.label.claimedJobs

def batchSizes : JobHistory → Nat
  | [] => 0
  | taken :: history => batchSizes history + taken.label.op.batchSize

/-- The rows that a claim skips as locked. -/
def JobOp.locked : JobOp → JobId → Bool
  | .claimDueJobs _ _ _ _ choices => choices.locked
  | _ => fun _ => false

/-- A call after which no other job is pending than before; if it is a claim, it finds the jobs
    due that were due when the claims began, and none of them locked. -/
structure Undisturbed (began : Time) (taken : Taken Db Call) : Prop where
  noneAdded : ∀ row ∈ taken.after.jobs.rows, row.status = .pending →
    ∃ old ∈ taken.before.jobs.rows, old.id = row.id ∧ old.status = .pending
  noneDue : taken.label.op.causes .claimed = true →
    ∀ row ∈ taken.before.jobs.rows, isDue taken.label.now row = isDue began row
  noneLocked : ∀ row ∈ dueAt began taken.before, taken.label.op.locked row.id = false

instance Undisturbed.decidable (began : Time) (taken : Taken Db Call) :
    Decidable (Undisturbed began taken) :=
  decidable_of_iff (_ ∧ _ ∧ _) ⟨fun ⟨added, due, locked⟩ => ⟨added, due, locked⟩,
    fun undisturbed => ⟨undisturbed.noneAdded, undisturbed.noneDue, undisturbed.noneLocked⟩⟩

/-- What the claims of a run promise together, about the jobs that were due when they began. -/
structure DrainsInOrder (began : Time) (start : Db) (batchSizes : Nat) (claimed : List Job) :
    Prop where
  count : claimed.length = min batchSizes (dueAt began start).length
  once : (claimed.map Job.id).Nodup
  wereDue : ∀ job ∈ claimed, ∃ row ∈ dueAt began start, row.queueKey = job.queueKey
  ahead : ∀ job ∈ claimed, ∀ row ∈ dueAt began start, row.id ∉ claimed.map Job.id →
    ¬ comesBefore row job
  sorted : claimed.Pairwise fun a b => ¬ comesBefore b a
  drained : (dueAt began start).length ≤ batchSizes →
    (claimed.map Job.id).Perm ((dueAt began start).map Job.id)

/-- A pending row that another call than a claim leaves pending is untouched. -/
theorem OpStep.keeps_pending {now : Time} {j : JobId} {s s' : Slice} {op : JobOp}
    {event : Option JobEvent} (step : OpStep now j s op event s') {row : Job}
    (present : s.row = some row) (pending : row.status = .pending) (unclaimed : event ≠ some .claimed) :
    s' = s := by
  cases step with
  | idle => rfl
  | created absent _ => cases absent.symm.trans present
  | claimed _ _ _ _ => exact absurd rfl unclaimed
  | sent present' owned _ _ =>
    cases present'.symm.trans present
    cases pending.symm.trans (fenced_iff.mp owned).2.2
  | failed present' owned _ _ =>
    cases present'.symm.trans present
    cases pending.symm.trans (fenced_iff.mp owned).2.2
  | reaped _ _ present' processing _ _ _ =>
    cases present'.symm.trans present
    cases pending.symm.trans processing
  | returned present' owned =>
    cases present'.symm.trans present
    cases pending.symm.trans (fenced_iff.mp owned).2.2
  | requeued present' dead _ =>
    cases present'.symm.trans present
    cases pending.symm.trans dead

/-- A call that is not a claim and brings no job back leaves the same jobs due. -/
theorem due_kept {began now : Time} {op : JobOp} {answer : Answer} {db db' : Db}
    (committed : op.commit now db = (answer, db')) (notClaim : op.causes .claimed = false)
    (noneAdded : ∀ row ∈ db'.jobs.rows, row.status = .pending →
      ∃ old ∈ db.jobs.rows, old.id = row.id ∧ old.status = .pending) :
    (dueAt began db').Perm (dueAt began db) := by
  have kept : ∀ j row, getJob db j = some row → row.status = .pending →
      getJob db' j = getJob db j := by
    intro j row found pending
    refine congrArg Slice.row ((commit_op committed j).keeps_pending found pending ?_)
    intro claimed
    rw [causes_of_eventFor claimed] at notClaim
    contradiction
  apply dueAt_perm
  intro row due
  have pending := (isDue_iff.mp due).1
  constructor
  · intro found
    obtain ⟨old, member, named, wasPending⟩ := noneAdded row (Table.mem_of_lookup found) pending
    rwa [← kept row.id old (Table.lookup_eq_some.mpr ⟨member, named⟩) wasPending]
  · intro found
    rwa [kept row.id row found pending]

/-- The claims of a run, one after another, are one take of the queue. -/
theorem claimed_takes {began : Time} {start db : Db} {history : JobHistory}
    (run : Run (jobSystem.startingAt start) history db)
    (undisturbed : Along (fun _ => Undisturbed began) history) :
    Takes keyOrder (batchSizes history) ((dueAt began start).map Job.queueKey)
      ((claimedSoFar history).map Job.queueKey) ((dueAt began db).map Job.queueKey) := by
  refine Run.invariant (I := fun history db => Takes keyOrder (batchSizes history)
    ((dueAt began start).map Job.queueKey) ((claimedSoFar history).map Job.queueKey)
    ((dueAt began db).map Job.queueKey)) ?_ ?_ run undisturbed
  · rintro _ rfl
    exact .none (.refl _)
  · rintro history db ⟨op, now, answer⟩ db' _ _ takes undisturbed committed
    cases op with
    | claimDueJobs workerId batchSize leaseSeconds newToken choices =>
      cases returned : claimDueJobs now workerId batchSize leaseSeconds newToken choices db with
      | mk jobs tables =>
        have committed : (JobOp.claimDueJobs workerId batchSize leaseSeconds newToken choices).commit
          now db = (answer, db') := committed
        rw [commit_claimDueJobs, returned] at committed
        cases committed
        have next := takes.append
          (claim_takes returned (undisturbed.noneDue rfl) undisturbed.noneLocked)
        rwa [← List.map_append] at next
    | _ =>
      have kept : (dueAt began db').Perm (dueAt began db) :=
        due_kept committed rfl undisturbed.noneAdded
      simpa [batchSizes, claimedSoFar, JobOp.batchSize, Call.claimedJobs] using
        takes.perm_rest (kept.map Job.queueKey)

theorem drainsInOrder {began : Time} {start db : Db} {history : JobHistory}
    (run : Run (jobSystem.startingAt start) history db)
    (undisturbed : Along (fun _ => Undisturbed began) history) :
    DrainsInOrder began start (batchSizes history) (claimedSoFar history) := by
  have takes := claimed_takes run undisturbed
  -- the ids of the keys are the ids of the jobs
  have ids : ∀ jobs : List Job, (jobs.map Job.queueKey).map QueueKey.id = jobs.map Job.id := by
    intro jobs
    rw [List.map_map]
    rfl
  have perm := takes.perm.map QueueKey.id
  rw [List.map_append, ids, ids, ids] at perm
  have nodup := perm.nodup_iff.mpr (dueAt_nodup began start)
  constructor
  case count => simpa using takes.length
  case once => exact (List.nodup_append.mp nodup).1
  case wereDue =>
    intro job member
    have inItems := takes.perm.mem_iff.mp
      (List.mem_append_left _ (List.mem_map_of_mem (f := Job.queueKey) member))
    exact List.mem_map.mp inItems
  case ahead =>
    intro job member row due unclaimed
    have inItems := takes.perm.mem_iff.mpr (List.mem_map_of_mem (f := Job.queueKey) due)
    cases List.mem_append.mp inItems with
    | inl claimed =>
      obtain ⟨other, inClaimed, same⟩ := List.mem_map.mp claimed
      have named : other.id = row.id := congrArg QueueKey.id same
      exact absurd (named ▸ List.mem_map_of_mem inClaimed) unclaimed
    | inr left =>
      exact not_comesBefore.mpr (takes.first _ (List.mem_map_of_mem member) _ left)
  case sorted => exact (List.pairwise_map.mp takes.sorted).imp not_comesBefore.mpr
  case drained =>
    intro room
    have all := (takes.all (by simpa using room)).map QueueKey.id
    rwa [ids, ids] at all

/-- Every claim takes the first claimable jobs in order, and undisturbed claims drain the due jobs
    in that order, each of them once. -/
theorem claims_by_priority :
    (∀ (now : Time) (workerId : String) (batchSize : Nat) (leaseSeconds : Time)
      (newToken : JobId → ClaimToken) (choices : Choices) (db : Db) (jobs : List Job) (db' : Db),
      claimDueJobs now workerId batchSize leaseSeconds newToken choices db = (jobs, db') →
        ClaimsInOrder now workerId batchSize leaseSeconds newToken choices db jobs db') ∧
    ∀ (began : Time) (start db : Db) (history : JobHistory),
      Run (jobSystem.startingAt start) history db → Along (fun _ => Undisturbed began) history →
        DrainsInOrder began start (batchSizes history) (claimedSoFar history) :=
  ⟨fun _ _ _ _ _ _ _ _ _ returned => claimsInOrder returned,
    fun _ _ _ _ run undisturbed => drainsInOrder run undisturbed⟩

/-- Three jobs, the last one of high priority, and the second due before the first. -/
def threeDue : Db := (jobRun
  [(.createJob 1 { sampleJob 3 with delaySeconds := some 4 }, 0), (.createJob 2 (sampleJob 3), 2),
    (.createJob 3 { sampleJob 3 with priority := .high }, 3)]).2

/-- Two workers drain them, one of them finishing its job in between. -/
def twoBatches : JobHistory × Db := makeCalls ([], threeDue)
  [(.claimDueJobs "worker-1" 1 10 (fun _ => 70) .alone, 5),
    (.markSent 3 70 "worker-1" none "" 900, 6),
    (.claimDueJobs "worker-2" 5 10 (fun _ => 71) .alone, 7)]

theorem claims_by_priority_two_batches :
    (claimedSoFar twoBatches.1).map Job.id = [3, 2, 1] ∧
      DrainsInOrder 5 threeDue (batchSizes twoBatches.1) (claimedSoFar twoBatches.1) ∧
      ClaimsInOrder 5 "worker-1" 1 10 (fun _ => 70) .alone threeDue
        (claimDueJobs 5 "worker-1" 1 10 (fun _ => 70) .alone threeDue).1
        (claimDueJobs 5 "worker-1" 1 10 (fun _ => 70) .alone threeDue).2 := by
  have claimed : (claimedSoFar twoBatches.1).map Job.id = [3, 2, 1] := by decide +kernel
  have nothing : Run (jobSystem.startingAt threeDue) [] threeDue := .start rfl
  have undisturbed : Along (fun _ => Undisturbed 5) twoBatches.1 := by decide +kernel
  exact ⟨claimed, claims_by_priority.2 5 threeDue _ _ (run_makeCalls nothing _) undisturbed,
    claims_by_priority.1 _ _ _ _ _ _ _ _ _ rfl⟩

end NotifyQueue
