import NotifyQueue.Verified.ClaimFencing

/-! # Leases

`leaseOf` is how long a job is held under a token.  Only a call that presents the token
or a reaper that began after the lease ran out can end it, and as long as it stands no call
that presents the token is fenced out. -/

namespace NotifyQueue

open Runs Tables

/-- When the lease of the claim `claimToken` of a job runs out; `none` when the job is not
    held under that token. -/
def leaseOf (db : Db) (jobId : JobId) (claimToken : ClaimToken) : Option Time :=
  (getJob db jobId).bind fun row => if fenced jobId claimToken row then row.leaseExpiresAt else none

theorem leaseOf_eq_some {db : Db} {jobId : JobId} {claimToken : ClaimToken} {expiresAt : Time} :
    leaseOf db jobId claimToken = some expiresAt ↔
      ∃ row, getJob db jobId = some row ∧ fenced jobId claimToken row = true ∧
        row.leaseExpiresAt = some expiresAt := by
  simp only [leaseOf, Option.bind_eq_some_iff, Option.ite_none_right_eq_some]

/-- A job is held under one token at a time. -/
theorem token_of_leases {db : Db} {jobId : JobId} {token token' : ClaimToken}
    {expiresAt expiresAt' : Time} (lease : leaseOf db jobId token = some expiresAt)
    (lease' : leaseOf db jobId token' = some expiresAt') : token = token' := by
  obtain ⟨row, found, owned, _⟩ := leaseOf_eq_some.mp lease
  obtain ⟨row', found', owned', _⟩ := leaseOf_eq_some.mp lease'
  have same : row = row' := Option.some.inj (found.symm.trans found')
  subst same
  exact Option.some.inj ((fenced_iff.mp owned).2.1.symm.trans (fenced_iff.mp owned').2.1)

section

variable {op : JobOp} {now : Time} {db db' : Db} {answer : Answer} {j : JobId}

/-- The lease that a claim starts. -/
theorem leaseOf_claimed {workerId : String} {batchSize : Nat} {leaseSeconds : Time}
    {newToken : JobId → ClaimToken} {choices : Choices} {jobs : List Job} {job : Job}
    {token : ClaimToken}
    (claimed : claimDueJobs now workerId batchSize leaseSeconds newToken choices db = (jobs, db'))
    (member : job ∈ jobs) (held : job.claimToken = some token) :
    leaseOf db' job.id token = some (now + leaseSeconds) := by
  obtain ⟨row, _, _, same, found⟩ := lookup_of_claimed claimed member
  have processing : job.status = .processing := by rw [← same]; rfl
  have lease : job.leaseExpiresAt = some (now + leaseSeconds) := by rw [← same]; rfl
  exact leaseOf_eq_some.mpr ⟨job, found, fenced_iff.mpr ⟨rfl, held, processing⟩, lease⟩

/-- Without a token only the reaper ends a claim. -/
theorem reaps_of_causes {event : JobEvent} (causes : op.causes event = true)
    (ends : event.endsClaim = true) (presents : op.presents = none) :
    ∃ status, event = .ended .leaseExpired status := by
  cases event with
  | created _ => cases ends
  | claimed => cases ends
  | requeued _ => cases ends
  | returned => cases op <;> contradiction
  | ended outcome status =>
    cases outcome with
    | leaseExpired => exact ⟨status, rfl⟩
    | sent => cases op <;> contradiction
    | failed => cases op <;> contradiction

/-- A processing row changes only by a call that presents its token, or by a reaper whose
    transaction began after its lease. -/
theorem row_of_commit (committed : op.commit now db = (answer, db')) {row : Job} {token : ClaimToken}
    (found : getJob db j = some row) (owned : fenced j token row = true)
    (other : op.presents ≠ some (j, token)) :
    getJob db' j = some row ∨ leaseExpired now row = true := by
  have ⟨_, held, processing⟩ := fenced_iff.mp owned
  have step := commit_slice committed j
  cases presents : op.presents with
  | some named =>
    obtain ⟨i, token'⟩ := named
    cases finalized_of_presents presents committed with
    | fencedOut _ => exact .inl found
    | rolledBack _ _ _ => exact .inl found
    | @moved row' t _ found' owned' named =>
      -- the call was not fenced out, so for `j` it would present the same token
      have different : i ≠ j := by
        rintro rfl
        have same : row' = row := Option.some.inj (found'.symm.trans found)
        subst same
        have tokens : token' = token := Option.some.inj ((fenced_iff.mp owned').2.1.symm.trans held)
        exact other (by rw [presents, tokens])
      obtain ⟨event, _, happened⟩ := eventFor_of_presents presents now t j
      rw [happened, if_neg (fun same => different (named.symm.trans same))] at step
      refine .inl (Eq.trans ?_ found)
      show (db'.slice j).row = (db.slice j).row
      rw [step.idle_eq]
  | none =>
    have present : (db.slice j).row = some row := found
    -- without a token the claim can only have been reaped
    have reaps : ∀ event, Call.eventFor ⟨op, now, answer⟩ j = some event → event.endsClaim = true →
        ∃ status, event = .ended .leaseExpired status := fun event happened ends =>
      reaps_of_causes (causes_of_eventFor happened) ends presents
    generalize Call.eventFor ⟨op, now, answer⟩ j = event at step reaps
    generalize after : db'.slice j = s' at step
    generalize db.slice j = s at step present
    cases step with
    | idle =>
      refine .inl (Eq.trans ?_ present)
      show (db'.slice j).row = _
      rw [after]
    | created absent _ =>
      rw [absent] at present
      cases present
    | @claimed row' _ _ _ present' due =>
      cases present'.symm.trans present
      have pending := (isDue_iff.mp due).1
      rw [processing] at pending
      cases pending
    | reaped _ _ present' _ expired _ _ =>
      cases present'.symm.trans present
      exact .inr expired
    | requeued _ present' dead _ =>
      cases present'.symm.trans present
      rw [dead] at processing
      cases processing
    | sent _ _ _ _ _ _ _ _ _ =>
      obtain ⟨status, impossible⟩ := reaps _ rfl rfl
      cases impossible
    | failed _ _ _ _ _ _ _ _ _ _ _ =>
      obtain ⟨status, impossible⟩ := reaps _ rfl rfl
      cases impossible
    | returned _ _ _ _ =>
      obtain ⟨status, impossible⟩ := reaps _ rfl rfl
      cases impossible

/-- The frame rule of leases. -/
theorem leaseOf_commit (committed : op.commit now db = (answer, db')) {token : ClaimToken}
    {expiresAt : Time} (lease : leaseOf db j token = some expiresAt)
    (other : op.presents ≠ some (j, token)) :
    leaseOf db' j token = some expiresAt ∨ expiresAt < now := by
  obtain ⟨row, found, owned, expires⟩ := leaseOf_eq_some.mp lease
  cases row_of_commit committed found owned other with
  | inl kept => exact .inl (leaseOf_eq_some.mpr ⟨row, kept, owned, expires⟩)
  | inr expired =>
    rw [leaseExpired, expires] at expired
    exact .inr (of_decide_eq_true expired)

/-- As long as the lease stands, a call that presents its token is not fenced out. -/
theorem not_fencedOut_of_lease {token : ClaimToken} {expiresAt : Time}
    (lease : leaseOf db j token = some expiresAt) (presented : op.presents = some (j, token)) :
    (op.commit now db).1 ≠ .finished none := by
  obtain ⟨row, found, owned, _⟩ := leaseOf_eq_some.mp lease
  cases committed : op.commit now db with
  | mk answer db' =>
    cases finalized_of_presents presented committed with
    | fencedOut unfenced =>
      rw [unfenced row (Table.mem_of_lookup found)] at owned
      contradiction
    | rolledBack _ _ _ => simp
    | moved _ _ _ => simp

/-! ## Sent jobs -/

/-- `mark_sent` leaves the job sent. -/
theorem sent_of_markSent {token : ClaimToken} {workerId : String} {providerMessageId : Option String}
    {defaultCallbackUrl : String} {eventId : EventId} {t : Transition}
    (committed : (JobOp.markSent j token workerId providerMessageId defaultCallbackUrl
      eventId).commit now db = (.finished (some t), db')) :
    ∃ row, getJob db' j = some row ∧ row.status = .sent := by
  have step := commit_slice committed j
  cases finalized_of_presents rfl committed with
  | moved _ _ named =>
    simp only [Call.eventFor, finishedEvent, named, if_true] at step
    generalize after : db'.slice j = s' at step
    have afterRow : getJob db' j = s'.row := by rw [← after]; rfl
    generalize t.status = status at step
    cases step with
    | sent _ _ _ _ _ _ _ _ _ => exact ⟨_, afterRow, rfl⟩

theorem sent_stays (committed : op.commit now db = (answer, db')) {row : Job}
    (found : getJob db j = some row) (sent : row.status = .sent) : getJob db' j = some row := by
  have same := (commit_op committed j).idle_of_sent found sent
  exact (congrArg Slice.row same).trans found

end

end NotifyQueue
