import NotifyQueue.Lib.Fencing
import NotifyQueue.Verified.SliceSteps

/-! # A claim ends once

The claim tokens are fencing tokens: a job is held under its token while it is
processing, a claim issues tokens to pending jobs, and a successful finalizing call or
the reaper ends them.  `ledger` reads that off a history and the tables, and
`ledger_step` shows that every call is a step of the general ledger. -/

namespace NotifyQueue

open Runs Tables

/-- The job and the token that a finalizing operation presents. -/
def JobOp.presents : JobOp → Option (JobId × ClaimToken)
  | .markSent jobId claimToken _ _ _ _ => some (jobId, claimToken)
  | .markFailed jobId claimToken _ _ _ _ _ _ => some (jobId, claimToken)
  | .returnToQueue jobId claimToken _ => some (jobId, claimToken)
  | _ => none

/-- The tokens that a call issued, with their jobs. -/
def Call.issued (call : Call) : List (JobId × ClaimToken) :=
  match call.answer with
  | .claimed jobs => jobs.filterMap fun job => job.claimToken.map fun token => (job.id, token)
  | _ => []

/-- The tokens that a step ended: the one a successful finalizing call presented, or those
    of the jobs that the reaper moved. -/
def endedBy (taken : Taken Db Call) : List ClaimToken :=
  match taken.label.answer with
  | .finished (some _) => (taken.label.op.presents.map Prod.snd).toList
  | .reaped ts => ts.filterMap fun t => (getJob taken.before t.jobId).bind Job.claimToken
  | _ => []

/-- Newest first. -/
def issuedClaims (history : JobHistory) : List (JobId × ClaimToken) :=
  history.flatMap fun taken => taken.label.issued

def endedTokens (history : JobHistory) : List ClaimToken := history.flatMap endedBy

/-- `gen_random_uuid` never repeats a token. -/
def TokensDistinct (history : JobHistory) : Prop :=
  ((issuedClaims history).map Prod.snd).Nodup

instance (history : JobHistory) : Decidable (TokensDistinct history) :=
  inferInstanceAs (Decidable (List.Nodup _))

/-- The token under which a job is being processed. -/
def Slice.holder (s : Slice) : Option ClaimToken :=
  s.row.bind fun row => if row.status = .processing then row.claimToken else none

def ledger (history : JobHistory) (db : Db) : Fencing.Ledger JobId ClaimToken where
  holder j := (db.slice j).holder
  issued := issuedClaims history
  ended := endedTokens history

/-! ## What the steps of a job do to its hold -/

/-- The events that end a claim. -/
def JobEvent.endsClaim : JobEvent → Bool
  | .ended _ _ => true
  | .returned => true
  | _ => false

section

variable {now : Time} {j : JobId} {s s' : Slice} {event : JobEvent}

theorem SliceStep.holder_of_end (step : SliceStep now j s (some event) s')
    (ends : event.endsClaim = true) :
    (∃ row, s.row = some row ∧ row.status = .processing) ∧ s'.holder = none := by
  cases step with
  | created _ _ => contradiction
  | claimed _ _ _ _ _ => contradiction
  | requeued _ _ _ _ => contradiction
  | sent _ _ _ _ _ present owned _ _ =>
    exact ⟨⟨_, present, (fenced_iff.mp owned).2.2⟩, by simp [Slice.holder, Slice.finishSent, sentRow]⟩
  | failed _ _ _ _ _ _ _ present owned _ _ =>
    refine ⟨⟨_, present, (fenced_iff.mp owned).2.2⟩, ?_⟩
    simp [Slice.holder, Slice.finishFailed, failedRow_status_ne]
  | reaped _ _ present processing _ _ _ =>
    exact ⟨⟨_, present, processing⟩, by simp [Slice.holder, Slice.finishFailed, reapedRow_status_ne]⟩
  | returned _ _ present owned =>
    exact ⟨⟨_, present, (fenced_iff.mp owned).2.2⟩, by simp [Slice.holder, returnedRow]⟩

/-- A job that is created or requeued is not held before nor after. -/
theorem SliceStep.holder_of_other (step : SliceStep now j s (some event) s')
    (other : event.endsClaim = false) (unclaimed : event ≠ .claimed) : s'.holder = s.holder := by
  cases step with
  | created absent _ => simp [Slice.holder, absent, NewJob.row]
  | requeued _ present dead _ => simp [Slice.holder, present, dead, requeuedRow]
  | claimed _ _ _ _ _ => exact absurd rfl unclaimed
  | sent _ _ _ _ _ _ _ _ _ => contradiction
  | failed _ _ _ _ _ _ _ _ _ _ _ => contradiction
  | reaped _ _ _ _ _ _ _ => contradiction
  | returned _ _ _ _ => contradiction

end

/-- A processing job has a token. -/
theorem token_of_processing {history : JobHistory} {db : Db} (run : Run jobSystem history db)
    (j : JobId) (row : Job) (present : (db.slice j).row = some row)
    (processing : row.status = .processing) : ∃ token, row.claimToken = some token := by
  refine slice_invariant (I := fun s => ∀ row, s.row = some row → row.status = .processing →
    ∃ token, row.claimToken = some token) ?_ ?_ run j row present processing
  · intro row present
    cases present
  · intro now j s event s' holds step row present processing
    cases step with
    | idle => exact holds row present processing
    | created _ _ =>
      cases present
      cases processing
    | claimed _ _ _ _ _ =>
      cases present
      exact ⟨_, rfl⟩
    | sent _ _ _ _ _ _ _ _ _ =>
      cases present
      cases processing
    | failed _ _ _ _ _ _ _ _ _ _ _ =>
      cases present
      exact absurd processing failedRow_status_ne
    | reaped _ _ _ _ _ _ _ =>
      cases present
      exact absurd processing reapedRow_status_ne
    | returned _ _ _ _ =>
      cases present
      cases processing
    | requeued _ _ _ _ =>
      cases present
      cases processing

/-! ## Calls that present a token -/

section

variable {op : JobOp} {now : Time} {db db' : Db} {answer : Answer} {i : JobId} {token : ClaimToken}

/-- The three operations share their shape: they update the rows that the token fences, and
    record something about the first of them. -/
theorem body_of_presents (presented : op.presents = some (i, token)) (now : Time) (db : Db) :
    ∃ (set : Job → Job) (keeps : KeepsKeys set) (record : Job → Except Abort Db),
      op.body now db =
        match (db.jobs.returning (fenced i token) set).head? with
        | none => .ok (.finished none, db.updateJobs (fenced i token) set keeps)
        | some row => do
          let db ← record row
          return (.finished (some (transition row)), db) := by
  -- three operations present a token; what each records is read off its own body
  cases op <;> simp only [JobOp.presents, Option.some.injEq, Prod.mk.injEq, reduceCtorEq] at presented
  case markSent jobId claimToken workerId providerMessageId defaultCallbackUrl eventId =>
    obtain ⟨rfl, rfl⟩ := presented
    refine ⟨sentRow now, sentRow_keeps now, fun row => do
      let db ← (db.updateJobs (fenced jobId claimToken) (sentRow now)
        (sentRow_keeps now)).insertDelivery ⟨jobId, workerId, providerMessageId, now⟩
      let db ← recordAttempt db now jobId row.attempts (some workerId) .sent none row.claimedAt
      enqueueWebhook db now (targetUrl row.callbackUrl defaultCallbackUrl)
        (sentPayload eventId row), ?_⟩
    simp only [JobOp.body, markSent]
    cases (db.jobs.returning (fenced jobId claimToken) (sentRow now)).head? with
    | none => rfl
    | some row => simp only [bind_assoc, pure_bind]
  case markFailed jobId claimToken workerId error retryDelay permanent defaultCallbackUrl eventId =>
    obtain ⟨rfl, rfl⟩ := presented
    refine ⟨failedRow now error retryDelay permanent, failedRow_keeps _ _ _ _, fun row => do
      let db ← recordAttempt (db.updateJobs (fenced jobId claimToken)
        (failedRow now error retryDelay permanent) (failedRow_keeps _ _ _ _)) now jobId
        row.attempts (some workerId) .failed (some error) row.claimedAt
      let reason := if permanent then permanentReason else maxAttemptsReason
      afterFailure db now row error reason defaultCallbackUrl eventId, ?_⟩
    simp only [JobOp.body, markFailed]
    cases (db.jobs.returning (fenced jobId claimToken)
        (failedRow now error retryDelay permanent)).head? with
    | none => rfl
    | some row => simp only [bind_assoc, pure_bind]
  case returnToQueue jobId claimToken delaySeconds =>
    obtain ⟨rfl, rfl⟩ := presented
    refine ⟨returnedRow now delaySeconds, returnedRow_keeps _ _, fun _ => .ok (db.updateJobs
      (fenced jobId claimToken) (returnedRow now delaySeconds) (returnedRow_keeps _ _)), ?_⟩
    simp only [JobOp.body, returnToQueue]
    cases (db.jobs.returning (fenced jobId claimToken)
        (returnedRow now delaySeconds)).head? <;> rfl

/-- How a call that presents a token can end. -/
inductive Finalized (db : Db) (i : JobId) (token : ClaimToken) : Answer → Db → Prop where
  | fencedOut (unfenced : ∀ row ∈ db.jobs.rows, fenced i token row = false) :
      Finalized db i token (.finished none) db
  | rolledBack {row : Job} (abort : Abort) (found : db.jobs.lookup i = some row)
      (owned : fenced i token row = true) : Finalized db i token (.raised abort) db
  | moved {row : Job} {t : Transition} {db' : Db} (found : db.jobs.lookup i = some row)
      (owned : fenced i token row = true) (named : t.jobId = i) :
      Finalized db i token (.finished (some t)) db'

theorem finalized_of_presents (presented : op.presents = some (i, token))
    (committed : op.commit now db = (answer, db')) : Finalized db i token answer db' := by
  obtain ⟨set, keeps, record, shape⟩ := body_of_presents presented now db
  rw [JobOp.commit, shape] at committed
  cases matched : (db.jobs.returning (fenced i token) set).head? with
  | none =>
    simp only [matched] at committed
    obtain ⟨rfl, rfl⟩ := Prod.mk.inj committed
    -- an update that matched no row wrote nothing
    rw [updateJobs_of_unmatched keeps matched]
    apply Finalized.fencedOut
    intro row member
    rw [List.head?_eq_none_iff, Table.returning, List.map_eq_nil_iff,
      List.filter_eq_nil_iff] at matched
    simpa using matched row member
  | some row =>
    simp only [matched] at committed
    -- a matched row is the row of `i`, so it is the only one
    obtain ⟨old, member, owned, rfl⟩ := Table.mem_of_returning_head matched
    have found : db.jobs.lookup i = some old := by
      rw [← (fenced_iff.mp owned).1]
      exact Table.lookup_of_mem member
    cases recorded : record (set old) with
    | error abort =>
      simp only [recorded, bind, Except.bind] at committed
      obtain ⟨rfl, rfl⟩ := Prod.mk.inj committed
      -- the transaction gives back the tables it started from
      exact .rolledBack abort found owned
    | ok final =>
      simp only [recorded, bind, Except.bind, pure, Except.pure] at committed
      obtain ⟨rfl, rfl⟩ := Prod.mk.inj committed
      exact .moved found owned ((keeps old).1.trans (fenced_iff.mp owned).1)

/-- Without a row that the token fences, the call answers `None` and writes nothing. -/
theorem commit_of_unfenced (presented : op.presents = some (i, token))
    (unfenced : ∀ row ∈ db.jobs.rows, fenced i token row = false) (now : Time) :
    op.commit now db = (.finished none, db) := by
  cases committed : op.commit now db with
  | mk answer db' =>
    cases finalized_of_presents presented committed with
    | fencedOut _ => rfl
    | rolledBack _ found owned =>
      rw [unfenced _ (Table.mem_of_lookup found)] at owned
      contradiction
    | moved found owned _ =>
      rw [unfenced _ (Table.mem_of_lookup found)] at owned
      contradiction

/-- What such a call says happened to a job. -/
theorem eventFor_of_presents (presented : op.presents = some (i, token)) (now : Time)
    (t : Transition) (j : JobId) :
    ∃ event : JobEvent, event.endsClaim = true ∧
      Call.eventFor ⟨op, now, .finished (some t)⟩ j = if t.jobId = j then some event else none := by
  cases op <;> simp only [JobOp.presents, Option.some.injEq, Prod.mk.injEq, reduceCtorEq] at presented
  case markSent => exact ⟨.ended .sent t.status, rfl, rfl⟩
  case markFailed => exact ⟨.ended .failed t.status, rfl, rfl⟩
  case returnToQueue => exact ⟨.returned, rfl, rfl⟩

end

/-! ## Every call is a step of the ledger -/

section

variable {op : JobOp} {now : Time} {db db' : Db} {answer : Answer}

/-- A call that neither issues nor ends a token moves the ledger nowhere. -/
theorem ledger_idle (history : JobHistory) (committed : op.commit now db = (answer, db'))
    (unissued : Call.issued ⟨op, now, answer⟩ = []) (unended : endedBy ⟨db, ⟨op, now, answer⟩, db'⟩ = [])
    (other : ∀ j event, Call.eventFor ⟨op, now, answer⟩ j = some event →
      event.endsClaim = false ∧ event ≠ .claimed) :
    Fencing.Step (ledger history db) (ledger (⟨db, ⟨op, now, answer⟩, db'⟩ :: history) db') := by
  have unchanged : ∀ j, (db'.slice j).holder = (db.slice j).holder := by
    intro j
    have step := commit_slice committed j
    cases happened : Call.eventFor ⟨op, now, answer⟩ j with
    | none =>
      rw [happened] at step
      rw [step.idle_eq]
    | some event =>
      rw [happened] at step
      have ⟨keeps, unclaimed⟩ := other j event happened
      exact step.holder_of_other keeps unclaimed
  -- it ends the empty list of claims
  have ends : Fencing.Ends (ledger history db) [] fun j => (db'.slice j).holder :=
    { nodup := List.nodup_nil
      freed := by
        intro j member
        cases member
      frame := fun j _ => unchanged j }
  simpa [ledger, issuedClaims, endedTokens, unissued, unended] using Fencing.Step.finish ends

theorem ledger_claim (history : JobHistory) {workerId : String} {batchSize : Nat}
    {leaseSeconds : Time} {newToken : JobId → ClaimToken} {choices : Choices} {jobs : List Job}
    (returned : claimDueJobs now workerId batchSize leaseSeconds newToken choices db = (jobs, db'))
    {op : JobOp} (committed : op.commit now db = (.claimed jobs, db'))
    (claims : op = .claimDueJobs workerId batchSize leaseSeconds newToken choices) :
    Fencing.Step (ledger history db) (ledger (⟨db, ⟨op, now, .claimed jobs⟩, db'⟩ :: history) db') := by
  have batch : ∀ j token, (j, token) ∈ Call.issued ⟨op, now, .claimed jobs⟩ →
      ∃ job ∈ jobs, job.id = j ∧ job.claimToken = some token := by
    intro j token member
    obtain ⟨job, inJobs, issued⟩ := List.mem_filterMap.mp member
    obtain ⟨_, held, same⟩ := Option.map_eq_some_iff.mp issued
    obtain ⟨rfl, rfl⟩ := Prod.mk.inj same
    exact ⟨job, inJobs, rfl, held⟩
  have issues : Fencing.Issues (ledger history db) (Call.issued ⟨op, now, .claimed jobs⟩)
      fun j => (db'.slice j).holder :=
    { free := by
        intro j token member
        obtain ⟨job, inJobs, rfl, _⟩ := batch j token member
        obtain ⟨row, found, due, _, _⟩ := lookup_of_claimed returned inJobs
        -- a due job is pending, so nobody holds it
        have pending : row.status = .pending := (isDue_iff.mp due).1
        simp [ledger, Slice.holder, Db.slice, found, pending]
      taken := by
        intro j token member
        obtain ⟨job, inJobs, rfl, held⟩ := batch j token member
        obtain ⟨row, _, _, claimed, found⟩ := lookup_of_claimed returned inJobs
        have processing : job.status = .processing := by rw [← claimed]; rfl
        simp [Slice.holder, Db.slice, found, processing, held]
      frame := by
        intro j absent
        -- a job that got no token is not in the batch: its step is idle
        have unclaimed : ¬ (jobs.any fun job => job.id = j) = true := by
          simp only [List.any_eq_true, decide_eq_true_eq, not_exists, not_and]
          intro job inJobs named
          obtain ⟨row, _, _, claimed, _⟩ := lookup_of_claimed returned inJobs
          refine absent (newToken row.id) (List.mem_filterMap.mpr ⟨job, inJobs, ?_⟩)
          rw [← claimed] at named ⊢
          simp [claimedRow] at named ⊢
          exact named
        have step := commit_slice committed j
        rw [claims] at step
        simp only [Call.eventFor, if_neg unclaimed] at step
        show (db'.slice j).holder = (db.slice j).holder
        rw [step.idle_eq] }
  simpa [ledger, issuedClaims, endedTokens, endedBy] using Fencing.Step.issue issues

theorem ledger_presents (history : JobHistory) {i : JobId} {token : ClaimToken}
    (presented : op.presents = some (i, token)) (committed : op.commit now db = (answer, db')) :
    Fencing.Step (ledger history db) (ledger (⟨db, ⟨op, now, answer⟩, db'⟩ :: history) db') := by
  cases finalized_of_presents presented committed with
  | fencedOut _ =>
    apply ledger_idle history committed rfl rfl
    intro j event happened
    cases op <;> contradiction
  | rolledBack _ _ _ =>
    apply ledger_idle history committed rfl rfl
    intro j event happened
    cases op <;> contradiction
  | @moved row t _ found owned named =>
    -- the call succeeded, so the row was fenced by the token it presented
    obtain ⟨rfl, held, processing⟩ := fenced_iff.mp owned
    have holder : (db.slice row.id).holder = some token := by
      simp [Slice.holder, Db.slice, found, processing, held]
    have ends : Fencing.Ends (ledger history db) [row.id] fun j => (db'.slice j).holder :=
      { nodup := List.nodup_singleton _
        freed := by
          intro j member
          rw [List.mem_singleton] at member
          subst member
          obtain ⟨event, endsClaim, happened⟩ := eventFor_of_presents presented now t row.id
          have step := commit_slice committed row.id
          rw [happened, if_pos named] at step
          exact (step.holder_of_end endsClaim).2
        frame := by
          intro j different
          rw [List.mem_singleton] at different
          obtain ⟨event, _, happened⟩ := eventFor_of_presents presented now t j
          have step := commit_slice committed j
          rw [happened, if_neg (fun same => different (same.symm.trans named))] at step
          show (db'.slice j).holder = (db.slice j).holder
          rw [step.idle_eq] }
    have step := Fencing.Step.finish ends
    simpa [ledger, issuedClaims, endedTokens, endedBy, Call.issued, presented, holder] using step

theorem ledger_reap (history : JobHistory) {limit : Nat} {defaultCallbackUrl : String}
    {newEvent : JobId → EventId} {choices : Choices} {ts : List Transition}
    (returned : reapExpiredLeases now limit defaultCallbackUrl newEvent choices db = .ok (ts, db'))
    (reaps : op = .reapExpiredLeases limit defaultCallbackUrl newEvent choices)
    (committed : op.commit now db = (.reaped ts, db')) :
    Fencing.Step (ledger history db) (ledger (⟨db, ⟨op, now, .reaped ts⟩, db'⟩ :: history) db') := by
  have happened : ∀ j, Call.eventFor ⟨op, now, .reaped ts⟩ j =
      finishedEvent (.ended .leaseExpired) (ts.find? fun t => t.jobId = j) j := by
    intro j
    rw [reaps]
    rfl
  -- each transition names a job that was held and is free now
  have moved : ∀ t ∈ ts, (∃ row, db.jobs.lookup t.jobId = some row ∧ row.status = .processing) ∧
      (db'.slice t.jobId).holder = none := by
    intro t member
    have step := commit_slice committed t.jobId
    rw [happened, Table.find?_key (reaped_nodup returned) member] at step
    simp only [finishedEvent, if_true] at step
    exact step.holder_of_end rfl
  have ends : Fencing.Ends (ledger history db) (ts.map Transition.jobId)
      fun j => (db'.slice j).holder :=
    { nodup := reaped_nodup returned
      freed := by
        intro j inKeys
        obtain ⟨t, member, rfl⟩ := List.mem_map.mp inKeys
        exact (moved t member).2
      frame := by
        intro j absent
        have none : (ts.find? fun t => t.jobId = j) = none := by
          rw [List.find?_eq_none]
          intro t member named
          exact absent (List.mem_map.mpr ⟨t, member, by simpa using named⟩)
        have step := commit_slice committed j
        rw [happened, none] at step
        show (db'.slice j).holder = (db.slice j).holder
        rw [step.idle_eq] }
  -- the reaped rows were processing, so what they held is their token column
  have tokens : (ts.map Transition.jobId).filterMap (ledger history db).holder =
      ts.filterMap fun t => (getJob db t.jobId).bind Job.claimToken := by
    rw [List.filterMap_map]
    apply List.filterMap_congr
    intro t member
    obtain ⟨⟨row, found, processing⟩, _⟩ := moved t member
    simp [ledger, Slice.holder, Db.slice, getJob, found, processing]
  have step := Fencing.Step.finish ends
  rw [tokens] at step
  simpa [ledger, issuedClaims, endedTokens, endedBy, Call.issued] using step

/-- Every call is a step of the general ledger. -/
theorem ledger_step (history : JobHistory) (committed : op.commit now db = (answer, db')) :
    Fencing.Step (ledger history db) (ledger (⟨db, ⟨op, now, answer⟩, db'⟩ :: history) db') := by
  -- a call that raised issues nothing and ends nothing
  have raised : ∀ abort, answer = .raised abort →
      Fencing.Step (ledger history db) (ledger (⟨db, ⟨op, now, answer⟩, db'⟩ :: history) db') := by
    rintro abort rfl
    refine ledger_idle history committed rfl rfl ?_
    intro j event happened
    cases op <;> contradiction
  cases op with
  | createJob id new =>
    have created := committed
    rw [commit_createJob] at created
    split at created <;> obtain ⟨rfl, rfl⟩ := Prod.mk.inj created
    · next job isNew _ _ =>
      refine ledger_idle history committed rfl rfl ?_
      intro j event happened
      cases isNew with
      | false => cases happened
      | true =>
        simp only [Call.eventFor] at happened
        split at happened <;> cases happened
        exact ⟨rfl, by simp⟩
    · exact raised _ rfl
  | claimDueJobs workerId batchSize leaseSeconds newToken choices =>
    have claimed := committed
    rw [commit_claimDueJobs] at claimed
    obtain ⟨rfl, rfl⟩ := Prod.mk.inj claimed
    exact ledger_claim history rfl committed rfl
  | markSent jobId claimToken workerId providerMessageId defaultCallbackUrl eventId =>
    exact ledger_presents history rfl committed
  | markFailed jobId claimToken workerId error retryDelay permanent defaultCallbackUrl eventId =>
    exact ledger_presents history rfl committed
  | returnToQueue jobId claimToken delaySeconds =>
    exact ledger_presents history rfl committed
  | reapExpiredLeases limit defaultCallbackUrl newEvent choices =>
    have reaped := committed
    rw [commit_reapExpiredLeases] at reaped
    split at reaped <;> obtain ⟨rfl, rfl⟩ := Prod.mk.inj reaped
    · next returned => exact ledger_reap history returned rfl committed
    · exact raised _ rfl
  | requeueDeadLetter jobId extraAttempts =>
    have requeued := committed
    rw [commit_requeueDeadLetter] at requeued
    split at requeued <;> obtain ⟨rfl, rfl⟩ := Prod.mk.inj requeued
    · next result final _ =>
      have unended : endedBy ⟨db, ⟨.requeueDeadLetter jobId extraAttempts, now, .finished result⟩,
          final⟩ = [] := by
        cases result <;> rfl
      refine ledger_idle history committed rfl unended ?_
      intro j event happened
      cases result with
      | none => cases happened
      | some t =>
        simp only [Call.eventFor, finishedEvent] at happened
        split at happened <;> cases happened
        exact ⟨rfl, by simp⟩
    · exact raised _ rfl

end

/-! ## Every run -/

theorem TokensDistinct.earlier {taken : Taken Db Call} {history : JobHistory}
    (distinct : TokensDistinct (taken :: history)) : TokensDistinct history := by
  rw [TokensDistinct, issuedClaims, List.flatMap_cons, List.map_append] at distinct
  exact (List.nodup_append.mp distinct).2.1

theorem ledger_sound {history : JobHistory} {db : Db} (run : Run jobSystem history db)
    (distinct : TokensDistinct history) : Fencing.Sound (ledger history db) := by
  have along := Along.of_whole (P := TokensDistinct) (fun _ _ => TokensDistinct.earlier) distinct
  refine Run.invariant (I := fun history db => Fencing.Sound (ledger history db)) ?_ ?_ run along
  · rintro _ rfl
    exact Fencing.sound_empty
  · intro history db call db' _ _ sound distinct committed
    exact sound.step (ledger_step history committed) distinct

/-- No interleaving of calls ends a token twice or leaves a job processing under anything
    but its latest token, and a call that presents an ended token writes nothing. -/
theorem claim_ends_once {history : JobHistory} {db : Db} (run : Run jobSystem history db)
    (distinct : TokensDistinct history) :
    (endedTokens history).Nodup ∧
      (∀ token ∈ endedTokens history, token ∈ (issuedClaims history).map Prod.snd) ∧
      (∀ j row, getJob db j = some row → row.status = .processing →
        ∃ token, row.claimToken = some token ∧
          Fencing.latest (issuedClaims history) j = some token) ∧
      ∀ op j token, JobOp.presents op = some (j, token) → token ∈ endedTokens history →
        ∀ now, op.commit now db = (.finished none, db) := by
  have sound := ledger_sound run distinct
  refine ⟨sound.ended_nodup, sound.ended_issued, ?_, ?_⟩
  · intro j row found processing
    obtain ⟨token, held⟩ := token_of_processing run j row found processing
    refine ⟨token, held, sound.holder_latest j token ?_⟩
    have found : db.jobs.lookup j = some row := found
    simp [ledger, Slice.holder, Db.slice, found, processing, held]
  · intro op j token presented ended now
    apply commit_of_unfenced presented
    intro row member
    cases owned : fenced j token row with
    | false => rfl
    | true =>
      -- a fenced row would still be held under the ended token
      obtain ⟨rfl, held, processing⟩ := fenced_iff.mp owned
      have found : db.jobs.lookup row.id = some row := Table.lookup_of_mem member
      have holder : (ledger history db).holder row.id = some token := by
        simp [ledger, Slice.holder, Db.slice, found, processing, held]
      exact absurd ended (sound.holder_live row.id token holder)

/-- The lease of the first claim runs out, the job is reaped and claimed again. -/
def reclaimedJob : List (JobOp × Time) :=
  [(.createJob 1 (sampleJob 3), 0),
    (.claimDueJobs "worker-1" 5 10 (fun _ => 70) .alone, 1),
    (.reapExpiredLeases 5 "" (fun _ => 900) .alone, 12),
    (.claimDueJobs "worker-2" 5 10 (fun _ => 71) .alone, 13)]

/-- The first worker comes back, and its result is not recorded. -/
theorem claim_ends_once_reclaimed :
    (JobOp.markSent 1 70 "worker-1" none "" 901).commit 14 (jobRun reclaimedJob).2 =
      (.finished none, (jobRun reclaimedJob).2) :=
  (claim_ends_once (run_jobRun reclaimedJob) (by decide +kernel)).2.2.2 _ 1 70 rfl
    (by decide +kernel) 14

end NotifyQueue
