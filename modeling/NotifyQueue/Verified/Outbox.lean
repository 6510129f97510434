import NotifyQueue.Verified.ClaimFencing
import NotifyQueue.Verified.Lifecycle

/-! # One webhook event for each attempt

The outbox row of an attempt is inserted by the transaction that records the attempt, so the
two tables grow together.  Which event it is depends on what the attempt did to the job;
for `dead_lettered` that is read off the history of calls. -/

namespace NotifyQueue

open Runs Tables

/-! ## Paired lists -/

section

variable {α β κ : Type} {R : α → β → Prop} {xs : List α} {ys : List β}

theorem paired_left (pairs : List.Forall₂ R xs ys) {x : α} (member : x ∈ xs) : ∃ y ∈ ys, R x y := by
  induction pairs with
  | nil => cases member
  | cons related _ inductionHypothesis =>
    cases member with
    | head => exact ⟨_, List.mem_cons_self, related⟩
    | tail _ member =>
      obtain ⟨y, inTail, related⟩ := inductionHypothesis member
      exact ⟨y, List.mem_cons_of_mem _ inTail, related⟩

/-- When related elements have the same key and the keys do not repeat, one element is the
    only one with its partner's key. -/
theorem filter_paired [DecidableEq κ] (pairs : List.Forall₂ R xs ys) {f : α → κ} {g : β → κ}
    (sameKey : ∀ x y, R x y → f x = g y) (nodup : (ys.map g).Nodup) {y : β} (member : y ∈ ys) :
    ∃ x, R x y ∧ xs.filter (fun x => f x = g y) = [x] := by
  induction pairs with
  | nil => cases member
  | @cons x y' xs ys related pairs inductionHypothesis =>
    rw [List.map_cons, List.nodup_cons] at nodup
    have key := sameKey x y' related
    cases member with
    | head =>
      -- no later element has the key
      have rest : xs.filter (fun x => f x = g y) = [] := by
        rw [List.filter_eq_nil_iff]
        intro other inTail same
        obtain ⟨partner, inYs, related'⟩ := paired_left pairs inTail
        have same : g partner = g y := by
          rw [← sameKey other partner related']
          simpa using same
        exact nodup.1 (same ▸ List.mem_map_of_mem inYs)
      exact ⟨x, related, by rw [List.filter_cons_of_pos (by simp [key]), rest]⟩
    | tail _ inTail =>
      obtain ⟨found, related', only⟩ := inductionHypothesis nodup.2 inTail
      have different : f x ≠ g y := by
        rw [key]
        intro same
        exact nodup.1 (same ▸ List.mem_map_of_mem inTail)
      exact ⟨found, related', by rw [List.filter_cons_of_neg (by simp [different]), only]⟩

end

/-! ## What happened to an attempt -/

/-- The tables hold an attempt with this number. -/
def Slice.Recorded (s : Slice) (n : Int) : Prop := ∃ attempt ∈ s.attempts, attempt.attemptNo = n

/-- The step from `s` to `s'` recorded the attempt `n` and moved the job to the dead letters. -/
structure Slice.Buries (s s' : Slice) (n : Int) : Prop where
  unrecorded : ¬ s.Recorded n
  recorded : s'.Recorded n
  alive : ∃ row, s.row = some row ∧ row.status ≠ .deadLettered
  dead : ∃ row, s'.row = some row ∧ row.status = .deadLettered

/-- The attempt `n` of the job moved it to the dead letters. -/
def MovedToDeadLetters (history : JobHistory) (j : JobId) (n : Int) : Prop :=
  ∃ taken ∈ history, (taken.before.slice j).Buries (taken.after.slice j) n

/-- The call was a requeue of the job that succeeded. -/
def Call.requeued (call : Call) (j : JobId) : Bool :=
  match call.op, call.answer with
  | .requeueDeadLetter _ _, .finished (some t) => t.jobId = j
  | _, _ => false

def JobEvent.isRequeue : JobEvent → Bool
  | .requeued _ => true
  | _ => false

def requeues (history : JobHistory) (j : JobId) : Nat :=
  history.countP fun taken => taken.label.requeued j

def Slice.isDead (s : Slice) : Bool := s.row.any fun row => row.status = .deadLettered

def Slice.deadLetteredEvents (s : Slice) : Nat :=
  s.events.countP fun event => event.event = .deadLettered

/-! ## What one step adds -/

section

variable {now : Time} {j : JobId} {s s' : Slice} {event : Option JobEvent}

/-- The attempt and the event that a step adds, for the row it writes in place of `row`. -/
structure Adds (s s' : Slice) (row row' : Job) (attempt : JobAttempt) (outboxRow : OutboxRow) :
    Prop where
  before : s.row = some row
  processing : row.status = .processing
  after : s'.row = some row'
  attempts : s'.attempts = s.attempts ++ [attempt]
  events : s'.events = s.events ++ [outboxRow]
  fresh : s.FreshAttempt attempt.attemptNo
  numbered : outboxRow.payload.attempts = attempt.attemptNo
  deadLettered : outboxRow.event = .deadLettered ↔ row'.status = .deadLettered

/-- A step that ends an attempt adds both rows.  Every other step adds none, and takes a job
    out of the dead letters if it is a requeue. -/
theorem SliceStep.adds (step : SliceStep now j s event s') :
    (event.any JobEvent.isRequeue = false ∧
      ∃ row row' attempt outboxRow, Adds s s' row row' attempt outboxRow) ∨
    s'.attempts = s.attempts ∧ s'.events = s.events ∧
      s.isDead.toNat = s'.isDead.toNat + (event.any JobEvent.isRequeue).toNat := by
  cases step with
  | idle => exact .inr ⟨rfl, rfl, rfl⟩
  | created absent _ =>
    exact .inr ⟨rfl, rfl, by simp [Slice.isDead, absent, NewJob.row, JobEvent.isRequeue]⟩
  | claimed _ _ _ present due =>
    have pending := (isDue_iff.mp due).1
    exact .inr ⟨rfl, rfl, by simp [Slice.isDead, present, pending, claimedRow, JobEvent.isRequeue]⟩
  | returned _ _ present owned =>
    have processing := (fenced_iff.mp owned).2.2
    exact .inr ⟨rfl, rfl,
      by simp [Slice.isDead, present, processing, returnedRow, JobEvent.isRequeue]⟩
  | requeued _ present dead _ =>
    exact .inr ⟨rfl, rfl, by simp [Slice.isDead, present, dead, requeuedRow, JobEvent.isRequeue]⟩
  | sent _ _ _ _ _ present owned _ fresh =>
    refine .inl ⟨rfl, _, _, _, _, present, (fenced_iff.mp owned).2.2, rfl, rfl, rfl, fresh, rfl, ?_⟩
    simp [outboxRow, sentPayload, sentRow]
  | @failed row _ _ error retryDelay permanent _ _ present owned fresh _ =>
    refine .inl ⟨rfl, _, _, _, _, present, (fenced_iff.mp owned).2.2, rfl, rfl, rfl, fresh, ?_, ?_⟩
    -- the payload has the number of the row, in either event
    · by_cases dead : (failedRow now error retryDelay permanent row).status = .deadLettered <;>
        simp only [dead, if_true, if_false, outboxRow, deadLetteredPayload, retryingPayload]
    · by_cases dead : (failedRow now error retryDelay permanent row).status = .deadLettered <;>
        simp only [dead, if_true, if_false, outboxRow, deadLetteredPayload, retryingPayload,
          reduceCtorEq]
  | @reaped row _ _ present processing _ fresh _ =>
    refine .inl ⟨rfl, _, _, _, _, present, processing, rfl, rfl, rfl, fresh, ?_, ?_⟩
    · by_cases dead : (reapedRow now row).status = .deadLettered <;>
        simp only [dead, if_true, if_false, outboxRow, deadLetteredPayload, retryingPayload]
    · by_cases dead : (reapedRow now row).status = .deadLettered <;>
        simp only [dead, if_true, if_false, outboxRow, deadLetteredPayload, retryingPayload,
          reduceCtorEq]

/-- The dead letter events of a job keep step with its status and its requeues. -/
theorem SliceStep.deadLetteredEvents (step : SliceStep now j s event s') :
    s'.deadLetteredEvents + s.isDead.toNat =
      s.deadLetteredEvents + s'.isDead.toNat + (event.any JobEvent.isRequeue).toNat := by
  cases step.adds with
  | inr same =>
    have events : s'.deadLetteredEvents = s.deadLetteredEvents := by
      rw [Slice.deadLetteredEvents, Slice.deadLetteredEvents, same.2.1]
    omega
  | inl adds =>
    obtain ⟨notRequeue, row, row', attempt, outboxRow, adds⟩ := adds
    have alive : s.isDead = false := by simp [Slice.isDead, adds.before, adds.processing]
    have dead : s'.isDead = decide (outboxRow.event = .deadLettered) := by
      simp [Slice.isDead, adds.after, adds.deadLettered]
    -- the new event announces a dead letter just when the job is dead now
    rw [notRequeue, alive, dead, Slice.deadLetteredEvents, Slice.deadLetteredEvents, adds.events,
      List.countP_append, List.countP_singleton]
    by_cases buries : outboxRow.event = .deadLettered <;> simp [buries]

theorem SliceStep.recorded (step : SliceStep now j s event s') {n : Int} (recorded : s.Recorded n) :
    s'.Recorded n := by
  obtain ⟨attempt, member, named⟩ := recorded
  cases step.adds with
  | inl adds =>
    obtain ⟨_, _, _, _, _, adds⟩ := adds
    exact ⟨attempt, by simp [adds.attempts, member], named⟩
  | inr same => exact ⟨attempt, by rw [same.1]; exact member, named⟩

end

/-! ## What a run has written -/

/-- The events that announce dead letters are those of the attempts that made them. -/
structure Accounted (history : JobHistory) (j : JobId) (s : Slice) : Prop where
  recorded : ∀ taken ∈ history, ∀ n, (taken.after.slice j).Recorded n → s.Recorded n
  deadLettered : ∀ event ∈ s.events,
    event.event = .deadLettered ↔ MovedToDeadLetters history j event.payload.attempts
  count : s.deadLetteredEvents = requeues history j + s.isDead.toNat

theorem movedToDeadLetters_cons {taken : Taken Db Call} {history : JobHistory} {j : JobId} {n : Int} :
    MovedToDeadLetters (taken :: history) j n ↔
      (taken.before.slice j).Buries (taken.after.slice j) n ∨ MovedToDeadLetters history j n := by
  simp [MovedToDeadLetters]

/-- The number in the payload of an event is one of the recorded attempts. -/
theorem recorded_of_event {s : Slice} (announced : List.Forall₂ Announces s.events s.attempts)
    {event : OutboxRow} (member : event ∈ s.events) : s.Recorded event.payload.attempts := by
  obtain ⟨attempt, inAttempts, announces⟩ := paired_left announced member
  exact ⟨attempt, inAttempts, announces.attempts.symm⟩

theorem requeued_eq (call : Call) (j : JobId) :
    call.requeued j = (call.eventFor j).any JobEvent.isRequeue := by
  obtain ⟨op, now, answer⟩ := call
  cases happened : Call.eventFor ⟨op, now, answer⟩ j with
  | none =>
    cases op <;> cases answer <;> simp only [Call.requeued, Option.any_none]
    case requeueDeadLetter.finished result =>
      cases result with
      | none => rfl
      | some t => simpa [Call.eventFor, finishedEvent] using happened
  | some event =>
    have caused := causes_of_eventFor happened
    cases op <;> cases event <;> simp only [JobOp.causes, Bool.false_eq_true] at caused
    case requeueDeadLetter.requeued jobId extraAttempts granted =>
      cases answer with
      | finished result =>
        have happened : finishedEvent (fun _ => .requeued extraAttempts) result j = _ := happened
        obtain ⟨t, rfl, named, _⟩ := finishedEvent_eq_some.mp happened
        simp [Call.requeued, named, JobEvent.isRequeue]
      | _ => cases happened
    all_goals rfl

theorem Accounted.step {history : JobHistory} {j : JobId} {op : JobOp} {now : Time} {answer : Answer}
    {db db' : Db} (accounted : Accounted history j (db.slice j)) (coherent : Coherent (db.slice j))
    (committed : op.commit now db = (answer, db')) :
    Accounted (⟨db, ⟨op, now, answer⟩, db'⟩ :: history) j (db'.slice j) := by
  have step := commit_slice committed j
  constructor
  · intro taken member n recorded
    cases member with
    | head => exact recorded
    | tail _ earlier => exact step.recorded (accounted.recorded taken earlier n recorded)
  · -- an event that was there announces an attempt that was recorded, so not by this step
    have earlier : ∀ event ∈ (db.slice j).events, event.event = .deadLettered ↔
        MovedToDeadLetters (⟨db, ⟨op, now, answer⟩, db'⟩ :: history) j event.payload.attempts := by
      intro event member
      rw [accounted.deadLettered event member, movedToDeadLetters_cons]
      have recorded := recorded_of_event coherent.announced member
      constructor
      · exact .inr
      · intro moved
        cases moved with
        | inl buries => exact absurd recorded buries.unrecorded
        | inr moved => exact moved
    intro event member
    cases step.adds with
    | inr same => exact earlier event (same.2.1 ▸ member)
    | inl adds =>
      obtain ⟨_, row, row', attempt, outboxRow, adds⟩ := adds
      rw [adds.events, List.mem_append, List.mem_singleton] at member
      cases member with
      | inl before => exact earlier event before
      | inr new =>
        subst new
        -- the event that the step adds carries the number of the attempt it adds
        have unrecorded : ¬ (db.slice j).Recorded event.payload.attempts := by
          intro recorded
          obtain ⟨other, inAttempts, named⟩ := recorded
          exact adds.fresh other inAttempts (named.trans adds.numbered)
        have recorded : (db'.slice j).Recorded event.payload.attempts :=
          ⟨attempt, by simp [adds.attempts], adds.numbered.symm⟩
        rw [adds.deadLettered, movedToDeadLetters_cons]
        constructor
        · intro dead
          have alive : row.status ≠ .deadLettered := by simp [adds.processing]
          exact .inl ⟨unrecorded, recorded, ⟨row, adds.before, alive⟩, ⟨row', adds.after, dead⟩⟩
        · intro moved
          cases moved with
          | inl buries =>
            obtain ⟨row'', present, dead⟩ := buries.dead
            have same : row'' = row' := Option.some.inj (present.symm.trans adds.after)
            exact same ▸ dead
          | inr moved =>
            obtain ⟨taken, inHistory, buries⟩ := moved
            exact absurd (accounted.recorded taken inHistory _ buries.recorded) unrecorded
  -- the count moves with the status and with the requeues
  · have balance := step.deadLetteredEvents
    have before := accounted.count
    have counted : requeues (⟨db, ⟨op, now, answer⟩, db'⟩ :: history) j = requeues history j +
        ((Call.eventFor ⟨op, now, answer⟩ j).any JobEvent.isRequeue).toNat := by
      rw [requeues, List.countP_cons, requeued_eq]
      cases (Call.eventFor ⟨op, now, answer⟩ j).any JobEvent.isRequeue <;> rfl
    omega

theorem accounted_slice {history : JobHistory} {db : Db} (run : Run jobSystem history db)
    (j : JobId) : Accounted history j (db.slice j) := by
  induction run with
  | start initial =>
    obtain rfl := initial
    exact ⟨by simp, by simp, rfl⟩
  | next earlier committed inductionHypothesis =>
    exact inductionHypothesis.step (coherent_slice earlier j) committed

/-! ## Calls that announce nothing -/

/-- Operations that give a job to a worker or back to the queue. -/
def JobOp.isQuiet : JobOp → Bool
  | .claimDueJobs _ _ _ _ _ => true
  | .returnToQueue _ _ _ => true
  | .requeueDeadLetter _ _ => true
  | _ => false

/-- A quiet operation, and any call that was fenced out, leaves the outbox as it was. -/
theorem outbox_of_quiet {op : JobOp} {now : Time} {db db' : Db} {answer : Answer}
    (committed : op.commit now db = (answer, db'))
    (quiet : op.isQuiet = true ∨ answer = .finished none) : db'.webhookOutbox = db.webhookOutbox := by
  cases op with
  | createJob id new =>
    rw [commit_createJob] at committed
    split at committed <;> cases committed <;> simp [JobOp.isQuiet] at quiet
  | claimDueJobs workerId batchSize leaseSeconds newToken choices =>
    rw [commit_claimDueJobs] at committed
    cases committed
    rfl
  | markSent jobId claimToken workerId providerMessageId defaultCallbackUrl eventId =>
    cases finalized_of_presents rfl committed with
    | fencedOut _ => rfl
    | rolledBack _ _ _ => rfl
    | moved _ _ _ => simp [JobOp.isQuiet] at quiet
  | markFailed jobId claimToken workerId error retryDelay permanent defaultCallbackUrl eventId =>
    cases finalized_of_presents rfl committed with
    | fencedOut _ => rfl
    | rolledBack _ _ _ => rfl
    | moved _ _ _ => simp [JobOp.isQuiet] at quiet
  | returnToQueue jobId claimToken delaySeconds =>
    rw [commit_returnToQueue] at committed
    cases committed
    rfl
  | reapExpiredLeases limit defaultCallbackUrl newEvent choices =>
    rw [commit_reapExpiredLeases] at committed
    split at committed <;> cases committed <;> simp [JobOp.isQuiet] at quiet
  | requeueDeadLetter jobId extraAttempts =>
    rw [commit_requeueDeadLetter] at committed
    split at committed <;> cases committed
    · next requeued =>
      simp only [requeueDeadLetter] at requeued
      split at requeued
      · cases requeued
      · split at requeued <;> cases requeued <;> rfl
    · rfl

/-! ## The outbox in every run -/

theorem mem_events_iff {db : Db} {j : JobId} {event : OutboxRow} :
    event ∈ (db.slice j).events ↔ event ∈ db.webhookOutbox.rows ∧ event.jobId = j := by
  simp [Db.slice, Table.select]

/-- The numbers of the attempts of a job do not repeat. -/
theorem attemptNo_nodup (db : Db) (j : JobId) :
    ((db.slice j).attempts.map JobAttempt.attemptNo).Nodup := by
  have keys : ((db.slice j).attempts.map JobAttempt.key).Nodup :=
    db.jobAttempts.pk_nodup.sublist (List.filter_sublist.map JobAttempt.key)
  apply List.Nodup.of_map (fun n => (j, n))
  rw [List.map_map]
  refine (List.map_congr_left ?_).symm ▸ keys
  intro attempt member
  simp [JobAttempt.key, (mem_attempts_iff.mp member).2]

theorem webhookEvent_failed_iff (event : WebhookEvent) :
    event = .failed ↔ event ≠ .sent ∧ event ≠ .deadLettered := by
  cases event <;> simp

theorem countP_events (db : Db) (j : JobId) (p : OutboxRow → Bool) :
    (db.slice j).events.countP p =
      db.webhookOutbox.rows.countP fun event => decide (event.jobId = j) && p event := by
  simp only [Db.slice, Table.select, List.countP_filter, Bool.and_comm]

/-- At most one event says that the job was sent: its attempt is the last one. -/
theorem sentEvents_le_one {db : Db} {j : JobId} (coherent : Coherent (db.slice j)) :
    (db.slice j).events.countP (fun event => event.event = .sent) ≤ 1 := by
  by_cases some : ∃ event ∈ (db.slice j).events, event.event = .sent
  -- one such event: its attempt is the last one, and no other event has that number
  · obtain ⟨event, member, sent⟩ := some
    obtain ⟨attempt, inAttempts, announces⟩ := paired_left coherent.announced member
    obtain ⟨_, _, only⟩ := filter_paired coherent.announced
      (fun event attempt announces => announces.attempts) (attemptNo_nodup db j) inAttempts
    cases present : (db.slice j).row with
    | none =>
      rw [coherent.absent present] at member
      cases member
    | some row =>
      have counted := (coherent.present row present).toCounted
      have last := ((counted.sentAttempt attempt inAttempts).mp (announces.sent.mp sent)).2
      -- every event that says so carries the number of the last attempt
      have bound : (db.slice j).events.countP (fun event => event.event = .sent) ≤
          (db.slice j).events.countP fun event => event.payload.attempts = attempt.attemptNo := by
        apply List.countP_mono_left
        intro other inEvents otherSent
        obtain ⟨attempt', inAttempts', announces'⟩ := paired_left coherent.announced inEvents
        have outcome := announces'.sent.mp (by simpa using otherSent)
        have last' := ((counted.sentAttempt attempt' inAttempts').mp outcome).2
        simp [announces'.attempts, last, last']
      have one : (db.slice j).events.countP
          (fun event => event.payload.attempts = attempt.attemptNo) = 1 := by
        rw [List.countP_eq_length_filter, only, List.length_singleton]
      omega
  · have zero : (db.slice j).events.countP (fun event => event.event = .sent) = 0 := by
      rw [List.countP_eq_zero]
      intro event member sent
      exact some ⟨event, member, by simpa using sent⟩
    omega

/-- Events and attempts are one-to-one, and the kind of an event is what its attempt did. -/
theorem outbox_one_to_one {history : JobHistory} {db : Db} (run : Run jobSystem history db) :
    (∀ j,
      (∀ attempt ∈ db.jobAttempts.rows, attempt.jobId = j →
        ∃ event, (db.webhookOutbox.rows.filter fun event =>
            event.jobId = j ∧ event.payload.attempts = attempt.attemptNo) = [event] ∧
          (event.event = .sent ↔ attempt.outcome = .sent) ∧
          (event.event = .deadLettered ↔ MovedToDeadLetters history j attempt.attemptNo) ∧
          (event.event = .failed ↔
            attempt.outcome ≠ .sent ∧ ¬ MovedToDeadLetters history j attempt.attemptNo)) ∧
      (∀ event ∈ db.webhookOutbox.rows, event.jobId = j →
        ∃ attempt ∈ db.jobAttempts.rows, attempt.jobId = j ∧
          attempt.attemptNo = event.payload.attempts) ∧
      db.webhookOutbox.rows.countP (fun event => event.jobId = j ∧ event.event = .sent) ≤ 1 ∧
      db.webhookOutbox.rows.countP (fun event => event.jobId = j ∧ event.event = .deadLettered) =
        requeues history j +
          if ∃ row, getJob db j = some row ∧ row.status = .deadLettered then 1 else 0) ∧
    ∀ op now answer db', JobOp.commit op now db = (answer, db') →
      op.isQuiet = true ∨ answer = .finished none → db'.webhookOutbox = db.webhookOutbox := by
  refine ⟨?_, fun op now answer db' => outbox_of_quiet⟩
  intro j
  have coherent := coherent_slice run j
  have accounted := accounted_slice run j
  refine ⟨?_, ?_, ?_, ?_⟩
  · intro attempt member named
    have inSlice : attempt ∈ (db.slice j).attempts := mem_attempts_iff.mpr ⟨member, named⟩
    -- the pairing of events and attempts gives the one event of this attempt
    obtain ⟨event, announces, only⟩ := filter_paired coherent.announced
      (fun event attempt announces => announces.attempts) (attemptNo_nodup db j) inSlice
    have inEvents : event ∈ (db.slice j).events :=
      List.mem_of_mem_filter (only ▸ List.mem_singleton_self event)
    have buried := accounted.deadLettered event inEvents
    rw [announces.attempts] at buried
    refine ⟨event, ?_, announces.sent, buried, ?_⟩
    · rw [← only]
      simp [Db.slice, Table.select, List.filter_filter, and_comm]
    · rw [webhookEvent_failed_iff, Ne, announces.sent, Ne, buried]
  · intro event member named
    obtain ⟨attempt, inSlice, numbered⟩ :=
      recorded_of_event coherent.announced (mem_events_iff.mpr ⟨member, named⟩)
    have inTable := mem_attempts_iff.mp inSlice
    exact ⟨attempt, inTable.1, inTable.2, numbered⟩
  · have atMost := sentEvents_le_one coherent
    rw [countP_events] at atMost
    simpa using atMost
  · have count := accounted.count
    have dead : (db.slice j).isDead.toNat =
        if ∃ row, getJob db j = some row ∧ row.status = .deadLettered then 1 else 0 := by
      by_cases isDead : ∃ row, getJob db j = some row ∧ row.status = .deadLettered
      · rw [if_pos isDead]
        obtain ⟨row, found, status⟩ := isDead
        have found : db.jobs.lookup j = some row := found
        simp [Slice.isDead, Db.slice, found, status]
      · rw [if_neg isDead]
        cases found : db.jobs.lookup j with
        | none => simp [Slice.isDead, Db.slice, found]
        | some row =>
          have alive : row.status ≠ .deadLettered := fun status => isDead ⟨row, found, status⟩
          simp [Slice.isDead, Db.slice, found, alive]
    rw [Slice.deadLetteredEvents, countP_events, dead] at count
    simpa using count

/-- A requeued job that is dead-lettered again has announced it twice. -/
theorem outbox_one_to_one_requeued :
    (jobRun requeuedJob).2.webhookOutbox.rows.countP
      (fun event => event.jobId = 1 ∧ event.event = .deadLettered) = 2 := by
  have counted := ((outbox_one_to_one (run_jobRun requeuedJob)).1 1).2.2.2
  rw [counted]
  decide +kernel

end NotifyQueue
