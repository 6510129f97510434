import NotifyQueue.Lib.Draining
import NotifyQueue.Verified.SliceSteps
import NotifyQueue.Worker.WebhookDispatcher

/-! # What a dispatcher's step does to one event

`RowStep` lists what a step can do to the outbox row of one event: nothing, insert it, claim
it, or record what a dispatch of it came to.  `rowStep` shows that every step of the webhook
system does one of these to every event. -/

namespace NotifyQueue

open Draining Tables Runs

def WebhookWorld.row (w : WebhookWorld) (id : EventId) : Option OutboxRow :=
  w.db.webhookOutbox.lookup id

def WebhookWorld.status (w : WebhookWorld) (id : EventId) : Option OutboxStatus :=
  (w.row id).map OutboxRow.status

/-- The events that a step claims. -/
def claimedIds (settings : Settings) (w : WebhookWorld) : WebhookAction → List EventId
  | .claim began choices => (w.claim settings began choices).1.map OutboxEvent.id
  | _ => []

/-- What an outcome writes into its row. -/
def Outcome.set (now : Time) (row : OutboxRow) : Outcome → OutboxRow
  | .delivered => deliveredEvent now row
  | .retry error retryDelay => attemptFailedEvent now error (some retryDelay) row
  | .giveUp error => attemptFailedEvent now error none row

/-- The dispatch whose outcome a step records, and the outcome. -/
def recordOf (settings : Settings) (w : WebhookWorld) : WebhookAction → Option (Dispatch × Outcome)
  | .record i _ draw =>
    match w.dispatches[i]? with
    | some dispatch =>
      match dispatch.stage with
      | .recording error _ =>
        (dispatch.event.outcome settings error draw).toOption.map fun outcome => (dispatch, outcome)
      | _ => none
    | none => none
  | _ => none

/-- The steps: time passes, a job operation commits, events are claimed, a dispatch moves on
    without writing, or its outcome is recorded. -/
inductive WebhookStep (settings : Settings) (w : WebhookWorld) :
    WebhookAction → WebhookWorld → Prop where
  | ticked {later : Time} (forward : w.now ≤ later) :
      WebhookStep settings w (.tick later) { w with now := later }
  | job {op : JobOp} {began : Time} (past : began ≤ w.now) :
      WebhookStep settings w (.job op began) { w with db := (op.commit began w.db).2 }
  | claimed {began : Time} {choices : OutboxChoices} (past : began ≤ w.now) :
      WebhookStep settings w (.claim began choices)
        { w with
          db := { w.db with webhookOutbox := (w.claim settings began choices).2 }
          dispatches := w.dispatches ++
            (w.claim settings began choices).1.map fun event => ⟨event, began, .posting⟩ }
  | moved {action : WebhookAction} {i : Nat} {dispatch : Dispatch} {stage : DispatchStage}
      (found : w.dispatches[i]? = some dispatch) (unrecorded : stage ≠ .recorded)
      (started : (dispatch.to stage).underWay = true → dispatch.underWay = true)
      (unclaimed : claimedIds settings w action = []) (records : recordOf settings w action = none) :
      WebhookStep settings w action { w with dispatches := w.dispatches.set i (dispatch.to stage) }
  | recorded {action : WebhookAction} {i : Nat} {dispatch : Dispatch} {outcome : Outcome}
      {began : Time} (found : w.dispatches[i]? = some dispatch)
      (unclaimed : claimedIds settings w action = [])
      (records : recordOf settings w action = some (dispatch, outcome)) :
      WebhookStep settings w action
        { w with
          db := { w.db with
            webhookOutbox := outcome.write began dispatch.event.id w.db.webhookOutbox }
          dispatches := w.dispatches.set i (dispatch.to .recorded) }

theorem WebhookWorld.step_cases {settings : Settings} {w w' : WebhookWorld} {action : WebhookAction}
    (step : w.step settings action = some w') : WebhookStep settings w action w' := by
  cases action with
  | tick later =>
    simp only [WebhookWorld.step, Option.ite_none_right_eq_some, Option.some.injEq] at step
    obtain ⟨forward, rfl⟩ := step
    exact .ticked forward
  | job op began =>
    simp only [WebhookWorld.step, Option.ite_none_right_eq_some, Option.some.injEq] at step
    obtain ⟨past, rfl⟩ := step
    exact .job past
  | claim began choices =>
    simp only [WebhookWorld.step, Option.ite_none_right_eq_some, Option.some.injEq] at step
    obtain ⟨past, rfl⟩ := step
    exact .claimed past
  | endPost i result =>
    simp only [WebhookWorld.step] at step
    split at step
    · next dispatch found =>
      simp only [Option.ite_none_right_eq_some, Option.some.injEq] at step
      obtain ⟨posting, rfl⟩ := step
      exact .moved found (by split <;> simp) (fun _ => by simp [Dispatch.underWay, posting]) rfl rfl
    · cases step
  | record i began draw =>
    simp only [WebhookWorld.step] at step
    split at step
    · next dispatch found =>
      split at step
      · next error since stage =>
        simp only [Option.ite_none_right_eq_some, Option.some.injEq] at step
        obtain ⟨times, rfl⟩ := step
        -- a backoff that raises moves the dispatch on without a write
        simp only [WebhookWorld.record]
        split
        · next outcome decided =>
          exact .recorded found rfl (by simp [recordOf, found, stage, decided, Except.toOption])
        · next decided =>
          exact .moved found (by simp) (by simp [Dispatch.underWay, Dispatch.to]) rfl
            (by simp [recordOf, found, stage, decided, Except.toOption])
      · cases step
    · cases step
  | abandon i =>
    simp only [WebhookWorld.step] at step
    split at step
    · next dispatch found =>
      simp only [Option.ite_none_left_eq_some, Option.some.injEq] at step
      obtain ⟨_, rfl⟩ := step
      exact .moved found (by simp) (by simp [Dispatch.underWay, Dispatch.to]) rfl rfl
    · cases step

/-- The steps of one event. -/
inductive RowStep (settings : Settings) (w : WebhookWorld) (action : WebhookAction)
    (w' : WebhookWorld) (id : EventId) : Prop where
  | same (kept : w'.row id = w.row id) (unclaimed : id ∉ claimedIds settings w action)
      (other : ∀ dispatch outcome, recordOf settings w action = some (dispatch, outcome) →
        dispatch.event.id ≠ id)
  | announced {row : OutboxRow} (absent : w.row id = none) (present : w'.row id = some row)
      (pending : row.status = .pending) (untried : row.attempts = 0)
      (unclaimed : id ∉ claimedIds settings w action) (records : recordOf settings w action = none)
  | claimed {row : OutboxRow} {began : Time} {choices : OutboxChoices}
      (claims : action = .claim began choices) (member : id ∈ claimedIds settings w action)
      (present : w.row id = some row) (due : isDueEvent began row = true)
      (written : w'.row id = some (claimedEvent began settings.webhookLeaseSeconds row))
      (handed : ⟨(claimedEvent began settings.webhookLeaseSeconds row).toEvent, began, .posting⟩ ∈
        w'.dispatches)
  | recorded {dispatch : Dispatch} {outcome : Outcome} {began : Time}
      (records : recordOf settings w action = some (dispatch, outcome))
      (named : dispatch.event.id = id)
      (written : w'.row id = (w.row id).map fun row => outcome.set began row)
      (unclaimed : id ∉ claimedIds settings w action)

/-! ## The statements -/

section

variable {now : Time} {outbox : Outbox} {id eventId : EventId}

theorem lookup_write (outcome : Outcome) :
    (outcome.write now eventId outbox).lookup id =
      if eventId = id then (outbox.lookup id).map fun row => outcome.set now row
      else outbox.lookup id := by
  cases found : outbox.lookup id with
  | none =>
    cases outcome <;>
      simp [Outcome.write, markDelivered, markAttemptFailed, Table.lookup_update, found]
  | some row =>
    have key : row.id = id := Table.pk_of_lookup found
    by_cases named : eventId = id
    · cases outcome <;>
        simp [Outcome.write, Outcome.set, markDelivered, markAttemptFailed, Table.lookup_update,
          found, key, named]
    · cases outcome <;>
        simp [Outcome.write, markDelivered, markAttemptFailed, Table.lookup_update, found, key,
          named, Ne.symm named]

theorem isDueEvent_iff {row : OutboxRow} :
    isDueEvent now row = true ↔ row.status = .pending ∧ row.nextAttemptAt ≤ now := by
  simp [isDueEvent]

instance nextAttemptOrder_total : Std.Total nextAttemptOrder where
  total a b := le_total a.nextAttemptAt b.nextAttemptAt

instance nextAttemptOrder_trans : IsTrans OutboxRow nextAttemptOrder where
  trans _ _ _ := le_trans

/-- The claim takes the first due events that are not locked. -/
theorem dueEvents_takes (began : Time) (limit : Nat) (choices : OutboxChoices) (outbox : Outbox) :
    ∃ rest, Takes nextAttemptOrder limit
      (outbox.select fun row => isDueEvent began row && !choices.locked row.id)
      (dueEvents began limit choices outbox) rest :=
  takes_topRows choices.scan limit _

/-- A row that the claim takes is due. -/
theorem due_of_isAmong {limit : Nat} {choices : OutboxChoices} {row : OutboxRow}
    (present : row ∈ outbox.rows)
    (among : isAmong (dueEvents now limit choices outbox) row = true) :
    isDueEvent now row = true := by
  simp only [isAmong, List.any_eq_true, decide_eq_true_eq] at among
  obtain ⟨other, member, same⟩ := among
  have selected := mem_of_mem_topRows member
  simp only [Table.select, List.mem_filter, Bool.and_eq_true] at selected
  obtain rfl : other = row := List.inj_on_of_nodup_map outbox.pk_nodup selected.1 present same
  exact selected.2.1

/-- The events that a claim hands out are the rows that it took. -/
theorem mem_claimOutboxEvents {limit : Nat} {leaseSeconds : Time} {choices : OutboxChoices}
    {event : OutboxEvent} :
    event ∈ (claimOutboxEvents now limit leaseSeconds choices outbox).1 ↔
      ∃ row ∈ outbox.rows, isAmong (dueEvents now limit choices outbox) row = true ∧
        (claimedEvent now leaseSeconds row).toEvent = event := by
  simp only [claimOutboxEvents, List.mem_map, RowOrder.mem_arrange, Table.mem_returning]
  constructor
  · rintro ⟨_, ⟨row, member, among, rfl⟩, rfl⟩
    exact ⟨row, member, among, rfl⟩
  · rintro ⟨row, member, among, rfl⟩
    exact ⟨_, ⟨row, member, among, rfl⟩, rfl⟩

end

/-! ## What a claim hands out -/

section

variable {settings : Settings} {w : WebhookWorld} {action : WebhookAction}

/-- No claim hands out an event twice. -/
theorem claimedIds_nodup : (claimedIds settings w action).Nodup := by
  cases action with
  | claim began choices =>
    let taken := isAmong (dueEvents began settings.webhookBatchSize choices w.db.webhookOutbox)
    let claim := claimedEvent began settings.webhookLeaseSeconds
    have rows : ((w.db.webhookOutbox.returning taken claim).map OutboxRow.id).Nodup := by
      have ids : (w.db.webhookOutbox.returning taken claim).map OutboxRow.id =
          (w.db.webhookOutbox.rows.filter taken).map OutboxRow.id := by
        rw [Table.returning, List.map_map]
        rfl
      rw [ids]
      exact w.db.webhookOutbox.pk_nodup.sublist (List.filter_sublist.map OutboxRow.id)
    have arranged := ((choices.returned.perm (w.db.webhookOutbox.returning taken claim)).map
      OutboxRow.id).nodup_iff.mpr rows
    simpa [claimedIds, WebhookWorld.claim, claimOutboxEvents, OutboxRow.toEvent,
      Function.comp_def] using arranged
  | _ => exact List.nodup_nil

/-- The ids that a claim hands out are those of the rows that it selected. -/
theorem claimedIds_perm (began : Time) (choices : OutboxChoices) :
    (claimedIds settings w (.claim began choices)).Perm
      ((dueEvents began settings.webhookBatchSize choices w.db.webhookOutbox).map OutboxRow.id) := by
  have inTable : ∀ due ∈ dueEvents began settings.webhookBatchSize choices w.db.webhookOutbox,
      due ∈ w.db.webhookOutbox.rows := by
    intro due member
    exact (List.mem_filter.mp (mem_of_mem_topRows member)).1
  have nodup : ((dueEvents began settings.webhookBatchSize choices w.db.webhookOutbox).map
      OutboxRow.id).Nodup := by
    obtain ⟨rest, takes⟩ :=
      dueEvents_takes began settings.webhookBatchSize choices w.db.webhookOutbox
    have items : ((w.db.webhookOutbox.select fun row =>
        isDueEvent began row && !choices.locked row.id).map OutboxRow.id).Nodup :=
      w.db.webhookOutbox.pk_nodup.sublist (List.filter_sublist.map OutboxRow.id)
    have whole := (takes.perm.map OutboxRow.id).nodup_iff.mpr items
    rw [List.map_append] at whole
    exact (List.nodup_append.mp whole).1
  rw [List.perm_ext_iff_of_nodup claimedIds_nodup nodup]
  intro id
  simp only [claimedIds, WebhookWorld.claim, List.mem_map, mem_claimOutboxEvents]
  constructor
  · rintro ⟨_, ⟨row, member, among, rfl⟩, rfl⟩
    simp only [isAmong, List.any_eq_true, decide_eq_true_eq] at among
    obtain ⟨due, selected, same⟩ := among
    exact ⟨due, selected, same⟩
  · rintro ⟨due, selected, rfl⟩
    refine ⟨_, ⟨due, inTable due selected, ?_, rfl⟩, rfl⟩
    simp only [isAmong, List.any_eq_true, decide_eq_true_eq]
    exact ⟨due, selected, rfl⟩

/-- So they are no more than the batch has room for. -/
theorem length_claimedIds_le (began : Time) (choices : OutboxChoices) :
    (claimedIds settings w (.claim began choices)).length ≤ settings.webhookBatchSize := by
  obtain ⟨rest, takes⟩ :=
    dueEvents_takes began settings.webhookBatchSize choices w.db.webhookOutbox
  rw [(claimedIds_perm began choices).length_eq, List.length_map, takes.length]
  exact min_le_left _ _

end

/-! ## Job operations -/

/-- A step of a job adds events, fresh from `enqueue_webhook`. -/
theorem SliceStep.announces {now : Time} {j : JobId} {s s' : Slice} {event : Option JobEvent}
    (step : SliceStep now j s event s') :
    ∃ added, s'.events = s.events ++ added ∧
      ∀ row ∈ added, row.status = .pending ∧ row.attempts = 0 := by
  cases step with
  | idle => exact ⟨[], by simp, by simp⟩
  | created => exact ⟨[], by simp, by simp⟩
  | claimed => exact ⟨[], by simp, by simp⟩
  | returned => exact ⟨[], by simp, by simp⟩
  | requeued => exact ⟨[], by simp, by simp⟩
  | sent => exact ⟨_, rfl, by simp [outboxRow]⟩
  | failed => exact ⟨_, rfl, by simp [outboxRow]⟩
  | reaped => exact ⟨_, rfl, by simp [outboxRow]⟩

theorem mem_slice_events {db : Db} {row : OutboxRow} :
    row ∈ (db.slice row.jobId).events ↔ row ∈ db.webhookOutbox.rows := by
  simp [Db.slice, Table.select]

/-- A job operation keeps the events that are there, and may add new ones. -/
theorem lookup_commit {op : JobOp} {now : Time} {db : Db} {id : EventId} :
    (op.commit now db).2.webhookOutbox.lookup id = db.webhookOutbox.lookup id ∨
      db.webhookOutbox.lookup id = none ∧ ∃ row,
        (op.commit now db).2.webhookOutbox.lookup id = some row ∧ row.status = .pending ∧
          row.attempts = 0 := by
  have grows : ∀ j, ∃ added, ((op.commit now db).2.slice j).events = (db.slice j).events ++ added ∧
      ∀ row ∈ added, row.status = .pending ∧ row.attempts = 0 := fun j =>
    (commit_slice (Prod.eta (op.commit now db)).symm j).announces
  cases found : db.webhookOutbox.lookup id with
  | some row =>
    left
    obtain ⟨member, key⟩ := Table.lookup_eq_some.mp found
    obtain ⟨added, events, _⟩ := grows row.jobId
    refine Table.lookup_eq_some.mpr ⟨mem_slice_events.mp ?_, key⟩
    rw [events]
    exact List.mem_append_left _ (mem_slice_events.mpr member)
  | none =>
    cases found' : (op.commit now db).2.webhookOutbox.lookup id with
    | none => exact .inl rfl
    | some row =>
      refine .inr ⟨rfl, row, rfl, ?_⟩
      obtain ⟨member, key⟩ := Table.lookup_eq_some.mp found'
      obtain ⟨added, events, fresh⟩ := grows row.jobId
      rw [← mem_slice_events, events, List.mem_append, mem_slice_events] at member
      cases member with
      | inl old => exact absurd key (Table.lookup_eq_none.mp found row old)
      | inr new => exact fresh row new

/-! ## Every step -/

section

variable {settings : Settings} {w w' : WebhookWorld} {action : WebhookAction}

/-- What a claim does to one event. -/
theorem claim_rowStep {began : Time} {choices : OutboxChoices}
    (outbox : w'.db.webhookOutbox = (w.claim settings began choices).2)
    (dispatches : w'.dispatches = w.dispatches ++
      (w.claim settings began choices).1.map fun event => ⟨event, began, .posting⟩) (id : EventId) :
    RowStep settings w (.claim began choices) w' id := by
  have written : w'.row id = (w.row id).map fun row =>
      if isAmong (dueEvents began settings.webhookBatchSize choices w.db.webhookOutbox) row then
        claimedEvent began settings.webhookLeaseSeconds row else row := by
    simp only [WebhookWorld.row, outbox, WebhookWorld.claim, claimOutboxEvents, Table.lookup_update]
  have unclaimed : (∀ row ∈ w.db.webhookOutbox.rows, row.id = id →
      isAmong (dueEvents began settings.webhookBatchSize choices w.db.webhookOutbox) row = false) →
      id ∉ claimedIds settings w (.claim began choices) := by
    intro none member
    obtain ⟨event, handed, named⟩ := List.mem_map.mp member
    obtain ⟨row, present, among, rfl⟩ := mem_claimOutboxEvents.mp handed
    rw [none row present named] at among
    cases among
  cases found : w.row id with
  | none =>
    refine .same (by rw [written, found]; rfl) (unclaimed ?_) (by simp [recordOf])
    intro row present named
    exact absurd named (Table.lookup_eq_none.mp found row present)
  | some row =>
    obtain ⟨present, key⟩ := Table.lookup_eq_some.mp found
    -- the row is written exactly when the statement selected it
    cases among : isAmong (dueEvents began settings.webhookBatchSize choices w.db.webhookOutbox) row with
    | false =>
      refine .same (by rw [written, found]; simp [among]) (unclaimed ?_) (by simp [recordOf])
      intro other otherPresent named
      obtain rfl : other = row :=
        List.inj_on_of_nodup_map w.db.webhookOutbox.pk_nodup otherPresent present (named.trans key.symm)
      exact among
    | true =>
      have handed : (claimedEvent began settings.webhookLeaseSeconds row).toEvent ∈
          (w.claim settings began choices).1 := mem_claimOutboxEvents.mpr ⟨row, present, among, rfl⟩
      refine .claimed rfl ?_ found (due_of_isAmong present among) ?_ ?_
      · exact List.mem_map.mpr ⟨_, handed, key⟩
      · rw [written, found]
        simp [among]
      · rw [dispatches]
        exact List.mem_append_right _ (List.mem_map.mpr ⟨_, handed, rfl⟩)

theorem rowStep (step : w.step settings action = some w') (id : EventId) :
    RowStep settings w action w' id := by
  cases WebhookWorld.step_cases step with
  | ticked _ => exact .same rfl (by simp [claimedIds]) (by simp [recordOf])
  | job _ =>
    rcases lookup_commit with kept | ⟨absent, row, present, pending, untried⟩
    · exact .same kept (by simp [claimedIds]) (by simp [recordOf])
    · exact .announced absent present pending untried (by simp [claimedIds]) rfl
  | claimed _ => exact claim_rowStep rfl rfl id
  | moved _ _ _ unclaimed records => exact .same rfl (by simp [unclaimed]) (by simp [records])
  | @recorded _ _ dispatch outcome began _ unclaimed records =>
    -- the update names the event of its dispatch and touches no other
    by_cases named : dispatch.event.id = id
    · refine @RowStep.recorded _ _ _ _ _ _ _ began records named ?_ (by simp [unclaimed])
      simp only [WebhookWorld.row, lookup_write, if_pos named]
    · refine .same ?_ (by simp [unclaimed]) (by simp [records, named])
      simp only [WebhookWorld.row, lookup_write, if_neg named]

theorem mem_set {α : Type} {xs : List α} {x : α} (member : x ∈ xs) (i : Nat) (y : α) :
    xs[i]? = some x ∨ x ∈ xs.set i y := by
  obtain ⟨k, found⟩ := List.mem_iff_getElem?.mp member
  by_cases same : i = k
  · subst same
    exact .inl found
  · exact .inr (List.mem_iff_getElem?.mpr ⟨k, by rw [List.getElem?_set_ne same, found]⟩)

/-- A dispatch goes on, with the claim that it has, until its outcome is recorded. -/
theorem dispatch_kept (step : w.step settings action = some w') {dispatch : Dispatch}
    (member : dispatch ∈ w.dispatches) (unrecorded : dispatch.stage ≠ .recorded) :
    (∃ dispatch' ∈ w'.dispatches, dispatch'.event = dispatch.event ∧
        dispatch'.claimedAt = dispatch.claimedAt ∧ dispatch'.stage ≠ .recorded) ∨
      ∃ outcome, recordOf settings w action = some (dispatch, outcome) := by
  -- only the record of this dispatch ends it; a step at another index leaves it in the list
  cases WebhookWorld.step_cases step with
  | ticked _ => exact .inl ⟨dispatch, member, rfl, rfl, unrecorded⟩
  | job _ => exact .inl ⟨dispatch, member, rfl, rfl, unrecorded⟩
  | claimed _ => exact .inl ⟨dispatch, List.mem_append_left _ member, rfl, rfl, unrecorded⟩
  | @moved _ i other stage found ends _ _ _ =>
    cases mem_set member i (other.to stage) with
    | inr kept => exact .inl ⟨dispatch, kept, rfl, rfl, unrecorded⟩
    | inl same =>
      obtain rfl : other = dispatch := Option.some.inj (found.symm.trans same)
      obtain ⟨bound, _⟩ := List.getElem?_eq_some_iff.mp same
      exact .inl ⟨other.to stage, List.mem_set bound _, rfl, rfl, ends⟩
  | @recorded _ i other outcome began found _ records =>
    cases mem_set member i (other.to .recorded) with
    | inr kept => exact .inl ⟨dispatch, kept, rfl, rfl, unrecorded⟩
    | inl same =>
      obtain rfl : other = dispatch := Option.some.inj (found.symm.trans same)
      exact .inr ⟨outcome, records⟩

end

end NotifyQueue
