import NotifyQueue.Verified.WebhookCap

/-! # What the outbox tells about its POSTs

Every claim hands an event to one dispatch, so the attempts of an event count its dispatches.
`Handed` is what a dispatch knows of its event: an event's data never change, and its attempts
only grow.  An event is given up by a dispatch that found the attempts used up. -/

namespace NotifyQueue

open Tables Runs

/-- The events that the dispatches were handed, in order. -/
def WebhookWorld.handed (w : WebhookWorld) : List OutboxEvent := w.dispatches.map Dispatch.event

/-- The events that a step claims. -/
def claimedEvents (settings : Settings) (w : WebhookWorld) : WebhookAction → List OutboxEvent
  | .claim began choices => (w.claim settings began choices).1
  | _ => []

section

variable {settings : Settings} {history : WebhookHistory} {w w' : WebhookWorld}
  {action : WebhookAction} {id : EventId}

theorem claimedIds_eq :
    claimedIds settings w action = (claimedEvents settings w action).map OutboxEvent.id := by
  cases action <;> rfl

theorem events_set {dispatches : List Dispatch} {i : Nat} {dispatch : Dispatch}
    {stage : DispatchStage} (found : dispatches[i]? = some dispatch) :
    (dispatches.set i (dispatch.to stage)).map Dispatch.event = dispatches.map Dispatch.event := by
  apply List.ext_getElem?
  intro k
  by_cases same : i = k
  · subst same
    obtain ⟨bound, rfl⟩ := List.getElem?_eq_some_iff.mp found
    simp [bound, Dispatch.to]
  · simp [List.getElem?_set_ne same]

/-- Dispatches are only added, by claims. -/
theorem handed_step (step : w.step settings action = some w') :
    w'.handed = w.handed ++ claimedEvents settings w action := by
  cases WebhookWorld.step_cases step with
  | ticked _ => simp [WebhookWorld.handed, claimedEvents]
  | job _ => simp [WebhookWorld.handed, claimedEvents]
  | claimed _ => simp [WebhookWorld.handed, claimedEvents, Function.comp_def]
  | moved found _ _ unclaimed _ =>
    rw [claimedIds_eq, List.map_eq_nil_iff] at unclaimed
    simp [WebhookWorld.handed, unclaimed, events_set found]
  | recorded found unclaimed _ =>
    rw [claimedIds_eq, List.map_eq_nil_iff] at unclaimed
    simp [WebhookWorld.handed, unclaimed, events_set found]

/-- A claim of an event is one dispatch of it. -/
theorem claims_eq_handed (run : Run (webhookSystem settings) history w) (id : EventId) :
    claims settings history id = w.handed.countP fun event => event.id = id := by
  induction run with
  | start initial =>
    obtain ⟨_, nothing⟩ := initial
    simp [WebhookWorld.handed, nothing, claims]
  | @next history w w' action run step inductionHypothesis =>
    have once : (claimedEvents settings w action).countP (fun event => event.id = id) =
        if id ∈ claimedIds settings w action then 1 else 0 := by
      have ids : (claimedEvents settings w action).countP (fun event => event.id = id) =
          (claimedIds settings w action).count id := by
        rw [claimedIds_eq, List.count, List.countP_map]
        rfl
      rw [ids, List.Nodup.count claimedIds_nodup]
    rw [claims_cons, inductionHypothesis, handed_step step, List.countP_append, once]

/-! ## The data of an event -/

/-- An event in the table tells about itself in its payload. -/
structure OutboxRow.Genuine (row : OutboxRow) : Prop where
  eventId : row.payload.eventId = row.id
  jobId : row.payload.jobId = row.jobId
  event : row.payload.event = row.event

/-- The data of the event that a dispatch was handed. -/
structure Handed (handed : OutboxEvent) (row : OutboxRow) : Prop where
  jobId : handed.jobId = row.jobId
  event : handed.event = row.event
  payload : handed.payload = row.payload
  targetUrl : handed.targetUrl = row.targetUrl
  tried : 1 ≤ handed.attempts
  attempts : handed.attempts ≤ row.attempts

/-- A step of a job enqueues events and touches no other. -/
theorem SliceStep.enqueues {now : Time} {j : JobId} {s s' : Slice} {event : Option JobEvent}
    (step : SliceStep now j s event s') :
    ∃ added, s'.events = s.events ++ added ∧
      ∀ row ∈ added, ∃ targetUrl payload, row = outboxRow now targetUrl payload := by
  cases step with
  | idle => exact ⟨[], by simp, by simp⟩
  | created => exact ⟨[], by simp, by simp⟩
  | claimed => exact ⟨[], by simp, by simp⟩
  | returned => exact ⟨[], by simp, by simp⟩
  | requeued => exact ⟨[], by simp, by simp⟩
  | sent => exact ⟨_, rfl, fun row member => ⟨_, _, List.mem_singleton.mp member⟩⟩
  | failed => exact ⟨_, rfl, fun row member => ⟨_, _, List.mem_singleton.mp member⟩⟩
  | reaped => exact ⟨_, rfl, fun row member => ⟨_, _, List.mem_singleton.mp member⟩⟩

theorem enqueued_of_commit {op : JobOp} {now : Time} {db : Db} {row : OutboxRow}
    (member : row ∈ (op.commit now db).2.webhookOutbox.rows) :
    row ∈ db.webhookOutbox.rows ∨ ∃ targetUrl payload, row = outboxRow now targetUrl payload := by
  obtain ⟨added, events, fresh⟩ :=
    (commit_slice (Prod.eta (op.commit now db)).symm row.jobId).enqueues
  rw [← mem_slice_events, events, List.mem_append, mem_slice_events] at member
  cases member with
  | inl old => exact .inl old
  | inr new => exact .inr (fresh row new)

/-- How a step comes by the row of an event. -/
inductive RowOrigin (settings : Settings) (w : WebhookWorld) (action : WebhookAction) (id : EventId) :
    OutboxRow → Prop where
  | kept {row : OutboxRow} (present : w.row id = some row) : RowOrigin settings w action id row
  | enqueued {now : Time} {targetUrl : String} {payload : WebhookPayload} (absent : w.row id = none) :
      RowOrigin settings w action id (outboxRow now targetUrl payload)
  | claimed {row : OutboxRow} {began : Time} (present : w.row id = some row)
      (pending : row.status = .pending) :
      RowOrigin settings w action id (claimedEvent began settings.webhookLeaseSeconds row)
  | recorded {row : OutboxRow} {dispatch : Dispatch} {outcome : Outcome} {began : Time}
      (present : w.row id = some row) (named : dispatch.event.id = id)
      (records : recordOf settings w action = some (dispatch, outcome)) :
      RowOrigin settings w action id (outcome.set began row)

theorem enqueued_of_absent (step : w.step settings action = some w') {row : OutboxRow}
    (absent : w.row id = none) (present : w'.row id = some row) :
    ∃ now targetUrl payload, row = outboxRow now targetUrl payload := by
  cases WebhookWorld.step_cases step with
  | ticked _ => simp_all [WebhookWorld.row]
  | job _ =>
    cases enqueued_of_commit (Table.mem_of_lookup present) with
    | inl old =>
      have key := Table.pk_of_lookup present
      exact absurd key (Table.lookup_eq_none.mp absent row old)
    | inr new => exact ⟨_, new⟩
  | claimed _ =>
    simp only [WebhookWorld.row] at absent present
    simp [WebhookWorld.claim, claimOutboxEvents, Table.lookup_update, absent] at present
  | moved _ _ _ _ _ => simp_all [WebhookWorld.row]
  | recorded _ _ _ =>
    simp only [WebhookWorld.row] at absent present
    simp [lookup_write, absent] at present

theorem row_origin (step : w.step settings action = some w') {row : OutboxRow}
    (present : w'.row id = some row) : RowOrigin settings w action id row := by
  cases rowStep step id with
  | same kept _ _ => exact .kept (kept ▸ present)
  | announced absent _ _ _ _ _ =>
    obtain ⟨now, targetUrl, payload, rfl⟩ := enqueued_of_absent step absent present
    exact .enqueued absent
  | claimed _ _ before due written _ =>
    rw [written] at present
    obtain rfl := Option.some.inj present
    exact .claimed before (isDueEvent_iff.mp due).1
  | recorded records named written _ =>
    rw [written] at present
    obtain ⟨before, found, rfl⟩ := Option.map_eq_some_iff.mp present
    exact .recorded found named records

/-- An event stays in the table, with its data. -/
theorem Handed.later (step : w.step settings action = some w') {event : OutboxEvent} {row : OutboxRow}
    (handed : Handed event row) (present : w.row id = some row) :
    ∃ row', w'.row id = some row' ∧ Handed event row' := by
  cases rowStep step id with
  | same kept _ _ => exact ⟨row, kept.trans present, handed⟩
  | announced absent _ _ _ _ _ =>
    rw [present] at absent
    cases absent
  | claimed _ _ before _ written _ =>
    obtain rfl := Option.some.inj (present.symm.trans before)
    refine ⟨_, written, handed.jobId, handed.event, handed.payload, handed.targetUrl, handed.tried, ?_⟩
    have attempts := handed.attempts
    simp only [claimedEvent]
    omega
  | recorded _ _ written _ =>
    rw [present, Option.map_some] at written
    refine ⟨_, written, ?_⟩
    cases ‹Outcome› <;>
      exact ⟨handed.jobId, handed.event, handed.payload, handed.targetUrl, handed.tried, handed.attempts⟩

/-- A record is made by one of the dispatches, which decided its outcome. -/
theorem of_recordOf {dispatch : Dispatch} {outcome : Outcome}
    (records : recordOf settings w action = some (dispatch, outcome)) :
    dispatch ∈ w.dispatches ∧ ∃ error since draw, dispatch.stage = .recording error since ∧
      dispatch.event.outcome settings error draw = .ok outcome := by
  unfold recordOf at records
  split at records
  · next i began draw =>
    split at records
    · next dispatch' found =>
      split at records
      · next error since stage =>
        obtain ⟨outcome', decided, same⟩ := Option.map_eq_some_iff.mp records
        cases same
        refine ⟨List.mem_of_getElem? found, error, since, draw, stage, ?_⟩
        cases outcomes : dispatch.event.outcome settings error draw with
        | error raised => simp [outcomes, Except.toOption] at decided
        | ok outcome'' => simpa [outcomes, Except.toOption] using decided
      · cases records
    · cases records
  · cases records

/-- The dispatch of a record is under way. -/
theorem underWay_of_recordOf {dispatch : Dispatch} {outcome : Outcome}
    (records : recordOf settings w action = some (dispatch, outcome)) :
    dispatch ∈ w.dispatches ∧ dispatch.underWay = true := by
  obtain ⟨member, error, since, _, stage, _⟩ := of_recordOf records
  exact ⟨member, by simp [Dispatch.underWay, stage]⟩

/-- A dispatch gives up when the event that it was handed has no attempt left. -/
theorem outcome_cases {event : OutboxEvent} {error : Option String} {draw : Time} {outcome : Outcome}
    (decided : event.outcome settings error draw = .ok outcome) :
    (error = none ∧ outcome = .delivered) ∨ ∃ text, error = some text ∧
      ((∃ retryDelay, outcome = .retry text retryDelay) ∨
        outcome = .giveUp text ∧ settings.webhookMaxAttempts ≤ event.attempts) := by
  cases error with
  | none =>
    simp only [OutboxEvent.outcome, Except.ok.injEq] at decided
    exact .inl ⟨rfl, decided.symm⟩
  | some text =>
    refine .inr ⟨text, rfl, ?_⟩
    simp only [OutboxEvent.outcome] at decided
    split at decided
    · next spent => exact .inr ⟨(Except.ok.inj decided).symm, spent⟩
    · split at decided
      · exact .inl ⟨_, (Except.ok.inj decided).symm⟩
      · cases decided

/-! ## The states of an event -/

/-- What the row of an event tells. -/
structure RowSound (settings : Settings) (row : OutboxRow) : Prop where
  genuine : row.Genuine
  counted : 0 ≤ row.attempts
  untried : row.attempts = 0 → row.status = .pending ∧ row.lastError = none ∧ row.deliveredAt = none
  failed : row.status = .failed →
    settings.webhookMaxAttempts ≤ row.attempts ∧ row.lastError.isSome = true
  delivered : row.status = .delivered → row.deliveredAt.isSome = true ∧ row.lastError = none

structure OutboxSound (settings : Settings) (w : WebhookWorld) : Prop where
  rows : ∀ id row, w.row id = some row → RowSound settings row
  handed : ∀ event ∈ w.handed, ∃ row, w.row event.id = some row ∧ Handed event row

theorem mem_handed {dispatch : Dispatch} (member : dispatch ∈ w.dispatches) :
    dispatch.event ∈ w.handed := List.mem_map_of_mem member

theorem OutboxSound.step (sound : OutboxSound settings w) (step : w.step settings action = some w') :
    OutboxSound settings w' := by
  constructor
  · intro id row present
    cases row_origin step present with
    | kept before => exact sound.rows id _ before
    | enqueued _ =>
      exact ⟨⟨rfl, rfl, rfl⟩, le_refl 0, fun _ => ⟨rfl, rfl, rfl⟩, by simp [outboxRow],
        by simp [outboxRow]⟩
    | @claimed row began before pending =>
      obtain ⟨genuine, counted, _, _, _⟩ := sound.rows id row before
      refine ⟨⟨genuine.eventId, genuine.jobId, genuine.event⟩, ?_, ?_, ?_, ?_⟩
      · simp only [claimedEvent]
        omega
      · intro untried
        simp only [claimedEvent] at untried
        omega
      · simp [claimedEvent, pending]
      · simp [claimedEvent, pending]
    | @recorded row dispatch outcome began before named records =>
      obtain ⟨genuine, counted, _, _, _⟩ := sound.rows id row before
      obtain ⟨member, error, _, draw, _, decided⟩ := of_recordOf records
      obtain ⟨row', present', handed⟩ := sound.handed _ (mem_handed member)
      rw [named, before] at present'
      obtain rfl := Option.some.inj present'
      have tried := handed.tried
      have attempts := handed.attempts
      have kept : (outcome.set began row).Genuine := by
        cases outcome <;> exact ⟨genuine.eventId, genuine.jobId, genuine.event⟩
      refine ⟨kept, by simpa using counted, ?_, ?_, ?_⟩
      · intro untried
        rw [Outcome.attempts_set] at untried
        omega
      · intro failed
        rw [Outcome.attempts_set]
        rcases outcome_cases decided with ⟨_, rfl⟩ | ⟨text, _, ⟨retryDelay, rfl⟩ | ⟨rfl, spent⟩⟩
        · cases failed
        · cases failed
        · exact ⟨spent.trans attempts, rfl⟩
      · intro delivered
        rcases outcome_cases decided with ⟨_, rfl⟩ | ⟨text, _, ⟨retryDelay, rfl⟩ | ⟨rfl, _⟩⟩
        · exact ⟨rfl, rfl⟩
        · cases delivered
        · cases delivered
  · intro event member
    rw [handed_step step, List.mem_append] at member
    cases member with
    | inl old =>
      obtain ⟨row, present, handed⟩ := sound.handed event old
      exact handed.later step present
    | inr new =>
      cases action with
      | claim began choices =>
        obtain ⟨row, inTable, among, rfl⟩ := mem_claimOutboxEvents.mp new
        have present : w.row row.id = some row := Table.lookup_of_mem inTable
        have counted := (sound.rows _ _ present).counted
        have written : w'.row row.id = some (claimedEvent began settings.webhookLeaseSeconds row) := by
          simp only [WebhookWorld.step, Option.ite_none_right_eq_some, Option.some.injEq] at step
          obtain ⟨_, rfl⟩ := step
          simp only [WebhookWorld.row] at present ⊢
          simp [WebhookWorld.claim, claimOutboxEvents, Table.lookup_update, present, among]
        refine ⟨_, written, rfl, rfl, rfl, rfl, ?_, le_refl _⟩
        simp only [OutboxRow.toEvent, claimedEvent]
        omega
      | _ => cases new

theorem outboxSound_of_run (run : Run (webhookSystem settings) history w) : OutboxSound settings w := by
  refine Run.state_invariant ?_ (fun w action w' sound step => sound.step step) run
  rintro w ⟨empty, nothing⟩
  constructor
  · intro id row present
    rw [WebhookWorld.row, empty] at present
    cases present
  · intro event member
    simp [WebhookWorld.handed, nothing] at member

/-- In every run of any number of dispatchers, whatever becomes of them: the attempts of an event
    are the dispatches that it was handed to, each with the event's data; it is given up only with
    its attempts used up, and keeps the error; and while it was never handed out, nothing is
    recorded of it. -/
theorem webhook_rows (run : Run (webhookSystem settings) history w) :
    (∀ row ∈ w.db.webhookOutbox.rows,
      row.attempts = (w.dispatches.countP fun dispatch => dispatch.event.id = row.id : Nat) ∧
      (row.status = .failed →
        settings.webhookMaxAttempts ≤ row.attempts ∧ row.lastError.isSome = true) ∧
      (row.status = .delivered → row.deliveredAt.isSome = true ∧ row.lastError = none) ∧
      (row.attempts = 0 →
        row.status = .pending ∧ row.lastError = none ∧ row.deliveredAt = none)) ∧
    ∀ dispatch ∈ w.dispatches, ∃ row ∈ w.db.webhookOutbox.rows, row.id = dispatch.event.id ∧
      Handed dispatch.event row ∧ row.Genuine := by
  have sound := outboxSound_of_run run
  constructor
  · intro row member
    have present : w.row row.id = some row := Table.lookup_of_mem member
    obtain ⟨_, _, untried, failed, delivered⟩ := sound.rows row.id row present
    refine ⟨?_, failed, delivered, untried⟩
    have counter := (countsClaims run row.id).counted row present
    rw [counter, claims_eq_handed run, WebhookWorld.handed, List.countP_map]
    rfl
  · intro dispatch member
    obtain ⟨row, present, handed⟩ := sound.handed _ (mem_handed member)
    obtain ⟨inTable, key⟩ := Table.lookup_eq_some.mp present
    exact ⟨row, inTable, key, handed, (sound.rows _ row present).genuine⟩

end

theorem webhook_rows_givenUp :
    ∃ row ∈ givenUp.2.db.webhookOutbox.rows, row.status = .failed ∧
      twoAttempts.webhookMaxAttempts ≤ row.attempts ∧ row.lastError.isSome = true := by
  have run : Run (webhookSystem twoAttempts) givenUp.1 givenUp.2 := run_webhookRun twoAttempts _
  obtain ⟨row, member, failed⟩ : ∃ row ∈ givenUp.2.db.webhookOutbox.rows, row.status = .failed := by
    decide +kernel
  exact ⟨row, member, failed, ((webhook_rows run).1 row member).2.1 failed⟩

end NotifyQueue
