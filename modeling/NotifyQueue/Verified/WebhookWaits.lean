import Mathlib.Tactic.Linarith
import Mathlib.Tactic.Positivity
import NotifyQueue.Lib.Overtaking
import NotifyQueue.Verified.WebhookRows

/-! # How long a due event waits for a dispatcher

The outbox is served in the order of `next_attempt_at`, and whatever is written into it after an
event was due comes later in that order: a new event, a lease, a retry.  So nothing overtakes a
due event, and the events due no later bound the batches that it waits for.  It leaves the queue
when a dispatcher claims it, or when a dispatch from an earlier claim records what its POST came
to: that settles the event, or puts it back to a later place. -/

namespace NotifyQueue

open Draining Overtaking Runs Tables

/-- The pending events that are due no later than a time. -/
def dueBy (dueAt : Time) (w : WebhookWorld) : List OutboxRow :=
  w.db.webhookOutbox.select (isDueEvent dueAt)

/-- A transaction that began after a time; `uniform` draws nothing below zero. -/
def WebhookAction.After (dueAt : Time) : WebhookAction → Prop
  | .job _ began => dueAt < began
  | .claim began _ => dueAt < began
  | .record _ began draw => dueAt < began ∧ 0 ≤ draw
  | _ => True

instance {dueAt : Time} {action : WebhookAction} : Decidable (action.After dueAt) := by
  cases action <;> simp only [WebhookAction.After] <;> infer_instance

/-- What ends the waiting of an event, with the row that is left: a claim, or the record of a
    dispatch from an earlier claim.  A retry puts the event back, pending and due later. -/
inductive ServesEvent (settings : Settings) (row : OutboxRow)
    (taken : Taken WebhookWorld WebhookAction) : Prop where
  | claimed {began : Time} (member : row.id ∈ claimedIds settings taken.before taken.label)
      (written : taken.after.row row.id =
        some (claimedEvent began settings.webhookLeaseSeconds row))
  | delivered {began : Time} (written : taken.after.row row.id = some (deliveredEvent began row))
  | failed {began : Time} {error : String}
      (written : taken.after.row row.id = some (attemptFailedEvent began error none row))
  | putBack {began retryDelay : Time} {error : String}
      (later : row.nextAttemptAt < began + retryDelay)
      (written : taken.after.row row.id =
        some (attemptFailedEvent began error (some retryDelay) row))

/-- No dispatch from an earlier claim of the event is under way. -/
def Undispatched (id : EventId) (w : WebhookWorld) : Prop :=
  ∀ dispatch ∈ w.dispatches, dispatch.event.id = id → dispatch.underWay = false

instance {id : EventId} {w : WebhookWorld} : Decidable (Undispatched id w) :=
  inferInstanceAs (Decidable (∀ dispatch ∈ w.dispatches, _ → _))

/-- A claim that does not find the event locked. -/
def WebhookAction.couldClaim (id : EventId) : WebhookAction → Bool
  | .claim _ choices => !choices.locked id
  | _ => false

section

variable {settings : Settings} {w w' : WebhookWorld} {action : WebhookAction} {row : OutboxRow}
  {dueAt : Time}

theorem mem_dueBy : row ∈ dueBy dueAt w ↔ w.row row.id = some row ∧ isDueEvent dueAt row = true := by
  rw [dueBy, Table.select, List.mem_filter, WebhookWorld.row, Table.lookup_eq_some]
  simp

theorem dueBy_ids_nodup (dueAt : Time) (w : WebhookWorld) :
    ((dueBy dueAt w).map OutboxRow.id).Nodup :=
  w.db.webhookOutbox.pk_nodup.sublist (List.filter_sublist.map OutboxRow.id)

/-! ## Nothing joins -/

/-- What the transaction of a dispatch writes, when it writes. -/
theorem record_outbox {i : Nat} {began draw : Time}
    (step : w.step settings (.record i began draw) = some w') :
    w'.db.webhookOutbox = w.db.webhookOutbox ∨
      ∃ (event : OutboxEvent) (error : Option String) (outcome : Outcome),
        event.outcome settings error draw = .ok outcome ∧
        w'.db.webhookOutbox = outcome.write began event.id w.db.webhookOutbox := by
  simp only [WebhookWorld.step] at step
  split at step
  · next dispatch found =>
    split at step
    · next error since stage =>
      simp only [Option.ite_none_right_eq_some, Option.some.injEq] at step
      obtain ⟨_, rfl⟩ := step
      simp only [WebhookWorld.record]
      split
      · next outcome decided => exact .inr ⟨dispatch.event, error, outcome, decided, rfl⟩
      · exact .inl rfl
    · cases step
  · cases step

/-- The delay of a retry is not negative. -/
theorem retryDelay_nonneg {attempts : Int} {draw retryDelay : Time} (drawn : 0 ≤ draw)
    (delayed : backoffDelay attempts webhookBackoffBase webhookBackoffCap draw = .ok retryDelay) :
    0 ≤ retryDelay := by
  unfold backoffDelay at delayed
  split at delayed
  · cases delayed
  · split at delayed
    · cases delayed
    · have grows : (0 : Time) ≤ webhookBackoffBase * 2 ^ (attempts - 1).toNat := by
        unfold webhookBackoffBase
        positivity
      have ceiling : (0 : Time) ≤
          min webhookBackoffCap (webhookBackoffBase * 2 ^ (attempts - 1).toNat) :=
        le_min (by norm_num [webhookBackoffCap]) grows
      have same := Except.ok.inj delayed
      linarith

/-- A retry is due again after it was recorded. -/
theorem OutboxEvent.outcome_retry {event : OutboxEvent} {error : Option String} {text : String}
    {draw retryDelay : Time} (drawn : 0 ≤ draw)
    (decided : event.outcome settings error draw = .ok (.retry text retryDelay)) :
    0 ≤ retryDelay := by
  cases error with
  | none => simp [OutboxEvent.outcome] at decided
  | some message =>
    simp only [OutboxEvent.outcome] at decided
    split at decided
    · cases decided
    · split at decided
      · next delay computed =>
        cases decided
        exact retryDelay_nonneg drawn computed
      · cases decided

/-- A late outcome leaves no event due by the time. -/
theorem not_due_of_set {event : OutboxEvent} {error : Option String} {began draw : Time}
    {outcome : Outcome} (late : dueAt < began) (drawn : 0 ≤ draw)
    (decided : event.outcome settings error draw = .ok outcome) (row : OutboxRow) :
    isDueEvent dueAt (outcome.set began row) = false := by
  cases outcome with
  | delivered => simp [isDueEvent, Outcome.set, deliveredEvent]
  | giveUp text => simp [isDueEvent, Outcome.set, attemptFailedEvent]
  | retry text retryDelay =>
    have delayed := OutboxEvent.outcome_retry drawn decided
    have later : ¬ began + retryDelay ≤ dueAt := by linarith
    simp [isDueEvent, Outcome.set, attemptFailedEvent, later]

/-- No event gets due by a time that has passed. -/
theorem due_before (lease : 0 ≤ settings.webhookTimeoutSeconds)
    (step : w.step settings action = some w') (after : action.After dueAt)
    (due : row ∈ dueBy dueAt w') : row ∈ dueBy dueAt w := by
  obtain ⟨present, isDue⟩ := mem_dueBy.mp due
  have unchanged : w'.db.webhookOutbox = w.db.webhookOutbox → row ∈ dueBy dueAt w := by
    intro same
    rwa [dueBy, same] at due
  cases action with
  | tick later =>
    simp only [WebhookWorld.step, Option.ite_none_right_eq_some, Option.some.injEq] at step
    exact unchanged (by rw [← step.2])
  | endPost i result =>
    cases WebhookWorld.step_cases step with
    | moved _ _ _ _ _ => exact unchanged rfl
    | recorded _ _ records => simp [recordOf] at records
  | abandon i =>
    cases WebhookWorld.step_cases step with
    | moved _ _ _ _ _ => exact unchanged rfl
    | recorded _ _ records => simp [recordOf] at records
  | job op began =>
    simp only [WebhookWorld.step, Option.ite_none_right_eq_some, Option.some.injEq] at step
    obtain ⟨_, rfl⟩ := step
    cases enqueued_of_commit (Table.mem_of_lookup present) with
    | inl old => exact mem_dueBy.mpr ⟨Table.lookup_of_mem old, isDue⟩
    | inr new =>
      obtain ⟨_, _, rfl⟩ := new
      have late : dueAt < began := after
      simp [isDueEvent, outboxRow, not_le.mpr late] at isDue
  | claim began choices =>
    simp only [WebhookWorld.step, Option.ite_none_right_eq_some, Option.some.injEq] at step
    obtain ⟨_, rfl⟩ := step
    have late : dueAt < began := after
    simp only [WebhookWorld.row, WebhookWorld.claim, claimOutboxEvents, Table.lookup_update] at present
    obtain ⟨old, found, written⟩ := Option.map_eq_some_iff.mp present
    split at written
    · -- the lease of a claim ends after the clock
      rw [← written] at isDue
      have later : ¬ began + settings.webhookTimeoutSeconds * 2 ≤ dueAt := by linarith
      simp [isDueEvent, claimedEvent, Settings.webhookLeaseSeconds, later] at isDue
    · rw [written] at found
      exact mem_dueBy.mpr ⟨found, isDue⟩
  | record i began draw =>
    cases record_outbox step with
    | inl same => exact unchanged same
    | inr recorded =>
      obtain ⟨event, error, outcome, decided, written⟩ := recorded
      simp only [WebhookWorld.row, written, lookup_write] at present
      split at present
      · obtain ⟨old, _, rfl⟩ := Option.map_eq_some_iff.mp present
        rw [not_due_of_set after.1 after.2 decided] at isDue
        cases isDue
      · exact mem_dueBy.mpr ⟨present, isDue⟩

/-! ## One claim -/

/-- A claim that passes over an event that it could take is full of events due no later. -/
theorem full_of_due {began : Time} {choices : OutboxChoices} (present : w.row row.id = some row)
    (pending : row.status = .pending) (late : row.nextAttemptAt ≤ began)
    (unlocked : choices.locked row.id = false)
    (unclaimed : row.id ∉ claimedIds settings w (.claim began choices)) :
    (claimedIds settings w (.claim began choices)).length = settings.webhookBatchSize ∧
      ∀ id ∈ claimedIds settings w (.claim began choices),
        id ∈ (dueBy row.nextAttemptAt w).map OutboxRow.id := by
  obtain ⟨rest, takes⟩ :=
    dueEvents_takes began settings.webhookBatchSize choices w.db.webhookOutbox
  have ids : (claimedIds settings w (.claim began choices)).Perm _ := claimedIds_perm began choices
  have inItems : row ∈ w.db.webhookOutbox.select fun row =>
      isDueEvent began row && !choices.locked row.id := by
    refine List.mem_filter.mpr ⟨Table.mem_of_lookup present, ?_⟩
    simp [isDueEvent, pending, late, unlocked]
  have left : row ∈ rest := by
    cases List.mem_append.mp (takes.perm.mem_iff.mpr inItems) with
    | inl taken => exact absurd (ids.mem_iff.mpr (List.mem_map_of_mem taken)) unclaimed
    | inr left => exact left
  obtain ⟨full, before⟩ := takes.full_of_left left
  constructor
  · rw [ids.length_eq, List.length_map]
    exact full
  · intro id claimed
    obtain ⟨first, taken, rfl⟩ := List.mem_map.mp (ids.mem_iff.mp claimed)
    have selected := List.mem_filter.mp (takes.perm.mem_iff.mp (List.mem_append_left rest taken))
    have due := (Bool.and_eq_true _ _ ▸ selected.2).1
    apply List.mem_map_of_mem
    refine mem_dueBy.mpr ⟨Table.lookup_of_mem selected.1, ?_⟩
    exact isDueEvent_iff.mpr ⟨(isDueEvent_iff.mp due).1, before first taken⟩

/-- An event that no step serves stays as it is. -/
theorem served_or_kept (step : w.step settings action = some w') (present : w.row row.id = some row)
    (after : action.After row.nextAttemptAt) :
    ServesEvent settings row ⟨w, action, w'⟩ ∨
      w'.row row.id = some row ∧ row.id ∉ claimedIds settings w action := by
  cases rowStep step row.id with
  | same kept unclaimed _ => exact .inr ⟨kept.trans present, unclaimed⟩
  | announced absent _ _ _ _ _ => cases absent.symm.trans present
  | claimed _ member found _ written _ =>
    obtain rfl := Option.some.inj (found.symm.trans present)
    exact .inl (.claimed member written)
  | recorded records _ _ unclaimed =>
    cases action with
    | record i began draw =>
      cases record_outbox step with
      | inl same => exact .inr ⟨by rw [WebhookWorld.row, same]; exact present, unclaimed⟩
      | inr recorded =>
        obtain ⟨event, error, outcome, decided, written⟩ := recorded
        have left : w'.row row.id =
            if event.id = row.id then some (outcome.set began row) else some row := by
          rw [WebhookWorld.row, written, lookup_write, ← WebhookWorld.row, present, Option.map_some]
        by_cases named : event.id = row.id
        · rw [if_pos named] at left
          cases outcome with
          | delivered => exact .inl (.delivered left)
          | giveUp error => exact .inl (.failed left)
          | retry text retryDelay =>
            have late : row.nextAttemptAt < began := after.1
            have delayed := OutboxEvent.outcome_retry after.2 decided
            exact .inl (.putBack (by linarith) left)
        · rw [if_neg named] at left
          exact .inr ⟨left, unclaimed⟩
    | _ => simp [recordOf] at records

/-- An event without a dispatch under way gets one by a claim only. -/
theorem Undispatched.step {id : EventId} (idle : Undispatched id w)
    (step : w.step settings action = some w') (unclaimed : id ∉ claimedIds settings w action) :
    Undispatched id w' := by
  cases WebhookWorld.step_cases step with
  | ticked _ => exact idle
  | job _ => exact idle
  | claimed _ =>
    intro dispatch member named
    cases List.mem_append.mp member with
    | inl old => exact idle dispatch old named
    | inr new =>
      obtain ⟨event, handed, rfl⟩ := List.mem_map.mp new
      exact absurd (List.mem_map.mpr ⟨event, handed, named⟩) unclaimed
  | moved found _ started _ _ =>
    intro dispatch member named
    cases List.mem_or_eq_of_mem_set member with
    | inl old => exact idle dispatch old named
    | inr moved =>
      subst moved
      have before := idle _ (List.mem_of_getElem? found) named
      by_contra underWay
      rw [started (by simpa using underWay)] at before
      cases before
  | recorded _ _ _ =>
    intro dispatch member named
    cases List.mem_or_eq_of_mem_set member with
    | inl old => exact idle dispatch old named
    | inr recorded =>
      subst recorded
      simp [Dispatch.underWay, Dispatch.to]

/-- Such an event waits until it is claimed. -/
theorem claimed_or_waits (step : w.step settings action = some w')
    (waits : w.row row.id = some row ∧ Undispatched row.id w) :
    row.id ∈ claimedIds settings w action ∨
      (w'.row row.id = some row ∧ Undispatched row.id w') ∧
        row.id ∉ claimedIds settings w action := by
  obtain ⟨present, idle⟩ := waits
  cases rowStep step row.id with
  | same kept unclaimed _ =>
    exact .inr ⟨⟨kept.trans present, idle.step step unclaimed⟩, unclaimed⟩
  | announced absent _ _ _ _ _ => cases absent.symm.trans present
  | claimed _ member _ _ _ _ => exact .inl member
  | recorded records named _ _ =>
    obtain ⟨member, underWay⟩ := underWay_of_recordOf records
    rw [idle _ member named] at underWay
    cases underWay

/-- A claimed event is not due again by a time before the claim. -/
theorem not_due_of_claimed (lease : 0 ≤ settings.webhookTimeoutSeconds) {began : Time}
    {choices : OutboxChoices} (step : w.step settings (.claim began choices) = some w')
    (late : dueAt < began) {id : EventId} (due : id ∈ (dueBy dueAt w').map OutboxRow.id) :
    id ∉ claimedIds settings w (.claim began choices) := by
  intro claimed
  obtain ⟨other, member, rfl⟩ := List.mem_map.mp due
  obtain ⟨present, isDue⟩ := mem_dueBy.mp member
  cases rowStep step other.id with
  | same _ unclaimed _ => exact unclaimed claimed
  | announced _ _ _ _ unclaimed _ => exact unclaimed claimed
  | recorded _ _ _ unclaimed => exact unclaimed claimed
  | claimed claims _ _ _ written _ =>
    cases claims
    rw [written] at present
    obtain rfl := Option.some.inj present
    -- its lease ends after the clock
    have later : ¬ began + settings.webhookTimeoutSeconds * 2 ≤ dueAt := by linarith
    simp [isDueEvent, claimedEvent, Settings.webhookLeaseSeconds, later] at isDue

/-- A step that does not serve the event: a batch that passed it over came out of the events due
    no later. -/
theorem room_of_step (lease : 0 ≤ settings.webhookTimeoutSeconds)
    (step : w.step settings action = some w') (present : w.row row.id = some row)
    (pending : row.status = .pending) (after : action.After row.nextAttemptAt)
    (unclaimed : row.id ∉ claimedIds settings w action) :
    (dueBy row.nextAttemptAt w').length +
        (if action.couldClaim row.id then settings.webhookBatchSize else 0) ≤
      (dueBy row.nextAttemptAt w).length := by
  have nothingJoins : ∀ id ∈ (dueBy row.nextAttemptAt w').map OutboxRow.id,
      id ∈ (dueBy row.nextAttemptAt w).map OutboxRow.id := by
    intro id member
    obtain ⟨other, due, rfl⟩ := List.mem_map.mp member
    exact List.mem_map_of_mem (due_before lease step after due)
  by_cases could : action.couldClaim row.id = true
  · cases action with
    | claim began choices =>
      have late : row.nextAttemptAt < began := after
      obtain ⟨full, due⟩ := full_of_due present pending late.le
        (by simpa [WebhookAction.couldClaim] using could) unclaimed
      have bound : ((dueBy row.nextAttemptAt w').map OutboxRow.id).length +
          (claimedIds settings w (.claim began choices)).length ≤
            ((dueBy row.nextAttemptAt w).map OutboxRow.id).length + ([] : List EventId).length := by
        apply length_add_le (dueBy_ids_nodup row.nextAttemptAt w') claimedIds_nodup ?_ due
        intro id member
        exact .inl ⟨nothingJoins id member, not_due_of_claimed lease step late member⟩
      rw [full] at bound
      simpa [could] using bound
    | _ => cases could
  · have fewer := (dueBy_ids_nodup row.nextAttemptAt w').length_le_of_subset nothingJoins
    rw [if_neg could]
    simpa using fewer

/-- A pending event waits in the queue of those due no later, in whatever way it waits: as long
    as the waiting goes on it is there and no claim takes it. -/
theorem ends_of_room (lease : 0 ≤ settings.webhookTimeoutSeconds) (pending : row.status = .pending)
    {waits : WebhookWorld → Prop} {ends : Taken WebhookWorld WebhookAction → Prop}
    (present : ∀ w, waits w → w.row row.id = some row)
    (kept : ∀ w action w', waits w → w.step settings action = some w' →
      action.After row.nextAttemptAt →
        ends ⟨w, action, w'⟩ ∨ waits w' ∧ row.id ∉ claimedIds settings w action)
    {since : WebhookHistory} {start final : WebhookWorld}
    (run : Run ((webhookSystem settings).startingAt start) since final) (begins : waits start)
    (after : Along (fun _ taken => taken.label.After row.nextAttemptAt) since)
    (enough : (dueBy row.nextAttemptAt start).length ≤
      settings.webhookBatchSize * since.countP fun taken => taken.label.couldClaim row.id) :
    ∃ taken ∈ since, ends taken := by
  have inLine : InLine (webhookSystem settings)
      (fun taken => taken.label.After row.nextAttemptAt) waits ends
      (fun w => (dueBy row.nextAttemptAt w).length)
      (fun taken => if taken.label.couldClaim row.id then settings.webhookBatchSize else 0)
      (fun _ => 0) := by
    constructor
    intro w action w' waiting step late
    cases kept w action w' waiting step late with
    | inl ended => exact .inl ended
    | inr still =>
      exact .inr ⟨still.1, room_of_step lease step (present w waiting) pending late still.2⟩
  have inQueue : ∀ w, waits w → 0 < (dueBy row.nextAttemptAt w).length := by
    intro w waiting
    have due : isDueEvent row.nextAttemptAt row = true := isDueEvent_iff.mpr ⟨pending, le_rfl⟩
    exact List.length_pos_of_mem (mem_dueBy.mpr ⟨present w waiting, due⟩)
  apply inLine.ended run after begins inQueue
  rw [total_zero, total_ite]
  exact enough

end

/-- Once the claims that do not find a due event locked have room for the events that were due no
    later, it has been claimed, delivered or failed, or put back by a retry from an earlier claim;
    and it has been claimed if no dispatch from an earlier claim was under way.  Nothing that is
    written meanwhile gets ahead of it. -/
theorem event_served {settings : Settings} (lease : 0 ≤ settings.webhookTimeoutSeconds)
    {since : WebhookHistory} {start final : WebhookWorld}
    (run : Run ((webhookSystem settings).startingAt start) since final) {row : OutboxRow}
    (present : start.row row.id = some row) (pending : row.status = .pending)
    (after : Along (fun _ taken => taken.label.After row.nextAttemptAt) since)
    (enough : (dueBy row.nextAttemptAt start).length ≤
      settings.webhookBatchSize * since.countP fun taken => taken.label.couldClaim row.id) :
    (∃ taken ∈ since, ServesEvent settings row taken) ∧
      (Undispatched row.id start →
        ∃ taken ∈ since, row.id ∈ claimedIds settings taken.before taken.label) := by
  constructor
  · refine ends_of_room lease pending (fun _ found => found) ?_ run present after enough
    intro w action w' found step late
    exact served_or_kept step found late
  · intro idle
    let waits := fun w => WebhookWorld.row w row.id = some row ∧ Undispatched row.id w
    have there : ∀ w, waits w → w.row row.id = some row := fun _ waiting => waiting.1
    have begins : waits start := ⟨present, idle⟩
    refine ends_of_room lease pending there ?_ run begins after enough
    intro w action w' waiting step _
    exact claimed_or_waits step waiting

/-- One event a claim. -/
def oneEventAClaim : Settings := { Settings.default with webhookBatchSize := 1 }

/-- Two events are due, the one that 8 names after the one that 7 names. -/
def twoDue : WebhookWorld := (webhookRun oneEventAClaim (announceEvent ++
  [.tick 1, .job (.createJob 2 (sampleJob 3)) 1,
    .job (.claimDueJobs "w1" 1 30 (fun _ => 6) .alone) 1,
    .job (.markSent 2 6 "w1" none "http://localhost/hooks" 8) 1, .tick 2])).2

/-- A dispatcher finds 8 locked and takes 7, whose POST fails; another one takes 8. -/
def takesTurns : WebhookHistory × WebhookWorld := runOf (WebhookWorld.step oneEventAClaim) twoDue
  [.claim 2 ⟨fun id => id = 8, .stored, .stored⟩, .endPost 0 (.response 500), .record 0 2 0,
    .tick 3, .claim 3 .alone, .tick 4, .claim 4 .alone]

theorem event_served_takesTurns :
    ∃ row, twoDue.row 8 = some row ∧ Undispatched row.id twoDue ∧
      (∃ taken ∈ takesTurns.1, ServesEvent oneEventAClaim row taken) ∧
      ∃ taken ∈ takesTurns.1, row.id ∈ claimedIds oneEventAClaim taken.before taken.label := by
  have queued : ∃ row, twoDue.row 8 = some row ∧ row.status = .pending ∧ row.nextAttemptAt = 1 ∧
      (dueBy 1 twoDue).length = 2 := by decide +kernel
  obtain ⟨row, found, pending, due, two⟩ := queued
  have named : row.id = 8 := Table.pk_of_lookup found
  have run : Run ((webhookSystem oneEventAClaim).startingAt twoDue) takesTurns.1 takesTurns.2 := by
    have initial : ((webhookSystem oneEventAClaim).startingAt twoDue).init twoDue := rfl
    exact run_runOf _ initial _
  have after : Along (fun _ taken => taken.label.After row.nextAttemptAt) takesTurns.1 := by
    rw [due]
    decide +kernel
  have enough : (dueBy row.nextAttemptAt twoDue).length ≤ oneEventAClaim.webhookBatchSize *
      takesTurns.1.countP fun taken => taken.label.couldClaim row.id := by
    rw [due, named, two]
    decide +kernel
  have idle : Undispatched row.id twoDue := by
    rw [named]
    decide +kernel
  refine ⟨row, found, idle, ?_⟩
  rw [← named] at found
  have served := event_served (by decide) run found pending after enough
  exact ⟨served.1, served.2 idle⟩

end NotifyQueue
