import NotifyQueue.Verified.WebhookRows

/-! # Whether a settled event stays settled

A claim only takes pending events, so a delivered or failed event can only be moved by a
dispatch that still holds it from an earlier claim.  The writes of a dispatch name the event
and nothing else: whoever records last wins.  While each event is claimed only after its
earlier dispatches are over, a dispatch that is under way holds its event alone
(`HeldAlone`), so that its record meets a pending row; `staysSettled_alone` adds that any
other claim can undo a delivery. -/

namespace NotifyQueue

open Tables Runs

/-- Once delivered, an event stays delivered and is not claimed; once failed, it is not
    pending again. -/
def StaysSettled (settings : Settings) : WebhookHistory → Prop :=
  Along fun earlier taken => ∀ id,
    ((∃ past ∈ taken :: earlier, past.before.status id = some .delivered) →
      taken.after.status id = some .delivered ∧
        id ∉ claimedIds settings taken.before taken.label) ∧
    ((∃ past ∈ taken :: earlier, past.before.status id = some .failed) →
      taken.after.status id ≠ some .pending)

/-- No event is claimed while an earlier dispatch of it is under way. -/
def ClaimsAlone (settings : Settings) (taken : Taken WebhookWorld WebhookAction) : Prop :=
  ∀ dispatch ∈ taken.before.dispatches, dispatch.underWay = true →
    dispatch.event.id ∉ claimedIds settings taken.before taken.label

instance {settings : Settings} {taken : Taken WebhookWorld WebhookAction} :
    Decidable (ClaimsAlone settings taken) :=
  inferInstanceAs (Decidable (∀ dispatch ∈ taken.before.dispatches, _ → _))

/-- A dispatch that is under way holds a pending event, which no other such dispatch holds. -/
structure HeldAlone (w : WebhookWorld) : Prop where
  pending : ∀ dispatch ∈ w.dispatches, dispatch.underWay = true →
    w.status dispatch.event.id = some .pending
  alone : ∀ (i k : Nat) (d e : Dispatch), w.dispatches[i]? = some d → w.dispatches[k]? = some e →
    d.underWay = true → e.underWay = true → d.event.id = e.event.id → i = k

section

variable {settings : Settings} {w w' : WebhookWorld} {action : WebhookAction} {id : EventId}

theorem status_of_row {row : OutboxRow} (present : w.row id = some row) :
    w.status id = some row.status := by
  simp [WebhookWorld.status, present]

theorem status_of_same (kept : w'.row id = w.row id) : w'.status id = w.status id := by
  rw [WebhookWorld.status, kept, WebhookWorld.status]

/-- A pending event that a step neither claims nor records stays as it is. -/
theorem pending_kept (step : w.step settings action = some w') (pending : w.status id = some .pending)
    (unclaimed : id ∉ claimedIds settings w action)
    (other : ∀ dispatch outcome, recordOf settings w action = some (dispatch, outcome) →
      dispatch.event.id ≠ id) : w'.status id = some .pending := by
  cases rowStep step id with
  | same kept _ _ => rw [status_of_same kept, pending]
  | announced absent _ _ _ _ _ => simp [WebhookWorld.status, absent] at pending
  | claimed _ member _ _ _ _ => exact absurd member unclaimed
  | recorded records named _ _ => exact absurd named (other _ _ records)

/-- The dispatch at a place after a claim is one from before, or a new one of an event that was
    just claimed. -/
theorem dispatch_of_claim {events : List OutboxEvent} {dispatches : List Dispatch} {began : Time}
    {k : Nat} {d : Dispatch}
    (found : (dispatches ++ events.map fun event => (⟨event, began, .posting⟩ : Dispatch))[k]? =
      some d) :
    dispatches[k]? = some d ∨ dispatches.length ≤ k ∧
      (events.map OutboxEvent.id)[k - dispatches.length]? = some d.event.id := by
  by_cases old : k < dispatches.length
  · rw [List.getElem?_append_left old] at found
    exact .inl found
  · rw [List.getElem?_append_right (not_lt.mp old), List.getElem?_map, Option.map_eq_some_iff]
      at found
    obtain ⟨event, handed, rfl⟩ := found
    exact .inr ⟨not_lt.mp old, by simp [handed]⟩

/-- Claims that take no event of a dispatch under way hand each event to one dispatch. -/
theorem HeldAlone.claim (held : HeldAlone w) {began : Time} {choices : OutboxChoices}
    (step : w.step settings (.claim began choices) = some w')
    (dispatches : w'.dispatches = w.dispatches ++
      (w.claim settings began choices).1.map fun event => ⟨event, began, .posting⟩)
    (free : ClaimsAlone settings ⟨w, .claim began choices, w'⟩) : HeldAlone w' := by
  have old : ∀ {k : Nat} {d : Dispatch}, w.dispatches[k]? = some d → d.underWay = true →
      d.event.id ∉ claimedIds settings w (.claim began choices) := fun found =>
    free _ (List.mem_of_getElem? found)
  constructor
  · intro d member underWay
    obtain ⟨k, found⟩ := List.mem_iff_getElem?.mp member
    rw [dispatches] at found
    rcases dispatch_of_claim found with before | ⟨_, new⟩
    · exact pending_kept step (held.pending d (List.mem_of_getElem? before) underWay)
        (old before underWay) (by simp [recordOf])
    · have claimed : d.event.id ∈ claimedIds settings w (.claim began choices) :=
        List.mem_of_getElem? new
      cases rowStep step d.event.id with
      | same _ unclaimed _ => exact absurd claimed unclaimed
      | announced _ _ _ _ unclaimed _ => exact absurd claimed unclaimed
      | recorded _ _ _ unclaimed => exact absurd claimed unclaimed
      | claimed _ _ _ due written _ =>
        rw [status_of_row written]
        exact congrArg some (isDueEvent_iff.mp due).1
  · intro i k d e foundD foundE underWayD underWayE same
    rw [dispatches] at foundD foundE
    rcases dispatch_of_claim foundD with beforeD | ⟨fromD, newD⟩
    · rcases dispatch_of_claim foundE with beforeE | ⟨_, newE⟩
      · exact held.alone i k d e beforeD beforeE underWayD underWayE same
      · exact absurd (List.mem_of_getElem? (same ▸ newE)) (old beforeD underWayD)
    · rcases dispatch_of_claim foundE with beforeE | ⟨fromE, newE⟩
      · exact absurd (List.mem_of_getElem? (same ▸ newD)) (old beforeE underWayE)
      · -- one claim hands out no event twice
        have inBounds := (List.getElem?_eq_some_iff.mp newD).1
        have place := (List.getElem?_inj inBounds (@claimedIds_nodup settings w
          (.claim began choices))).mp (newD.trans (same ▸ newE.symm))
        omega

/-- What is left of the dispatches when one of them has moved on. -/
theorem HeldAlone.set (held : HeldAlone w) {i : Nat} {d d' : Dispatch}
    (found : w.dispatches[i]? = some d) (dispatches : w'.dispatches = w.dispatches.set i d')
    (event : d'.event = d.event) (started : d'.underWay = true → d.underWay = true)
    (statuses : ∀ k e, w.dispatches[k]? = some e → e.underWay = true →
      (k = i → d'.underWay = true) → w'.status e.event.id = some .pending) : HeldAlone w' := by
  have from' : ∀ {k : Nat} {e : Dispatch}, w'.dispatches[k]? = some e → e.underWay = true →
      ∃ e₀, w.dispatches[k]? = some e₀ ∧ e₀.underWay = true ∧ e.event = e₀.event ∧
        (k = i → d'.underWay = true) := by
    intro k e foundE underWay
    rw [dispatches] at foundE
    by_cases here : i = k
    · subst here
      rw [List.getElem?_set_self (List.getElem?_eq_some_iff.mp found).1] at foundE
      obtain rfl := Option.some.inj foundE
      exact ⟨d, found, started underWay, event, fun _ => underWay⟩
    · rw [List.getElem?_set_ne here] at foundE
      exact ⟨e, foundE, underWay, rfl, fun same => absurd same.symm here⟩
  constructor
  · intro e member underWay
    obtain ⟨k, foundE⟩ := List.mem_iff_getElem?.mp member
    obtain ⟨e₀, found₀, underWay₀, same, moved⟩ := from' foundE underWay
    rw [same]
    exact statuses k e₀ found₀ underWay₀ moved
  · intro k l e f foundE foundF underWayE underWayF same
    obtain ⟨e₀, found₀, underWay₀, sameE, _⟩ := from' foundE underWayE
    obtain ⟨f₀, found₁, underWay₁, sameF, _⟩ := from' foundF underWayF
    exact held.alone k l e₀ f₀ found₀ found₁ underWay₀ underWay₁ (by rw [← sameE, same, sameF])

/-- The step lemma. -/
theorem HeldAlone.step (held : HeldAlone w) (step : w.step settings action = some w')
    (free : ClaimsAlone settings ⟨w, action, w'⟩) : HeldAlone w' := by
  have kept : recordOf settings w action = none → ∀ d ∈ w.dispatches, d.underWay = true →
      w'.status d.event.id = some .pending := by
    intro none d member underWay
    refine pending_kept step (held.pending d member underWay) (free d member underWay) ?_
    simp [none]
  cases WebhookWorld.step_cases step with
  | ticked _ => exact ⟨held.pending, held.alone⟩
  | job _ => exact ⟨kept rfl, held.alone⟩
  | claimed _ => exact held.claim step rfl free
  | moved found _ started _ records =>
    exact held.set found rfl rfl started fun k e foundE underWay _ =>
      kept records e (List.mem_of_getElem? foundE) underWay
  | @recorded _ i dispatch outcome began found unclaimed records =>
    refine held.set found rfl rfl (by simp [Dispatch.underWay, Dispatch.to]) ?_
    -- the other dispatches hold other events
    intro k e foundE underWay moved
    refine pending_kept step (held.pending e (List.mem_of_getElem? foundE) underWay)
      (by simp [unclaimed]) ?_
    intro dispatch' outcome' records' same
    rw [records] at records'
    cases records'
    have here := held.alone k i e dispatch foundE found underWay (underWay_of_recordOf records).2
      same.symm
    have runsOn := moved here
    simp [Dispatch.underWay, Dispatch.to] at runsOn

/-- Where dispatches hold their events alone, a step leaves what is settled alone. -/
theorem settled_step (step : w.step settings action = some w') (held : HeldAlone w) (id : EventId) :
    (w.status id = some .delivered → w'.status id = some .delivered ∧
        id ∉ claimedIds settings w action) ∧
      (w.status id = some .failed → w'.status id = some .failed) := by
  cases rowStep step id with
  | same kept unclaimed _ =>
    rw [status_of_same kept]
    exact ⟨fun delivered => ⟨delivered, unclaimed⟩, fun failed => failed⟩
  | announced absent _ _ _ _ _ => simp [WebhookWorld.status, absent]
  | claimed _ _ present due _ _ =>
    -- a claim takes pending events only
    rw [status_of_row present, (isDueEvent_iff.mp due).1]
    simp
  | recorded records named _ _ =>
    -- a record meets a pending event
    obtain ⟨member, underWay⟩ := underWay_of_recordOf records
    rw [← named, held.pending _ member underWay]
    simp

end

section

variable {settings : Settings} {history : WebhookHistory} {w : WebhookWorld}

theorem heldAlone_of_run (run : Run (webhookSystem settings) history w)
    (free : ∀ taken ∈ history, ClaimsAlone settings taken) : HeldAlone w := by
  induction run with
  | start initial =>
    obtain ⟨_, nothing⟩ := initial
    exact ⟨by simp [nothing], by simp [nothing]⟩
  | next _ step inductionHypothesis =>
    rw [List.forall_mem_cons] at free
    exact (inductionHypothesis free.2).step step free.1

/-- What was settled at some point of the run is still settled. -/
theorem settled_run (run : Run (webhookSystem settings) history w)
    (free : ∀ taken ∈ history, ClaimsAlone settings taken) (id : EventId) :
    ((∃ past ∈ history, past.before.status id = some .delivered) →
        w.status id = some .delivered) ∧
      ((∃ past ∈ history, past.before.status id = some .failed) → w.status id = some .failed) := by
  induction run with
  | start _ => simp
  | @next history w w' action run step inductionHypothesis =>
    rw [List.forall_mem_cons] at free
    -- the event was settled before this step, or is settled where the step starts
    have earlier := inductionHypothesis free.2
    have now := settled_step step (heldAlone_of_run run free.2) id
    constructor
    · rintro ⟨past, member, delivered⟩
      cases member with
      | head => exact (now.1 delivered).1
      | tail _ member => exact (now.1 (earlier.1 ⟨past, member, delivered⟩)).1
    · rintro ⟨past, member, failed⟩
      cases member with
      | head => exact now.2 failed
      | tail _ member => exact now.2 (earlier.2 ⟨past, member, failed⟩)

theorem staysSettled_of_alone (run : Run (webhookSystem settings) history w)
    (free : ∀ taken ∈ history, ClaimsAlone settings taken) : StaysSettled settings history := by
  induction run with
  | start _ => trivial
  | @next history w w' action run step inductionHypothesis =>
    have free' := (List.forall_mem_cons.mp free).2
    refine ⟨?_, inductionHypothesis free'⟩
    intro id
    have earlier := settled_run run free' id
    have now := settled_step step (heldAlone_of_run run free') id
    constructor
    · rintro ⟨past, member, delivered⟩
      cases member with
      | head => exact now.1 delivered
      | tail _ member => exact now.1 (earlier.1 ⟨past, member, delivered⟩)
    · intro failed pending
      have still := (settled_run (.next run step) free id).2 failed
      simp only at pending
      rw [pending] at still
      cases still

end

/-! ## A claim of an event that is held -/

section

variable {settings : Settings} {history : WebhookHistory} {w w' : WebhookWorld}

/-- Steps that claim nothing. -/
def Quiet (settings : Settings) (history : WebhookHistory) : Prop :=
  ∀ taken ∈ history, claimedIds settings taken.before taken.label = []

theorem Quiet.claimsAlone (quiet : Quiet settings history) :
    ∀ taken ∈ history, ClaimsAlone settings taken := by
  intro taken member dispatch _ _
  rw [quiet taken member]
  exact List.not_mem_nil

/-- A dispatch with an outcome can record it, whatever became of its event meanwhile. -/
theorem exists_record {i : Nat} {d : Dispatch} {error : Option String} {since : Time}
    {outcome : Outcome} {row : OutboxRow} (found : w.dispatches[i]? = some d)
    (stage : d.stage = .recording error since)
    (decided : d.event.outcome settings error 0 = .ok outcome)
    (present : w.row d.event.id = some row) :
    ∃ later w' at', Run ((webhookSystem settings).startingAt w) later w' ∧ Quiet settings later ∧
      w'.row d.event.id = some (outcome.set at' row) ∧
      ∀ k ≠ i, w'.dispatches[k]? = w.dispatches[k]? := by
  -- wait until the clock has passed the start of the record
  generalize late : max w.now since = now
  have tick : w.step settings (.tick now) = some { w with now } := if_pos (by simp [← late])
  have record : ({ w with now } : WebhookWorld).step settings (.record i now 0) =
      some (({ w with now } : WebhookWorld).record settings i d error now 0) := by
    simp [WebhookWorld.step, found, stage, ← late]
  refine ⟨_, _, now, .next (.next (.start rfl) tick) record, ?_, ?_, ?_⟩
  · simp [Quiet, claimedIds]
  · have written := @lookup_write now w.db.webhookOutbox d.event.id d.event.id outcome
    rw [if_pos rfl, show w.db.webhookOutbox.lookup d.event.id = some row from present] at written
    simpa [WebhookWorld.record, decided, WebhookWorld.row] using written
  · intro k other
    simp [WebhookWorld.record, decided, List.getElem?_set_ne other.symm]

/-- A dispatch that is under way can come to the outcome of a response. -/
theorem exists_outcome {i : Nat} {d : Dispatch} {status : Nat} {error : Option String}
    {outcome : Outcome} {row : OutboxRow} (found : w.dispatches[i]? = some d)
    (response : (PostResult.response status).error = some error)
    (stage : d.stage = .posting ∨ ∃ since, d.stage = .recording error since)
    (decided : d.event.outcome settings error 0 = .ok outcome)
    (present : w.row d.event.id = some row) :
    ∃ later w' at', Run ((webhookSystem settings).startingAt w) later w' ∧ Quiet settings later ∧
      w'.row d.event.id = some (outcome.set at' row) ∧
      ∀ k ≠ i, w'.dispatches[k]? = w.dispatches[k]? := by
  rcases stage with posting | ⟨since, recording⟩
  · have inBounds := (List.getElem?_eq_some_iff.mp found).1
    let posted : WebhookWorld :=
      { w with dispatches := w.dispatches.set i (d.to (.recording error w.now)) }
    have ends : w.step settings (.endPost i (.response status)) = some posted := by
      simp [WebhookWorld.step, found, posting, response, posted]
    have found' : posted.dispatches[i]? = some (d.to (.recording error w.now)) :=
      List.getElem?_set_self inBounds
    obtain ⟨later, w', at', run, quiet, written, others⟩ :=
      @exists_record settings posted i _ error w.now outcome row found' rfl decided present
    refine ⟨later ++ [⟨w, .endPost i (.response status), posted⟩], w', at',
      Run.append (.next (.start rfl) ends) run, ?_, written, ?_⟩
    · intro taken member
      cases List.mem_append.mp member with
      | inl member => exact quiet taken member
      | inr only =>
        rw [List.mem_singleton] at only
        rw [only]
        rfl
    · intro k other
      rw [others k other, List.getElem?_set_ne other.symm]
  · exact exists_record found recording decided present

/-- Up to 1025 attempts a failure is recorded, since the backoff does not overflow. -/
theorem exists_failure {event : OutboxEvent} (tried : 1 ≤ event.attempts)
    (most : settings.webhookMaxAttempts ≤ 1025) (text : String) :
    ∃ outcome, event.outcome settings (some text) 0 = .ok outcome ∧
      ∀ now row, (outcome.set now row).status ≠ .delivered := by
  by_cases spent : settings.webhookMaxAttempts ≤ event.attempts
  · exact ⟨.giveUp text, by simp [OutboxEvent.outcome, spent], by
      simp [Outcome.set, attemptFailedEvent]⟩
  · have noError : ∃ delay, backoffDelay event.attempts webhookBackoffBase webhookBackoffCap 0 =
        .ok delay := by
      rw [backoffDelay, if_neg (by omega), if_neg (by omega)]
      exact ⟨_, rfl⟩
    obtain ⟨delay, ok⟩ := noError
    exact ⟨.retry text delay, by simp [OutboxEvent.outcome, spent, ok], by
      simp [Outcome.set, attemptFailedEvent]⟩

/-- What is delivered where a run goes on is delivered where it ends, if it stays settled. -/
theorem delivered_of_stays {later : WebhookHistory} {id : EventId}
    (run : Run ((webhookSystem settings).startingAt w) later w')
    (delivered : w.status id = some .delivered)
    (stays : StaysSettled settings (later ++ history)) : w'.status id = some .delivered := by
  induction run with
  | start initial =>
    cases initial
    exact delivered
  | next _ _ inductionHypothesis =>
    exact ((stays.1 id).1 ⟨_, List.mem_cons_self, inductionHypothesis stays.2⟩).1

/-- Two dispatches of one event that are under way: one can deliver it, and the other then record
    a failure. -/
theorem breaks_of_two {i k : Nat} {d e : Dispatch} (apart : i ≠ k)
    (most : settings.webhookMaxAttempts ≤ 1025) (foundD : w.dispatches[i]? = some d)
    (foundE : w.dispatches[k]? = some e) (same : d.event.id = e.event.id)
    (delivers : d.stage = .posting ∨ ∃ since, d.stage = .recording none since)
    (fails : e.stage = .posting ∨ ∃ text since, e.stage = .recording (some text) since)
    (tried : 1 ≤ e.event.attempts) {row : OutboxRow} (present : w.row d.event.id = some row) :
    ∃ later w', Run ((webhookSystem settings).startingAt w) later w' ∧ Quiet settings later ∧
      ¬ StaysSettled settings (later ++ history) := by
  obtain ⟨first, w₁, at₁, run₁, quiet₁, written₁, others⟩ :=
    @exists_outcome settings w i d 200 none .delivered row foundD rfl delivers rfl present
  have foundE₁ : w₁.dispatches[k]? = some e := by rw [others k apart.symm, foundE]
  -- the error of the other dispatch, or the one that a POST can still come to
  obtain ⟨text, stage⟩ : ∃ text, (e.stage = .posting ∧ text = "HTTP 500") ∨
      ∃ since, e.stage = .recording (some text) since := by
    rcases fails with posting | ⟨text, since, recording⟩
    · exact ⟨_, .inl ⟨posting, rfl⟩⟩
    · exact ⟨text, .inr ⟨since, recording⟩⟩
  obtain ⟨outcome, decided, undelivered⟩ := exists_failure tried most text
  obtain ⟨second, w₂, at₂, run₂, quiet₂, written₂⟩ : ∃ later w' at',
      Run ((webhookSystem settings).startingAt w₁) later w' ∧ Quiet settings later ∧
        w'.row e.event.id = some (outcome.set at' (Outcome.set at₁ row .delivered)) := by
    rw [same] at written₁
    rcases stage with ⟨posting, rfl⟩ | ⟨since, recording⟩
    · obtain ⟨later, w', at', run, quiet, written, _⟩ :=
        @exists_outcome settings w₁ k e 500 _ outcome _ foundE₁ rfl (.inl posting) decided written₁
      exact ⟨later, w', at', run, quiet, written⟩
    · obtain ⟨later, w', at', run, quiet, written, _⟩ :=
        @exists_record settings w₁ k e _ since outcome _ foundE₁ recording decided written₁
      exact ⟨later, w', at', run, quiet, written⟩
  refine ⟨second ++ first, w₂, Run.append run₁ run₂, ?_, ?_⟩
  · intro taken member
    cases List.mem_append.mp member with
    | inl member => exact quiet₂ taken member
    | inr member => exact quiet₁ taken member
  · intro stays
    rw [List.append_assoc] at stays
    have delivered := delivered_of_stays run₂ (status_of_row written₁) stays
    rw [same, status_of_row written₂] at delivered
    exact undelivered _ _ (Option.some.inj delivered)

/-- A claim hands its event to a new dispatch. -/
theorem exists_dispatch_of_claim {began : Time} {choices : OutboxChoices} {id : EventId}
    (claimed : id ∈ claimedIds settings w (.claim began choices)) :
    ∃ (k : Nat) (e : Dispatch), w.dispatches.length ≤ k ∧ (w.dispatches ++
        (w.claim settings began choices).1.map fun event =>
          (⟨event, began, .posting⟩ : Dispatch))[k]? = some e ∧
      e.event.id = id ∧ e.stage = .posting := by
  obtain ⟨event, handed, named⟩ := List.mem_map.mp claimed
  obtain ⟨n, found⟩ := List.mem_iff_getElem?.mp handed
  refine ⟨w.dispatches.length + n, ⟨event, began, .posting⟩, Nat.le_add_right _ _, ?_, named, rfl⟩
  rw [List.getElem?_append_right (Nat.le_add_right _ _)]
  simp [found]

/-- After a claim of an event that a dispatch still holds, the two of them can undo a
    delivery. -/
theorem breaks_of_claim {action : WebhookAction} (run : Run (webhookSystem settings) history w)
    (step : (webhookSystem settings).step w action w')
    (most : settings.webhookMaxAttempts ≤ 1025)
    (held : ¬ ClaimsAlone settings ⟨w, action, w'⟩) :
    ∃ later w'', Run ((webhookSystem settings).startingAt w') later w'' ∧ Quiet settings later ∧
      ¬ StaysSettled settings (later ++ ⟨w, action, w'⟩ :: history) := by
  simp only [ClaimsAlone, not_forall, not_not] at held
  obtain ⟨d, member, underWay, claimed⟩ := held
  obtain ⟨i, foundD⟩ := List.mem_iff_getElem?.mp member
  have sound := outboxSound_of_run (.next run step)
  cases WebhookWorld.step_cases step with
  | ticked _ => cases claimed
  | job _ => cases claimed
  | moved _ _ _ unclaimed _ =>
    rw [unclaimed] at claimed
    cases claimed
  | recorded _ unclaimed _ =>
    rw [unclaimed] at claimed
    cases claimed
  | @claimed began choices _ =>
    obtain ⟨k, e, new, foundE, named, posting⟩ := exists_dispatch_of_claim claimed
    have inBounds := (List.getElem?_eq_some_iff.mp foundD).1
    have foundD' : (w.dispatches ++ (w.claim settings began choices).1.map fun event =>
        (⟨event, began, .posting⟩ : Dispatch))[i]? = some d := by
      rw [List.getElem?_append_left inBounds, foundD]
    have apart : i ≠ k := by omega
    obtain ⟨row, presentD, handedD⟩ :=
      sound.handed _ (mem_handed (List.mem_of_getElem? foundD'))
    obtain ⟨_, presentE, handedE⟩ := sound.handed _ (mem_handed (List.mem_of_getElem? foundE))
    -- a dispatch that has its response delivers, and otherwise the new one does
    cases stage : d.stage with
    | posting =>
      exact breaks_of_two apart most foundD' foundE named.symm (.inl stage) (.inl posting)
        handedE.tried presentD
    | recording error since =>
      cases error with
      | none =>
        exact breaks_of_two apart most foundD' foundE named.symm (.inr ⟨since, stage⟩)
          (.inl posting) handedE.tried presentD
      | some text =>
        exact breaks_of_two apart.symm most foundE foundD' named (.inl posting)
          (.inr ⟨text, since, stage⟩) handedD.tried presentE
    | recorded => simp [Dispatch.underWay, stage] at underWay
    | abandoned => simp [Dispatch.underWay, stage] at underWay

end

/-- Where no event is claimed while a dispatch of it is under way, settled events stay settled;
    and after any claim of an event that a dispatch still holds, its two dispatches can undo a
    delivery. -/
theorem staysSettled_alone {settings : Settings} {history : WebhookHistory} {w : WebhookWorld}
    (run : Run (webhookSystem settings) history w) :
    ((∀ taken ∈ history, ClaimsAlone settings taken) → StaysSettled settings history) ∧
      (settings.webhookMaxAttempts ≤ 1025 → ∀ taken earlier, history = taken :: earlier →
        ¬ ClaimsAlone settings taken →
          ∃ later w', Run ((webhookSystem settings).startingAt w) later w' ∧
            (∀ taken ∈ later, ClaimsAlone settings taken) ∧
            ¬ StaysSettled settings (later ++ history)) := by
  refine ⟨staysSettled_of_alone run, ?_⟩
  intro most taken earlier newest held
  subst newest
  cases run with
  | next run step =>
    obtain ⟨later, w', goesOn, quiet, breaks⟩ := breaks_of_claim run step most held
    exact ⟨later, w', goesOn, quiet.claimsAlone, breaks⟩

/-! ## Two dispatches of one event -/

/-- The lease of the first dispatch runs out during its POST; the second delivers the event,
    and the first records its own timeout. -/
def overtaken : WebhookHistory × WebhookWorld :=
  webhookRun .default (announceEvent ++
    [.claim 0 .alone, .tick 11, .claim 11 .alone, .endPost 1 (.response 200), .record 1 11 0,
      .endPost 0 (.httpError "ReadTimeout" ""), .record 0 11 0])

theorem not_staysSettled_of_head {settings : Settings} {history : WebhookHistory} {id : EventId}
    (reverts : (history.head?.any fun taken => taken.before.status id = some .delivered ∧
      taken.after.status id = some .pending) = true) : ¬ StaysSettled settings history := by
  intro stays
  cases history with
  | nil => cases reverts
  | cons taken earlier =>
    simp only [List.head?_cons, Option.any_some, decide_eq_true_eq] at reverts
    have still := ((stays.1 id).1 ⟨taken, List.mem_cons_self, reverts.1⟩).1
    rw [reverts.2] at still
    cases still

theorem staysSettled_overtaken :
    Run (webhookSystem .default) overtaken.1 overtaken.2 ∧ ¬ StaysSettled .default overtaken.1 :=
  ⟨run_webhookRun .default _, @not_staysSettled_of_head _ _ 7 (by decide +kernel)⟩

/-- The second dispatch of an event delivers it after the first recorded a failure. -/
def retried : WebhookHistory × WebhookWorld :=
  webhookRun .default (announceEvent ++
    [.claim 0 .alone, .endPost 0 (.response 503), .record 0 0 0, .tick 11, .claim 11 .alone,
      .endPost 1 (.response 200), .record 1 11 0])

theorem staysSettled_alone_retried :
    retried.2.status 7 = some .delivered ∧ StaysSettled .default retried.1 :=
  ⟨by decide +kernel, (staysSettled_alone (run_webhookRun .default _)).1 (by decide +kernel)⟩

end NotifyQueue
