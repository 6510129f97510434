import NotifyQueue.Verified.WebhookSteps

/-! # How often an event is claimed

Only claims count attempts, and only a dispatch that lives to record a failure looks at the
cap.  So the cap holds as long as an event that has used up its attempts is settled before it
is due again, and a claim that takes such an event breaks it (`attemptsCapped`).  The event is
due again once the lease of its last claim has run out without a record, or the delay of a retry
that an earlier holder recorded after that claim: `settlesSpent_of_leases` rules these two
out. -/

namespace NotifyQueue

open Tables Runs

/-- How many steps claimed the event. -/
def claims (settings : Settings) (history : WebhookHistory) (id : EventId) : Nat :=
  history.countP fun taken => id ∈ claimedIds settings taken.before taken.label

/-- No event is claimed more often than the settings allow, and none again after the last
    claim that they allow. -/
structure AttemptsCapped (settings : Settings) (history : WebhookHistory) : Prop where
  atMost : ∀ id, (claims settings history id : Int) ≤ settings.webhookMaxAttempts
  notAgain : ∀ later earlier, history = later ++ earlier → ∀ id,
    (claims settings earlier id : Int) = settings.webhookMaxAttempts → claims settings later id = 0

/-- No event that has used up its attempts is due when a claim runs. -/
def SettlesSpent (settings : Settings) (taken : Taken WebhookWorld WebhookAction) : Prop :=
  match taken.label with
  | .claim began _ => ∀ row ∈ taken.before.db.webhookOutbox.rows,
      settings.webhookMaxAttempts ≤ row.attempts → isDueEvent began row = false
  | _ => True

instance {settings : Settings} {taken : Taken WebhookWorld WebhookAction} :
    Decidable (SettlesSpent settings taken) := by
  unfold SettlesSpent
  split <;> infer_instance

section

variable {settings : Settings} {history : WebhookHistory} {w w' : WebhookWorld}
  {action : WebhookAction} {id : EventId}

theorem claims_cons :
    claims settings (⟨w, action, w'⟩ :: history) id =
      claims settings history id + if id ∈ claimedIds settings w action then 1 else 0 := by
  simp [claims, List.countP_cons]

theorem claims_append (later earlier : WebhookHistory) :
    claims settings (later ++ earlier) id = claims settings later id + claims settings earlier id := by
  simp [claims]

@[simp] theorem Outcome.attempts_set (outcome : Outcome) (now : Time) (row : OutboxRow) :
    (outcome.set now row).attempts = row.attempts := by
  cases outcome <;> rfl

/-- The counter of an event counts its claims. -/
structure CountsClaims (settings : Settings) (history : WebhookHistory) (w : WebhookWorld)
    (id : EventId) : Prop where
  counted : ∀ row, w.row id = some row → row.attempts = claims settings history id
  absent : w.row id = none → claims settings history id = 0

theorem CountsClaims.step (counts : CountsClaims settings history w id)
    (step : w.step settings action = some w') :
    CountsClaims settings (⟨w, action, w'⟩ :: history) w' id := by
  constructor
  · intro row' present'
    rw [claims_cons]
    -- a claim raises the counter of the row and the count of the history; no other step moves either
    cases rowStep step id with
    | same kept unclaimed _ =>
      rw [kept] at present'
      simp [unclaimed, counts.counted row' present']
    | announced absent present _ untried unclaimed _ =>
      obtain rfl : _ = row' := Option.some.inj (present.symm.trans present')
      simp [unclaimed, untried, counts.absent absent]
    | claimed _ member present _ written _ =>
      rw [written] at present'
      obtain rfl := Option.some.inj present'
      simp [member, claimedEvent, counts.counted _ present]
    | recorded _ _ written unclaimed =>
      rw [written] at present'
      obtain ⟨row, present, rfl⟩ := Option.map_eq_some_iff.mp present'
      simp [unclaimed, counts.counted row present]
  · intro absent'
    rw [claims_cons]
    cases rowStep step id with
    | same kept unclaimed _ =>
      rw [kept] at absent'
      simp [unclaimed, counts.absent absent']
    | announced _ present _ _ _ _ =>
      rw [present] at absent'
      cases absent'
    | claimed _ _ _ _ written _ =>
      rw [written] at absent'
      cases absent'
    | recorded _ _ written unclaimed =>
      rw [written] at absent'
      simp [unclaimed, counts.absent (Option.map_eq_none_iff.mp absent')]

theorem row_of_start (initial : (webhookSystem settings).init w) : w.row id = none := by
  have empty : w.db = .empty := initial.1
  rw [WebhookWorld.row, empty]
  rfl

theorem countsClaims (run : Run (webhookSystem settings) history w) (id : EventId) :
    CountsClaims settings history w id := by
  induction run with
  | start initial =>
    constructor
    · intro row present
      rw [row_of_start initial] at present
      cases present
    · intro _
      rfl
  | next _ step inductionHypothesis => exact inductionHypothesis.step step

/-! ## The cap -/

theorem claims_le (room : 0 ≤ settings.webhookMaxAttempts)
    (run : Run (webhookSystem settings) history w)
    (settles : Along (fun _ taken => SettlesSpent settings taken) history) (id : EventId) :
    (claims settings history id : Int) ≤ settings.webhookMaxAttempts := by
  induction run with
  | start _ => exact room
  | @next history w w' action run step inductionHypothesis =>
    have before := inductionHypothesis settles.2
    rw [claims_cons]
    by_cases claimed : id ∈ claimedIds settings w action
    · rw [if_pos claimed]
      cases rowStep step id with
      | same _ unclaimed _ => exact absurd claimed unclaimed
      | announced _ _ _ _ unclaimed _ => exact absurd claimed unclaimed
      | recorded _ _ _ unclaimed => exact absurd claimed unclaimed
      | @claimed row began choices isClaim _ present due _ _ =>
        -- an event that is due still has an attempt left
        have unspent : ¬ settings.webhookMaxAttempts ≤ row.attempts := by
          intro spent
          have condition := settles.1
          simp only [SettlesSpent, isClaim] at condition
          rw [condition row (Table.mem_of_lookup present) spent] at due
          cases due
        have counter := (countsClaims run id).counted _ present
        push_cast
        omega
    · rw [if_neg claimed]
      exact before

/-- The events that a claim could take no later than a given one. -/
def dueAhead (began : Time) (choices : OutboxChoices) (row : OutboxRow) (outbox : Outbox) :
    List OutboxRow :=
  outbox.select fun other => isDueEvent began other && !choices.locked other.id &&
    decide (nextAttemptOrder other row)

/-- A claim takes every due event that it does not find locked, as far as its batch goes. -/
theorem mem_claimedIds_of_room {began : Time} {choices : OutboxChoices} {row : OutboxRow}
    (member : row ∈ w.db.webhookOutbox.rows) (due : isDueEvent began row = true)
    (unlocked : choices.locked row.id = false)
    (room : (dueAhead began choices row w.db.webhookOutbox).length ≤ settings.webhookBatchSize) :
    row.id ∈ claimedIds settings w (.claim began choices) := by
  obtain ⟨rest, takes⟩ :=
    dueEvents_takes began settings.webhookBatchSize choices w.db.webhookOutbox
  have free : row ∈ w.db.webhookOutbox.select fun other =>
      isDueEvent began other && !choices.locked other.id := by
    refine List.mem_filter.mpr ⟨member, ?_⟩
    simp [due, unlocked]
  have taken : row ∈ dueEvents began settings.webhookBatchSize choices w.db.webhookOutbox := by
    apply takes.mem_of_room free
    simpa [dueAhead, Table.select, List.filter_filter, Bool.and_comm] using room
  exact (claimedIds_perm began choices).mem_iff.mpr (List.mem_map_of_mem taken)

/-- In a run in which no claim meets a spent event that is due, the cap holds; and every claim
    that meets one unlocked, within its batch, breaks it. -/
theorem attemptsCapped (room : 0 ≤ settings.webhookMaxAttempts)
    (run : Run (webhookSystem settings) history w) :
    (Along (fun _ taken => SettlesSpent settings taken) history → AttemptsCapped settings history) ∧
      ∀ began ≤ w.now, ∀ choices, ∀ row ∈ w.db.webhookOutbox.rows,
        settings.webhookMaxAttempts ≤ row.attempts → isDueEvent began row = true →
          choices.locked row.id = false →
            (dueAhead began choices row w.db.webhookOutbox).length ≤ settings.webhookBatchSize →
              ∃ w', w.step settings (.claim began choices) = some w' ∧
                ¬ AttemptsCapped settings (⟨w, .claim began choices, w'⟩ :: history) := by
  constructor
  · intro settles
    have atMost := claims_le room run settles
    refine ⟨atMost, ?_⟩
    intro later earlier split id used
    have bound := atMost id
    rw [split, claims_append] at bound
    push_cast at bound
    omega
  · intro began past choices row member spent due unlocked batch
    refine ⟨_, if_pos past, ?_⟩
    intro capped
    have claimed := mem_claimedIds_of_room member due unlocked batch
    have bound := capped.atMost row.id
    -- the counter stands at the cap already, and the claim adds one
    have counter := (countsClaims run row.id).counted row (Table.lookup_of_mem member)
    rw [claims_cons, if_pos claimed] at bound
    push_cast at bound
    omega

end

/-! ## When spent events are settled in time -/

/-- No retry is recorded for an event that has used up its attempts, and no claim runs after the
    lease of a last claim whose dispatch has not recorded anything. -/
def KeepsLastLease (settings : Settings) (taken : Taken WebhookWorld WebhookAction) : Prop :=
  (match recordOf settings taken.before taken.label with
  | some (dispatch, .retry _ _) => ∀ row, taken.before.row dispatch.event.id = some row →
      row.attempts < settings.webhookMaxAttempts
  | _ => True) ∧
  match taken.label with
  | .claim began _ => ∀ dispatch ∈ taken.before.dispatches, dispatch.stage ≠ .recorded →
      settings.webhookMaxAttempts ≤ dispatch.event.attempts →
        began < dispatch.claimedAt + settings.webhookLeaseSeconds
  | _ => True

/-- A spent event that is still pending is held by the dispatch of its last claim. -/
def SpentHeld (settings : Settings) (w : WebhookWorld) : Prop :=
  ∀ id row, w.row id = some row → row.status = .pending →
    settings.webhookMaxAttempts ≤ row.attempts →
      ∃ dispatch ∈ w.dispatches, dispatch.event.id = id ∧ dispatch.stage ≠ .recorded ∧
        settings.webhookMaxAttempts ≤ dispatch.event.attempts ∧
        row.nextAttemptAt = dispatch.claimedAt + settings.webhookLeaseSeconds

section

variable {settings : Settings} {history : WebhookHistory} {w w' : WebhookWorld}
  {action : WebhookAction}

theorem SpentHeld.step (held : SpentHeld settings w) (room : 1 ≤ settings.webhookMaxAttempts)
    (step : w.step settings action = some w') (keeps : KeepsLastLease settings ⟨w, action, w'⟩) :
    SpentHeld settings w' := by
  intro id row' present' pending spent
  cases rowStep step id with
  | same kept _ other =>
    rw [kept] at present'
    obtain ⟨dispatch, member, named, unrecorded, last, lease⟩ := held id row' present' pending spent
    -- the dispatch that held the event goes on, or this step records its outcome
    cases dispatch_kept step member unrecorded with
    | inl goesOn =>
      obtain ⟨dispatch', member', event, claimedAt, unrecorded'⟩ := goesOn
      exact ⟨dispatch', member', by rw [event, named], unrecorded', by rw [event]; exact last,
        by rw [claimedAt]; exact lease⟩
    | inr recorded =>
      obtain ⟨outcome, records⟩ := recorded
      exact absurd named (other dispatch outcome records)
  | announced _ present _ untried _ _ =>
    obtain rfl : _ = row' := Option.some.inj (present.symm.trans present')
    omega
  | claimed _ _ present _ written handed =>
    rw [written] at present'
    obtain rfl := Option.some.inj present'
    have key := Table.pk_of_lookup present
    -- the claim that spends the last attempt holds the event
    exact ⟨_, handed, key, by simp, spent, rfl⟩
  | @recorded dispatch outcome began records named written _ =>
    rw [written] at present'
    obtain ⟨row, present, rfl⟩ := Option.map_eq_some_iff.mp present'
    rw [Outcome.attempts_set] at spent
    -- only a retry leaves the event pending, and a spent event gets none
    cases outcome with
    | delivered => cases pending
    | giveUp error => cases pending
    | retry error retryDelay =>
      have unspent := keeps.1
      simp only [records] at unspent
      have below := unspent row (named ▸ present)
      omega

theorem SpentHeld.settles (held : SpentHeld settings w)
    (keeps : KeepsLastLease settings ⟨w, action, w'⟩) : SettlesSpent settings ⟨w, action, w'⟩ := by
  cases action with
  | claim began choices =>
    intro row member spent
    by_contra due
    rw [Bool.not_eq_false, isDueEvent_iff] at due
    obtain ⟨dispatch, handed, _, unrecorded, last, lease⟩ :=
      held row.id row (Table.lookup_of_mem member) due.1 spent
    -- the event would be due, so the lease of its last claim would be over
    have early := keeps.2 dispatch handed unrecorded last
    rw [← lease] at early
    exact absurd due.2 (not_le.mpr early)
  | _ => trivial

/-- Dispatches that record the outcome of last claims within their lease, and earlier holders
    that do not retry after it, leave no spent event to a claim. -/
theorem settlesSpent_of_leases (room : 1 ≤ settings.webhookMaxAttempts)
    (run : Run (webhookSystem settings) history w)
    (keeps : Along (fun _ taken => KeepsLastLease settings taken) history) :
    Along (fun _ taken => SettlesSpent settings taken) history := by
  have whole : SpentHeld settings w ∧ Along (fun _ taken => SettlesSpent settings taken) history := by
    induction run with
    | start initial =>
      refine ⟨?_, trivial⟩
      intro id row present
      rw [row_of_start initial] at present
      cases present
    | next _ step inductionHypothesis =>
      obtain ⟨held, settles⟩ := inductionHypothesis keeps.2
      exact ⟨held.step room step keeps.1, held.settles keeps.1, settles⟩
  exact whole.2

end

/-! ## A crash loop -/

def twoAttempts : Settings := { Settings.default with webhookMaxAttempts := 2 }

/-- Every dispatcher dies after its claim. -/
def crashLoop : WebhookHistory × WebhookWorld :=
  webhookRun twoAttempts (announceEvent ++
    [.claim 0 .alone, .abandon 0, .tick 10, .claim 10 .alone, .abandon 1, .tick 20,
      .claim 20 .alone, .abandon 2])

theorem attemptsCapped_crashLoop :
    Run (webhookSystem twoAttempts) crashLoop.1 crashLoop.2 ∧
      ¬ AttemptsCapped twoAttempts crashLoop.1 := by
  refine ⟨run_webhookRun twoAttempts _, ?_⟩
  intro capped
  have bound := capped.atMost 7
  have three : claims twoAttempts crashLoop.1 7 = 3 := by decide +kernel
  rw [three] at bound
  exact absurd bound (by decide)

/-- Both dispatches live to record a failure. -/
def givenUp : WebhookHistory × WebhookWorld :=
  webhookRun twoAttempts (announceEvent ++
    [.claim 0 .alone, .endPost 0 (.response 500), .record 0 0 0, .tick 10, .claim 10 .alone,
      .endPost 1 (.response 500), .record 1 10 0, .tick 20, .claim 20 .alone])

theorem attemptsCapped_givenUp :
    claims twoAttempts givenUp.1 7 = 2 ∧ givenUp.2.status 7 = some .failed ∧
      AttemptsCapped twoAttempts givenUp.1 :=
  ⟨by decide +kernel, by decide +kernel,
    (attemptsCapped (by decide) (run_webhookRun twoAttempts _)).1 (by decide +kernel)⟩

end NotifyQueue
