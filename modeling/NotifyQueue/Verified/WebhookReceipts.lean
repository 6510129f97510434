import NotifyQueue.Api.Mock
import NotifyQueue.Verified.WebhookRows

/-! # What the receiver has

The receiver keeps the first request of an event and answers every later one as a duplicate
(`ReceiverSound`).  A dispatch that records a delivery was answered by the receiver, so what the
outbox calls delivered, the receiver has; requests and answers may be lost, late or repeated. -/

namespace NotifyQueue

open Json (Member Value)
open Runs Tables

/-! ## One request -/

/-- The event that a request names. -/
def eventId? (payload : List Member) : Option EventId := (field? payload "event_id").bind uuid?

/-- The request that brought the event. -/
def WebhookRequest.brought (request : WebhookRequest) (id : EventId) : Bool :=
  request.answer = .received false && eventId? request.payload = some id

/-- What the receiver does with a request: it refuses it, keeps its event or knows it already. -/
inductive Received (id : Nat) (now : Time) (payload : List Member) (receipts : Receipts) :
    MockAnswer × Receipts → Prop where
  | refused {answer : MockAnswer} (unreceived : ∀ duplicate, answer ≠ .received duplicate) :
      Received id now payload receipts (answer, receipts)
  | first {receipt : Receipt} {receipts' : Receipts} (reads : receiptOf id now payload = some receipt)
      (inserted : receipts.insert receipt = .ok receipts') :
      Received id now payload receipts (.received false, receipts')
  | again {receipt known : Receipt} (reads : receiptOf id now payload = some receipt)
      (member : known ∈ receipts.rows) (same : known.eventId = receipt.eventId) :
      Received id now payload receipts (.received true, receipts)

theorem receiveWebhook_cases (failureRate draw : ℚ) (id : Nat) (now : Time) (payload : List Member)
    (receipts : Receipts) :
    Received id now payload receipts (receiveWebhook failureRate draw id now payload receipts) := by
  unfold receiveWebhook
  split
  · exact .refused (by simp)
  · split
    · exact .refused (by simp)
    · cases reads : receiptOf id now payload with
      | none =>
        simp only [recordReceipt, reads]
        exact .refused (by simp)
      | some receipt =>
        cases inserted : receipts.insert receipt with
        | ok receipts' =>
          simp only [recordReceipt, reads, inserted]
          exact .first reads inserted
        | error violation =>
          cases Table.conflict_of_insert inserted with
          | inl taken =>
            obtain ⟨rfl, _⟩ := taken
            simp only [recordReceipt, reads, inserted]
            exact .refused (by simp)
          | inr taken =>
            obtain ⟨rfl, known, member, value, key, key'⟩ := taken
            simp only [recordReceipt, reads, inserted]
            refine .again reads member ?_
            have same := key'.trans key.symm
            simpa [Receipt.key] using same

theorem of_receiptOf {id : Nat} {now : Time} {payload : List Member} {receipt : Receipt}
    (reads : receiptOf id now payload = some receipt) :
    receipt.id = id ∧ receipt.payload = payload ∧ receipt.receivedAt = now ∧
      eventId? payload = some receipt.eventId := by
  simp only [receiptOf, Option.bind_eq_bind, Option.bind_eq_some_iff] at reads
  obtain ⟨eventId, named, jobId, _, rest⟩ := reads
  split at rest
  · obtain rfl := Option.some.inj rest
    exact ⟨rfl, rfl, rfl, Option.bind_eq_some_iff.mpr named⟩
  · cases rest

/-- The receiver reads from an event what the outbox says of it. -/
theorem receiptOf_members (isoformat : Time → String) (payload : WebhookPayload) (id : Nat)
    (now : Time) :
    receiptOf id now (payload.members isoformat) =
      some ⟨id, payload.eventId, payload.jobId, payload.event.text, payload.members isoformat, now⟩ := by
  simp [receiptOf, field?, WebhookPayload.members, uuid?, Texts.digits?_repr, List.lookup_cons]

theorem eventId_members (isoformat : Time → String) (payload : WebhookPayload) :
    eventId? (payload.members isoformat) = some payload.eventId := by
  simp [eventId?, field?, WebhookPayload.members, uuid?, Texts.digits?_repr]

/-! ## The steps -/

section

variable {settings : Settings} {w w' : WebhookWorld} {action : WebhookAction} {id : EventId}

theorem WebhookWorld.now_le (step : w.step settings action = some w') : w.now ≤ w'.now := by
  cases WebhookWorld.step_cases step with
  | ticked forward => exact forward
  | _ => exact le_refl _

/-- What a dispatch is to record, its POST ended with. -/
theorem recording_origin (step : w.step settings action = some w') {dispatch' : Dispatch}
    (member : dispatch' ∈ w'.dispatches) {error : Option String} {since : Time}
    (stage : dispatch'.stage = .recording error since) :
    dispatch' ∈ w.dispatches ∨ ∃ i dispatch result, action = .endPost i result ∧
      w.dispatches[i]? = some dispatch ∧ dispatch'.event = dispatch.event ∧
      result.error = some error ∧ since = w.now := by
  cases action with
  | endPost i result =>
    simp only [WebhookWorld.step] at step
    split at step
    · next dispatch found =>
      simp only [Option.ite_none_right_eq_some, Option.some.injEq] at step
      obtain ⟨_, rfl⟩ := step
      cases List.mem_or_eq_of_mem_set member with
      | inl old => exact .inl old
      | inr new =>
        subst new
        simp only [Dispatch.to] at stage
        split at stage
        · next ended =>
          cases stage
          exact .inr ⟨i, dispatch, result, rfl, found, rfl, ended, rfl⟩
        · cases stage
    · cases step
  | tick later =>
    simp only [WebhookWorld.step, Option.ite_none_right_eq_some, Option.some.injEq] at step
    obtain ⟨_, rfl⟩ := step
    exact .inl member
  | job op began =>
    simp only [WebhookWorld.step, Option.ite_none_right_eq_some, Option.some.injEq] at step
    obtain ⟨_, rfl⟩ := step
    exact .inl member
  | claim began choices =>
    simp only [WebhookWorld.step, Option.ite_none_right_eq_some, Option.some.injEq] at step
    obtain ⟨_, rfl⟩ := step
    cases List.mem_append.mp member with
    | inl old => exact .inl old
    | inr new =>
      obtain ⟨event, _, rfl⟩ := List.mem_map.mp new
      cases stage
  | record i began draw =>
    simp only [WebhookWorld.step] at step
    split at step
    · next dispatch found =>
      split at step
      · simp only [Option.ite_none_right_eq_some, Option.some.injEq] at step
        obtain ⟨_, rfl⟩ := step
        simp only [WebhookWorld.record] at member
        split at member
        · cases List.mem_or_eq_of_mem_set member with
          | inl old => exact .inl old
          | inr new =>
            subst new
            cases stage
        · cases List.mem_or_eq_of_mem_set member with
          | inl old => exact .inl old
          | inr new =>
            subst new
            cases stage
      · cases step
    · cases step
  | abandon i =>
    simp only [WebhookWorld.step] at step
    split at step
    · next dispatch found =>
      simp only [Option.ite_none_left_eq_some, Option.some.injEq] at step
      obtain ⟨_, rfl⟩ := step
      cases List.mem_or_eq_of_mem_set member with
      | inl old => exact .inl old
      | inr new =>
        subst new
        cases stage
    · cases step

/-- A delivery is recorded by a dispatch whose POST succeeded before. -/
theorem delivered_origin (step : w.step settings action = some w') {row : OutboxRow}
    (present : w'.row id = some row) (delivered : row.status = .delivered) :
    w.row id = some row ∨ ∃ dispatch ∈ w.dispatches, dispatch.event.id = id ∧ ∃ since began,
      dispatch.stage = .recording none since ∧ since ≤ began ∧ row.deliveredAt = some began := by
  cases row_origin step present with
  | kept before => exact .inl before
  | enqueued _ => cases delivered
  | claimed _ pending =>
    simp only [claimedEvent, pending] at delivered
    cases delivered
  | @recorded before dispatch outcome _ found named records =>
    cases action with
    | record i began draw =>
      obtain ⟨member, error, since, draw', stage, decided⟩ := of_recordOf records
      -- the time of the record is the one that its transaction carries
      simp only [WebhookWorld.step] at step
      split at step
      · next dispatch' found' =>
        have same : dispatch' = dispatch := by
          simp only [recordOf, found'] at records
          split at records
          · obtain ⟨_, _, same⟩ := Option.map_eq_some_iff.mp records
            exact congrArg Prod.fst same
          · cases records
        subst same
        rw [stage] at step
        simp only [Option.ite_none_right_eq_some, Option.some.injEq] at step
        obtain ⟨⟨since_le, _⟩, rfl⟩ := step
        rcases outcome_cases decided with ⟨rfl, rfl⟩ | ⟨text, _, ⟨retryDelay, rfl⟩ | ⟨rfl, _⟩⟩
        · refine .inr ⟨dispatch', member, named, since, began, stage, since_le, ?_⟩
          have written : (w.record settings i dispatch' none began draw).row id =
              some (deliveredEvent began before) := by
            simp only [WebhookWorld.row] at found
            simp [WebhookWorld.record, OutboxEvent.outcome, WebhookWorld.row, lookup_write, named,
              found, Outcome.set]
          rw [written] at present
          exact congrArg OutboxRow.deliveredAt (Option.some.inj present).symm
        · cases delivered
        · cases delivered
      · cases step
    | _ => cases records

end

/-! ## The invariants -/

section

variable {settings : Settings} {failureRate : ℚ} {mockUrl : String} {isoformat : Time → String}
  {history : DeliveryHistory} {d d' : DeliveryWorld}

/-- A dispatch sends its event, and once. -/
def DeliveryWorld.Sends (d : DeliveryWorld) (isoformat : Time → String)
    (request : WebhookRequest) : Prop :=
  ∀ i, request.sender = some i → (∃ event, d.world.handed[i]? = some event ∧
    request.payload = event.payload.members isoformat) ∧ ∀ other ∈ d.requests, other.sender ≠ some i

/-- The steps: the dispatchers' own, and a request that the receiver handles. -/
inductive DeliveryStep (settings : Settings) (failureRate : ℚ) (mockUrl : String)
    (isoformat : Time → String) (d : DeliveryWorld) : DeliveryAction → DeliveryWorld → Prop where
  | dispatcher {action : WebhookAction} {world : WebhookWorld} (allowed : d.allows mockUrl action = true)
      (step : d.world.step settings action = some world) :
      DeliveryStep settings failureRate mockUrl isoformat d (.dispatcher action) { d with world }
  | handled {action : DeliveryAction} {request : WebhookRequest} {id : Nat} {receipts : Receipts}
      (sent : d.Sends isoformat request)
      (received : Received id d.world.now request.payload d.receipts (request.answer, receipts)) :
      DeliveryStep settings failureRate mockUrl isoformat d action
        { d with receipts, requests := d.requests ++ [request] }

theorem DeliveryWorld.step_cases {action : DeliveryAction}
    (step : d.step settings failureRate mockUrl isoformat action = some d') :
    DeliveryStep settings failureRate mockUrl isoformat d action d' := by
  cases action with
  | dispatcher action =>
    simp only [DeliveryWorld.step, Option.ite_none_right_eq_some, Option.map_eq_some_iff] at step
    obtain ⟨allowed, world, step, rfl⟩ := step
    exact .dispatcher allowed step
  | arrive i draw id =>
    simp only [DeliveryWorld.step] at step
    split at step
    · next dispatch found =>
      simp only [Option.ite_none_right_eq_some, Option.some.injEq] at step
      obtain ⟨⟨_, fresh⟩, rfl⟩ := step
      refine .handled ?_ (receiveWebhook_cases failureRate draw id _ _ _)
      rintro _ ⟨⟩
      exact ⟨⟨dispatch.event, by simp [WebhookWorld.handed, found], rfl⟩, fresh⟩
    · cases step
  | post payload draw id =>
    simp only [DeliveryWorld.step, Option.some.injEq] at step
    subst step
    exact .handled (fun _ none => by cases none) (receiveWebhook_cases failureRate draw id _ _ _)

/-- The receiver's books. -/
structure ReceiverSound (isoformat : Time → String) (d : DeliveryWorld) : Prop where
  known : ∀ receipt ∈ d.receipts.rows, ∃ request,
    d.requests.filter (fun other => other.brought receipt.eventId) = [request] ∧
      receiptOf receipt.id receipt.receivedAt request.payload = some receipt
  unknown : ∀ id, (∀ receipt ∈ d.receipts.rows, receipt.eventId ≠ id) →
    d.requests.filter (fun other => other.brought id) = []
  answered : ∀ request ∈ d.requests, ∀ duplicate, request.answer = .received duplicate →
    ∃ receipt ∈ d.receipts.rows, eventId? request.payload = some receipt.eventId
  past : ∀ receipt ∈ d.receipts.rows, receipt.receivedAt ≤ d.world.now
  senders : (d.requests.filterMap WebhookRequest.sender).Nodup
  sent : ∀ request ∈ d.requests, ∀ i, request.sender = some i → ∃ event,
    d.world.handed[i]? = some event ∧ request.payload = event.payload.members isoformat

/-- The receiver has the event, since then. -/
def DeliveryWorld.Has (d : DeliveryWorld) (id : EventId) (since : Time) : Prop :=
  ∃ receipt ∈ d.receipts.rows, receipt.eventId = id ∧ receipt.receivedAt ≤ since

theorem ReceiverSound.initial
    (initial : (deliverySystem settings failureRate mockUrl isoformat).init d) :
    ReceiverSound isoformat d := by
  obtain ⟨_, empty, nothing⟩ := initial
  constructor <;> simp [empty, nothing, Table.empty]

theorem ReceiverSound.handled (sound : ReceiverSound isoformat d) {request : WebhookRequest} {id : Nat}
    {receipts : Receipts} (sent : d.Sends isoformat request)
    (received : Received id d.world.now request.payload d.receipts (request.answer, receipts)) :
    ReceiverSound isoformat { d with receipts, requests := d.requests ++ [request] } := by
  have senders : ((d.requests ++ [request]).filterMap WebhookRequest.sender).Nodup := by
    cases sends : request.sender with
    | none => simpa [sends] using sound.senders
    | some i =>
      have fresh := (sent i sends).2
      simp only [List.filterMap_append, List.filterMap_cons, sends, List.filterMap_nil,
        List.nodup_append]
      refine ⟨sound.senders, List.nodup_singleton i, ?_⟩
      intro other member last lastMember same
      obtain ⟨earlier, inRequests, sends'⟩ := List.mem_filterMap.mp member
      rw [List.mem_singleton] at lastMember
      exact fresh earlier inRequests (by rw [sends', same, lastMember])
  have sentBy : ∀ other ∈ d.requests ++ [request], ∀ i, other.sender = some i → ∃ event,
      d.world.handed[i]? = some event ∧ other.payload = event.payload.members isoformat := by
    intro other member i sends
    rw [List.mem_append, List.mem_singleton] at member
    rcases member with old | rfl
    · exact sound.sent other old i sends
    · exact (sent i sends).1
  generalize answered : request.answer = answer at received
  cases received with
  | refused unreceived =>
    have unbrought : ∀ eventId, request.brought eventId = false := by
      intro eventId
      simp [WebhookRequest.brought, answered, unreceived]
    refine ⟨?_, ?_, ?_, sound.past, senders, sentBy⟩
    · intro receipt member
      simpa [List.filter_append, unbrought] using sound.known receipt member
    · intro eventId absent
      simpa [List.filter_append, unbrought] using sound.unknown eventId absent
    · intro other member duplicate answered'
      rw [List.mem_append, List.mem_singleton] at member
      rcases member with old | rfl
      · exact sound.answered other old duplicate answered'
      · exact absurd (answered.symm.trans answered') (unreceived duplicate)
  | @again receipt known reads member same =>
    obtain ⟨_, _, _, named⟩ := of_receiptOf reads
    have unbrought : ∀ eventId, request.brought eventId = false := by
      intro eventId
      simp [WebhookRequest.brought, answered]
    refine ⟨?_, ?_, ?_, sound.past, senders, sentBy⟩
    · intro receipt member
      simpa [List.filter_append, unbrought] using sound.known receipt member
    · intro eventId absent
      simpa [List.filter_append, unbrought] using sound.unknown eventId absent
    · intro other inRequests duplicate answered'
      rw [List.mem_append, List.mem_singleton] at inRequests
      rcases inRequests with old | rfl
      · exact sound.answered other old duplicate answered'
      · exact ⟨known, member, by rw [same]; exact named⟩
  | @first receipt receipts' reads inserted =>
    obtain ⟨numbered, _, receivedAt, named⟩ := of_receiptOf reads
    have rows := Table.rows_insert inserted
    have fresh : ∀ other ∈ d.receipts.rows, other.eventId ≠ receipt.eventId := by
      intro other member same
      have inRows : other ∈ receipts.rows := by simp [rows, member]
      have last : receipt ∈ receipts.rows := by simp [rows]
      have equal : other = receipt := Table.eq_of_uk inRows last (congrArg some same) rfl
      exact Table.lookup_eq_none.mp (Table.fresh_of_insert inserted) other member (by rw [equal])
    have brings : ∀ eventId, request.brought eventId = decide (receipt.eventId = eventId) := by
      intro eventId
      simp [WebhookRequest.brought, answered, named]
    refine ⟨?_, ?_, ?_, ?_, senders, sentBy⟩
    · intro other member
      rw [rows, List.mem_append, List.mem_singleton] at member
      rcases member with old | rfl
      · have others : request.brought other.eventId = false := by
          rw [brings]
          exact decide_eq_false (Ne.symm (fresh other old))
        simpa [List.filter_append, others] using sound.known other old
      · refine ⟨request, ?_, by rw [receivedAt, numbered]; exact reads⟩
        rw [List.filter_append, sound.unknown _ fresh]
        simp [brings]
    · intro eventId absent
      have others : request.brought eventId = false := by
        rw [brings]
        exact decide_eq_false (absent receipt (by simp [rows]))
      have before := sound.unknown eventId fun other member => absent other (by simp [rows, member])
      rw [List.filter_append, before]
      simp [others]
    · intro other inRequests duplicate answered'
      rw [List.mem_append, List.mem_singleton] at inRequests
      rcases inRequests with old | rfl
      · obtain ⟨known, member, named⟩ := sound.answered other old duplicate answered'
        exact ⟨known, by simp [rows, member], named⟩
      · exact ⟨receipt, by simp [rows], named⟩
    · intro other member
      rw [rows, List.mem_append, List.mem_singleton] at member
      rcases member with old | rfl
      · exact sound.past other old
      · exact receivedAt.le

theorem ReceiverSound.dispatcher (sound : ReceiverSound isoformat d) {action : WebhookAction}
    {world : WebhookWorld} (step : d.world.step settings action = some world) :
    ReceiverSound isoformat { d with world } where
  known := sound.known
  unknown := sound.unknown
  answered := sound.answered
  past receipt member := (sound.past receipt member).trans (WebhookWorld.now_le step)
  senders := sound.senders
  sent := by
    intro request member i sends
    obtain ⟨event, handed, payload⟩ := sound.sent request member i sends
    refine ⟨event, ?_, payload⟩
    rw [handed_step step, List.getElem?_append_left (List.getElem?_eq_some_iff.mp handed).1]
    exact handed

/-- What the dispatchers go by: a success was the receiver's answer. -/
structure DeliverySound (settings : Settings) (mockUrl : String) (isoformat : Time → String)
    (d : DeliveryWorld) : Prop where
  outbox : OutboxSound settings d.world
  receiver : ReceiverSound isoformat d
  recording : ∀ dispatch ∈ d.world.dispatches, dispatch.event.targetUrl = mockUrl →
    ∀ since, dispatch.stage = .recording none since → d.Has dispatch.event.id since
  delivered : ∀ id row, d.world.row id = some row → row.targetUrl = mockUrl →
    row.status = .delivered → ∃ deliveredAt, row.deliveredAt = some deliveredAt ∧ d.Has id deliveredAt

theorem DeliveryWorld.Has.later {id : EventId} {since until' : Time} (has : d.Has id since)
    (le : since ≤ until') (kept : ∀ receipt ∈ d.receipts.rows, receipt ∈ d'.receipts.rows) :
    d'.Has id until' := by
  obtain ⟨receipt, member, named, received⟩ := has
  exact ⟨receipt, kept receipt member, named, received.trans le⟩

/-- A request of a dispatch that was received brought the event of the dispatch. -/
theorem DeliverySound.has (sound : DeliverySound settings mockUrl isoformat d) {i : Nat}
    {dispatch : Dispatch} (found : d.world.dispatches[i]? = some dispatch) {request : WebhookRequest}
    (member : request ∈ d.requests) (sends : request.sender = some i) {duplicate : Bool}
    (received : request.answer = .received duplicate) : d.Has dispatch.event.id d.world.now := by
  obtain ⟨event, handed, payload⟩ := sound.receiver.sent request member i sends
  obtain ⟨receipt, inReceipts, named⟩ := sound.receiver.answered request member duplicate received
  have same : event = dispatch.event := by
    simp only [WebhookWorld.handed, List.getElem?_map, found, Option.map_some] at handed
    exact (Option.some.inj handed).symm
  obtain ⟨row, present, knows⟩ := sound.outbox.handed _ (mem_handed (List.mem_of_getElem? found))
  have genuine := (sound.outbox.rows _ row present).genuine
  -- the payload that was posted names the event that was claimed
  rw [payload, same, eventId_members, knows.payload, genuine.eventId,
    Table.pk_of_lookup present] at named
  exact ⟨receipt, inReceipts, (Option.some.inj named).symm, sound.receiver.past receipt inReceipts⟩

theorem DeliverySound.step (sound : DeliverySound settings mockUrl isoformat d) {action : DeliveryAction}
    (taken : d.step settings failureRate mockUrl isoformat action = some d') :
    DeliverySound settings mockUrl isoformat d' := by
  cases DeliveryWorld.step_cases taken with
  | @dispatcher action world allowed step =>
    refine ⟨sound.outbox.step step, sound.receiver.dispatcher step, ?_, ?_⟩
    · intro dispatch member addressed since stage
      cases recording_origin step member stage with
      | inl old => exact sound.recording dispatch old addressed since stage
      | inr ended =>
        obtain ⟨i, dispatch', result, rfl, found, same, success, rfl⟩ := ended
        rw [same] at addressed ⊢
        simp only [DeliveryWorld.allows, found, success, addressed, bne_self_eq_false,
          Bool.false_or, List.any_eq_true, Bool.and_eq_true, decide_eq_true_eq] at allowed
        obtain ⟨request, inRequests, sends, rfl⟩ := allowed
        -- of the receiver's answers only one is a success
        cases answer : request.answer with
        | received duplicate => exact sound.has found inRequests sends answer
        | _ => simp [answer, MockAnswer.statusCode, PostResult.error] at success
    · intro id row present addressed delivered
      cases delivered_origin step present delivered with
      | inl old => exact sound.delivered id row old addressed delivered
      | inr recorded =>
        obtain ⟨dispatch, member, named, since, began, stage, le, deliveredAt⟩ := recorded
        obtain ⟨before, found, knows⟩ := sound.outbox.handed _ (mem_handed member)
        obtain ⟨after, present', knows'⟩ := knows.later step found
        rw [named, present] at present'
        obtain rfl := Option.some.inj present'
        have has := sound.recording dispatch member (knows'.targetUrl.trans addressed) since stage
        rw [named] at has
        exact ⟨began, deliveredAt, has.later le fun _ member => member⟩
  | @handled _ request number receipts sent received =>
    have kept : ∀ receipt ∈ d.receipts.rows, receipt ∈ receipts.rows := by
      intro receipt member
      generalize request.answer = answer at received
      cases received with
      | refused _ => exact member
      | again _ _ _ => exact member
      | first _ inserted => simp [Table.rows_insert inserted, member]
    refine ⟨sound.outbox, sound.receiver.handled sent received, ?_, ?_⟩
    · intro dispatch member addressed since stage
      exact (sound.recording dispatch member addressed since stage).later (le_refl _) kept
    · intro id row present addressed delivered
      obtain ⟨deliveredAt, at', has⟩ := sound.delivered id row present addressed delivered
      exact ⟨deliveredAt, at', has.later (le_refl _) kept⟩

theorem deliverySound_of_run
    (run : Run (deliverySystem settings failureRate mockUrl isoformat) history d) :
    DeliverySound settings mockUrl isoformat d := by
  refine Run.state_invariant ?_ (fun d action d' sound => sound.step) run
  intro d initial
  have books := ReceiverSound.initial initial
  obtain ⟨⟨empty, nothing⟩, _, _⟩ := initial
  have outbox : OutboxSound settings d.world := outboxSound_of_run (.start ⟨empty, nothing⟩)
  refine ⟨outbox, books, ?_, ?_⟩
  · intro dispatch member
    rw [nothing] at member
    cases member
  · intro id row present
    rw [WebhookWorld.row, empty] at present
    cases present

/-- The dispatchers run as they do without the receiver. -/
theorem dispatchers_of_run
    (run : Run (deliverySystem settings failureRate mockUrl isoformat) history d) :
    ∃ dispatched, Run (webhookSystem settings) dispatched d.world := by
  induction run with
  | start initial => exact ⟨[], .start initial.1⟩
  | next _ taken inductionHypothesis =>
    obtain ⟨dispatched, run⟩ := inductionHypothesis
    cases DeliveryWorld.step_cases taken with
    | dispatcher _ step => exact ⟨_, .next run step⟩
    | handled _ _ => exact ⟨dispatched, run⟩

/-- Distinct positions of elements with a property are no more than these elements. -/
theorem length_le_countP {α : Type} {xs : List α} {p : α → Bool} {positions : List Nat}
    (nodup : positions.Nodup) (each : ∀ i ∈ positions, ∃ x, xs[i]? = some x ∧ p x = true) :
    positions.length ≤ xs.countP p := by
  have among : positions ⊆ xs.findIdxs p := by
    intro i member
    obtain ⟨x, found, holds⟩ := each i member
    obtain ⟨bound, rfl⟩ := List.getElem?_eq_some_iff.mp found
    simpa [List.mem_findIdxs_iff_pos_getElem bound] using holds
  rw [← List.length_findIdxs]
  exact (List.subperm_of_subset nodup among).length_le

/-- Every claim of an event brings at most one request. -/
theorem requests_le (run : Run (deliverySystem settings failureRate mockUrl isoformat) history d)
    {row : OutboxRow} (member : row ∈ d.world.db.webhookOutbox.rows) :
    (d.requests.countP fun request =>
      request.sender.isSome && eventId? request.payload = some row.id : Nat) ≤
      row.attempts := by
  have sound := deliverySound_of_run run
  obtain ⟨dispatched, dispatchers⟩ := dispatchers_of_run run
  rw [(countsClaims dispatchers row.id).counted row (Table.lookup_of_mem member),
    claims_eq_handed dispatchers, Nat.cast_le]
  let own := d.requests.filter fun request =>
    request.sender.isSome && eventId? request.payload = some row.id
  have length : (own.filterMap WebhookRequest.sender).length = own.length := by
    rw [List.length_filterMap_eq_countP, List.countP_eq_length]
    intro request inOwn
    have sends := (List.mem_filter.mp inOwn).2
    simp only [Bool.and_eq_true] at sends
    exact sends.1
  rw [List.countP_eq_length_filter, ← length]
  apply length_le_countP (sound.receiver.senders.sublist (List.filter_sublist.filterMap _))
  intro i sends
  obtain ⟨request, inOwn, sends⟩ := List.mem_filterMap.mp sends
  obtain ⟨inRequests, named⟩ := List.mem_filter.mp inOwn
  obtain ⟨event, handed, payload⟩ := sound.receiver.sent request inRequests i sends
  obtain ⟨row', present, knows⟩ := sound.outbox.handed event (List.mem_of_getElem? handed)
  have genuine := (sound.outbox.rows _ row' present).genuine
  simp only [Bool.and_eq_true, decide_eq_true_eq, payload, eventId_members, Option.some.injEq] at named
  refine ⟨event, handed, ?_⟩
  rw [knows.payload, genuine.eventId, Table.pk_of_lookup present] at named
  simpa using named.2

/-- Whatever requests and answers get lost, come late or twice, and whatever others post: an event
    that the outbox calls delivered is at the receiver once and was there before; what the receiver
    has was brought by exactly one request that it answered as new, and tells what the outbox tells
    unless somebody else posted it; and the dispatchers' requests for an event are no more than its
    attempts. -/
theorem webhook_receipts (run : Run (deliverySystem settings failureRate mockUrl isoformat) history d) :
    (∀ row ∈ d.world.db.webhookOutbox.rows, row.targetUrl = mockUrl → row.status = .delivered →
      ∃ receipt deliveredAt, (d.receipts.select fun other => other.eventId = row.id) = [receipt] ∧
        row.deliveredAt = some deliveredAt ∧ receipt.receivedAt ≤ deliveredAt) ∧
    (∀ receipt ∈ d.receipts.rows, ∃ request,
      (d.requests.filter fun other => other.brought receipt.eventId) = [request] ∧
      receipt.payload = request.payload ∧
      (request.sender = none ∨ ∃ row ∈ d.world.db.webhookOutbox.rows, row.id = receipt.eventId ∧
        receipt.jobId = row.jobId ∧ receipt.event = row.event.text ∧
        receipt.payload = row.payload.members isoformat)) ∧
    (∀ request ∈ d.requests, ∀ duplicate, request.answer = .received duplicate →
      ∃ receipt ∈ d.receipts.rows, eventId? request.payload = some receipt.eventId) ∧
    ∀ row ∈ d.world.db.webhookOutbox.rows,
      (d.requests.countP fun request =>
        request.sender.isSome && eventId? request.payload = some row.id : Nat) ≤ row.attempts := by
  have sound := deliverySound_of_run run
  refine ⟨?_, ?_, sound.receiver.answered, fun row => requests_le run⟩
  · intro row member addressed delivered
    obtain ⟨deliveredAt, recorded, receipt, inReceipts, named, before⟩ :=
      sound.delivered row.id row (Table.lookup_of_mem member) addressed delivered
    refine ⟨receipt, deliveredAt, ?_, recorded, before⟩
    refine Table.select_eq_singleton inReceipts (by simp [named]) ?_
    intro other otherMember same
    rw [decide_eq_true_eq] at same
    exact Table.eq_of_uk otherMember inReceipts (congrArg some (same.trans named.symm)) rfl
  · intro receipt member
    obtain ⟨request, brought, reads⟩ := sound.receiver.known receipt member
    have own : request ∈ d.requests := by
      have first : request ∈ d.requests.filter fun other => other.brought receipt.eventId := by
        simp [brought]
      exact (List.mem_filter.mp first).1
    obtain ⟨_, payload, _, _⟩ := of_receiptOf reads
    refine ⟨request, brought, payload, ?_⟩
    cases sends : request.sender with
    | none => exact .inl rfl
    | some i =>
      obtain ⟨event, handed, posted⟩ := sound.receiver.sent request own i sends
      obtain ⟨row, present, knows⟩ := sound.outbox.handed event (List.mem_of_getElem? handed)
      have genuine := (sound.outbox.rows _ row present).genuine
      rw [posted, receiptOf_members, knows.payload] at reads
      have fields := Option.some.inj reads
      refine .inr ⟨row, Table.mem_of_lookup present, ?_, ?_, ?_, ?_⟩
      · rw [← fields, genuine.eventId]
      · rw [← fields, genuine.jobId]
      · rw [← fields, genuine.event]
      · rw [← fields]

end

/-- The answer to the first request is lost; the second request is a duplicate and is recorded. -/
def lostAnswer : DeliveryHistory × DeliveryWorld :=
  runOf (DeliveryWorld.step .default 0 "http://localhost/hooks" fun _ => "")
    ⟨⟨0, .empty, []⟩, .empty, []⟩
    (announceEvent.map .dispatcher ++
      [.dispatcher (.claim 0 .alone), .arrive 0 1 1,
        .dispatcher (.endPost 0 (.httpError "ReadTimeout" "")), .dispatcher (.record 0 0 0),
        .dispatcher (.tick 11), .dispatcher (.claim 11 .alone), .arrive 1 1 2,
        .dispatcher (.endPost 1 (.response 200)), .dispatcher (.record 1 11 0)])

theorem webhook_receipts_lostAnswer :
    lostAnswer.2.requests.length = 2 ∧ ∃ receipt,
      (lostAnswer.2.receipts.select fun other => other.eventId = 7) = [receipt] ∧
        receipt.receivedAt ≤ 11 := by
  have run : Run (deliverySystem .default 0 "http://localhost/hooks" fun _ => "") lostAnswer.1
      lostAnswer.2 := run_runOf _ ⟨⟨rfl, rfl⟩, rfl, rfl⟩ _
  refine ⟨by decide +kernel, ?_⟩
  obtain ⟨row, member, named, addressed, delivered, at'⟩ :
      ∃ row ∈ lostAnswer.2.world.db.webhookOutbox.rows, row.id = 7 ∧
        row.targetUrl = "http://localhost/hooks" ∧ row.status = .delivered ∧
        row.deliveredAt = some 11 := by decide +kernel
  obtain ⟨receipt, deliveredAt, only, recorded, before⟩ :=
    (webhook_receipts run).1 row member addressed delivered
  rw [named] at only
  rw [at'] at recorded
  exact ⟨receipt, only, by rw [Option.some.inj recorded]; exact before⟩

end NotifyQueue
