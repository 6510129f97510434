import NotifyQueue.Repositories.Receipts
import NotifyQueue.Worker.WebhookDispatcher

/-! # The mock webhook receiver

Translated from `api/routes/mock.py`.

`deliverySystem` is the dispatcher system with this receiver behind one URL.  A request that a
dispatch sends there arrives once or never, at any time: also after the dispatch gave it up.  The
dispatch can be handed no other success than the receiver's; a timeout, an exception or an error
response from something in between ends its POST at any time.  Others may post whatever they like.
What receivers behind other URLs answer is open. -/

namespace NotifyQueue

open Json (Member)
open Runs

/-- The responses of `receive_webhook`. -/
inductive MockAnswer where
  | outage
  | notAnEvent
  | raised
  | received (duplicate : Bool)
deriving DecidableEq, Repr

def MockAnswer.statusCode : MockAnswer → Nat
  | .outage => 503
  | .notAnEvent => 422
  | .raised => 500
  | .received _ => 200

/-- `{"event_id", "job_id", "event"} <= payload.keys()`. -/
def isEvent (payload : List Member) : Bool :=
  ["event_id", "job_id", "event"].all fun key => payload.any fun member => member.1 = key

/-- `receive_webhook`; `draw` is `random()`. -/
def receiveWebhook (failureRate draw : ℚ) (id : Nat) (now : Time) (payload : List Member)
    (receipts : Receipts) : MockAnswer × Receipts :=
  if draw < failureRate then (.outage, receipts)
  else if isEvent payload = false then (.notAnEvent, receipts)
  else
    match recordReceipt id now payload receipts with
    | some (firstTime, receipts) => (.received (!firstTime), receipts)
    | none => (.raised, receipts)

/-! ## Dispatchers that post to it -/

/-- A request that reached the receiver; `sender` is the number of the dispatch, if it is one. -/
structure WebhookRequest where
  sender : Option Nat
  payload : List Member
  answer : MockAnswer

structure DeliveryWorld where
  world : WebhookWorld
  receipts : Receipts
  requests : List WebhookRequest

inductive DeliveryAction where
  | dispatcher (action : WebhookAction)
  | arrive (i : Nat) (draw : ℚ) (id : Nat)
  | post (payload : List Member) (draw : ℚ) (id : Nat)

section

variable (settings : Settings) (failureRate : ℚ) (mockUrl : String) (isoformat : Time → String)

/-- A success that a POST at the receiver's URL returns with is the receiver's answer. -/
def DeliveryWorld.allows (d : DeliveryWorld) : WebhookAction → Bool
  | .endPost i result =>
    match d.world.dispatches[i]? with
    | some dispatch =>
      result.error != some none || dispatch.event.targetUrl != mockUrl ||
        d.requests.any fun request =>
          request.sender = some i && result = .response request.answer.statusCode
    | none => false
  | _ => true

/-- The receiver handles a request. -/
def DeliveryWorld.handle (d : DeliveryWorld) (sender : Option Nat) (payload : List Member) (draw : ℚ)
    (id : Nat) : DeliveryWorld :=
  let (answer, receipts) := receiveWebhook failureRate draw id d.world.now payload d.receipts
  { d with receipts, requests := d.requests ++ [⟨sender, payload, answer⟩] }

def DeliveryWorld.step (d : DeliveryWorld) : DeliveryAction → Option DeliveryWorld
  | .dispatcher action =>
    if d.allows mockUrl action = true then
      (d.world.step settings action).map fun world => { d with world }
    else none
  | .arrive i draw id =>
    match d.world.dispatches[i]? with
    | some dispatch =>
      if dispatch.event.targetUrl = mockUrl ∧ ∀ request ∈ d.requests, request.sender ≠ some i then
        some (d.handle failureRate (some i) (dispatch.event.payload.members isoformat) draw id)
      else none
    | none => none
  | .post payload draw id => some (d.handle failureRate none payload draw id)

def deliverySystem : System DeliveryWorld DeliveryAction :=
  .ofStep (fun d => (webhookSystem settings).init d.world ∧ d.receipts = .empty ∧ d.requests = [])
    (DeliveryWorld.step settings failureRate mockUrl isoformat)

end

abbrev DeliveryHistory := History DeliveryWorld DeliveryAction

end NotifyQueue
