import NotifyQueue.Config
import NotifyQueue.Domain.Backoff
import NotifyQueue.Repositories.JobSystem
import NotifyQueue.Repositories.Webhooks

/-! # The webhook dispatchers

Translated from `worker/webhook_dispatcher.py`: any number of `run_once` loops, one dispatch
for each claimed event, on the tables that the job operations share with them.  A dispatch
waits for its POST, then for the transaction that records the outcome; it ends early when
anything but an `httpx.HTTPError` is raised, or with its process.

Time passes only by `tick`, so nothing bounds how long a dispatch takes.  A transaction
commits at the time of its action and carries the `now()` at which it began. -/

namespace NotifyQueue

open Runs

def webhookBackoffBase : Time := 1

def webhookBackoffCap : Time := 300

/-- How the POST ends: with a response, with an `httpx.HTTPError`, or with another exception. -/
inductive PostResult where
  | response (statusCode : Nat)
  | httpError (type message : String)
  | raised
deriving DecidableEq, Repr

inductive DispatchStage where
  | posting
  | recording (error : Option String) (since : Time)
  | recorded
  | abandoned
deriving DecidableEq, Repr

/-- One `_dispatch`; `claimedAt` is the `now()` of the claim that handed it the event. -/
structure Dispatch where
  event : OutboxEvent
  claimedAt : Time
  stage : DispatchStage
deriving DecidableEq, Repr

/-- A dispatch that may still record an outcome. -/
def Dispatch.underWay (dispatch : Dispatch) : Bool :=
  match dispatch.stage with
  | .posting => true
  | .recording _ _ => true
  | _ => false

/-- `lease_seconds`. -/
def Settings.webhookLeaseSeconds (settings : Settings) : Time := settings.webhookTimeoutSeconds * 2

/-- What the POST leaves in `error`; `none` when the exception ends the dispatch. -/
def PostResult.error : PostResult → Option (Option String)
  | .response statusCode =>
    if 200 ≤ statusCode ∧ statusCode ≤ 299 then some none
    else some (some ("HTTP " ++ toString statusCode))
  | .httpError type message => some (some (type ++ ": " ++ message))
  | .raised => none

/-- What a dispatch is about to write. -/
inductive Outcome where
  | delivered
  | retry (error : String) (retryDelay : Time)
  | giveUp (error : String)
deriving DecidableEq, Repr

/-- `give_up`, and the delay that is only computed otherwise. -/
def OutboxEvent.outcome (settings : Settings) (event : OutboxEvent) (error : Option String)
    (draw : Time) : Except BackoffError Outcome :=
  match error with
  | none => .ok .delivered
  | some error =>
    if settings.webhookMaxAttempts ≤ event.attempts then .ok (.giveUp error)
    else
      match backoffDelay event.attempts webhookBackoffBase webhookBackoffCap draw with
      | .ok retryDelay => .ok (.retry error retryDelay)
      | .error raised => .error raised

def Outcome.write (now : Time) (eventId : EventId) (outbox : Outbox) : Outcome → Outbox
  | .delivered => markDelivered now eventId outbox
  | .retry error retryDelay => markAttemptFailed now eventId error (some retryDelay) outbox
  | .giveUp error => markAttemptFailed now eventId error none outbox

/-! ## The system -/

structure WebhookWorld where
  now : Time
  db : Db
  dispatches : List Dispatch
deriving DecidableEq

inductive WebhookAction where
  | tick (later : Time)
  | job (op : JobOp) (began : Time)
  | claim (began : Time) (choices : OutboxChoices)
  | endPost (i : Nat) (result : PostResult)
  | record (i : Nat) (began draw : Time)
  | abandon (i : Nat)

def Dispatch.to (dispatch : Dispatch) (stage : DispatchStage) : Dispatch := { dispatch with stage }

section

variable (settings : Settings)

/-- The events that `run_once` claims, and the outbox that it leaves. -/
def WebhookWorld.claim (w : WebhookWorld) (began : Time) (choices : OutboxChoices) :
    List OutboxEvent × Outbox :=
  claimOutboxEvents began settings.webhookBatchSize settings.webhookLeaseSeconds choices
    w.db.webhookOutbox

/-- The transaction of `_dispatch`; the delay's exception rolls it back. -/
def WebhookWorld.record (w : WebhookWorld) (i : Nat) (dispatch : Dispatch) (error : Option String)
    (began draw : Time) : WebhookWorld :=
  match dispatch.event.outcome settings error draw with
  | .ok outcome =>
    { w with
      db := { w.db with webhookOutbox := outcome.write began dispatch.event.id w.db.webhookOutbox }
      dispatches := w.dispatches.set i (dispatch.to .recorded) }
  | .error _ => { w with dispatches := w.dispatches.set i (dispatch.to .abandoned) }

/-- The steps; `none` is an action that cannot happen. -/
def WebhookWorld.step (w : WebhookWorld) : WebhookAction → Option WebhookWorld
  | .tick later => if w.now ≤ later then some { w with now := later } else none
  | .job op began => if began ≤ w.now then some { w with db := (op.commit began w.db).2 } else none
  | .claim began choices =>
    if began ≤ w.now then
      let (events, webhookOutbox) := w.claim settings began choices
      some { w with
        db := { w.db with webhookOutbox }
        dispatches := w.dispatches ++ events.map fun event => ⟨event, began, .posting⟩ }
    else none
  | .endPost i result =>
    match w.dispatches[i]? with
    | some dispatch =>
      if dispatch.stage = .posting then
        let stage := match result.error with
          | some error => .recording error w.now
          | none => .abandoned
        some { w with dispatches := w.dispatches.set i (dispatch.to stage) }
      else none
    | none => none
  | .record i began draw =>
    match w.dispatches[i]? with
    | some dispatch =>
      match dispatch.stage with
      | .recording error since =>
        if since ≤ began ∧ began ≤ w.now then some (w.record settings i dispatch error began draw)
        else none
      | _ => none
    | none => none
  | .abandon i =>
    match w.dispatches[i]? with
    | some dispatch =>
      if dispatch.stage = .recorded then none
      else some { w with dispatches := w.dispatches.set i (dispatch.to .abandoned) }
    | none => none

def webhookSystem : System WebhookWorld WebhookAction :=
  .ofStep (fun w => w.db = .empty ∧ w.dispatches = []) (WebhookWorld.step settings)

end

abbrev WebhookHistory := History WebhookWorld WebhookAction

def webhookRun (settings : Settings) (actions : List WebhookAction) :
    WebhookHistory × WebhookWorld :=
  runOf (WebhookWorld.step settings) ⟨0, .empty, []⟩ actions

theorem run_webhookRun (settings : Settings) (actions : List WebhookAction) :
    Run (webhookSystem settings) (webhookRun settings actions).1 (webhookRun settings actions).2 := by
  have initial : (webhookSystem settings).init ⟨0, .empty, []⟩ := ⟨rfl, rfl⟩
  exact run_runOf (WebhookWorld.step settings) initial actions

/-- For runs on given inputs: a job is sent, which announces event 7. -/
def announceEvent : List WebhookAction :=
  [.job (.createJob 1 (sampleJob 3)) 0, .job (.claimDueJobs "w1" 1 30 (fun _ => 5) .alone) 0,
    .job (.markSent 1 5 "w1" none "http://localhost/hooks" 7) 0]

end NotifyQueue
