import NotifyQueue.Domain.Models
import NotifyQueue.Lib.Json

/-! # The fingerprint of a request

Translated from `ScheduleJobRequest.request_hash` in `domain/schemas.py`, with what
`model_dump(mode="json")` makes of the fields and of the payload.  The text of `send_at` with its
offset and the normalised URL are part of the request here, as pydantic writes them, and `sha256`
is a parameter. -/

namespace NotifyQueue

open Json (Numeral Value)

def Channel.text : Channel → String
  | .email => "email"
  | .sms => "sms"
  | .push => "push"

/-- `p.name.lower()`. -/
def Priority.text : Priority → String
  | .low => "low"
  | .normal => "normal"
  | .high => "high"
  | .critical => "critical"

/-- A finite `float`, held as its `repr`: no other float has it, and no integer, as it has a point
    or an exponent. -/
structure FloatRepr where
  numeral : Numeral
  marked : '.' ∈ numeral.text ∨ 'e' ∈ numeral.text
deriving DecidableEq

/-- The other `float`s, which `json.loads` reads by their names. -/
inductive NonFinite where
  | nan
  | infinity
  | negInfinity

/-- What a payload holds: `Any`, as `json.loads` gives it. -/
inductive AnyValue where
  | none
  | bool (value : Bool)
  | int (value : Int)
  | float (repr : FloatRepr)
  | nonFinite (value : NonFinite)
  | str (text : String)
  | list (items : List AnyValue)
  | dict (members : List (String × AnyValue))

mutual

/-- No dictionary has a key twice. -/
def AnyValue.uniqueKeys : AnyValue → Bool
  | .list items => anyUniqueKeysItems items
  | .dict members => (members.map Prod.fst).Nodup && anyUniqueKeysMembers members
  | _ => true

def anyUniqueKeysItems : List AnyValue → Bool
  | [] => true
  | item :: rest => item.uniqueKeys && anyUniqueKeysItems rest

def anyUniqueKeysMembers : List (String × AnyValue) → Bool
  | [] => true
  | (_, value) :: rest => value.uniqueKeys && anyUniqueKeysMembers rest

end

/-- The fields of a request; `delay_seconds` is within its bounds, so it is finite. -/
structure RequestBody where
  recipient : String
  channel : Channel
  payload : List (String × AnyValue)
  priority : Priority
  sendAt : Option String
  delaySeconds : Option FloatRepr
  maxAttempts : Option Int
  callbackUrl : Option String
  idempotencyKey : Option String
  payloadKeys : (AnyValue.dict payload).uniqueKeys = true

/-! ## The dump -/

mutual

/-- JSON has no `NaN` and no infinities; `None` is given for them. -/
def AnyValue.modelDump : AnyValue → Value
  | .none => .null
  | .bool value => .bool value
  | .int value => .number (.ofInt value)
  | .float repr => .number repr.numeral
  | .nonFinite _ => .null
  | .str text => .string text
  | .list items => .array (modelDumpItems items)
  | .dict members => .object (modelDumpMembers members)

def modelDumpItems : List AnyValue → List Value
  | [] => []
  | item :: rest => item.modelDump :: modelDumpItems rest

def modelDumpMembers : List (String × AnyValue) → List (String × Value)
  | [] => []
  | (key, value) :: rest => (key, value.modelDump) :: modelDumpMembers rest

end

def orNull {α : Type} (value : α → Value) : Option α → Value
  | some field => value field
  | none => .null

/-- `model_dump(mode="json", exclude={"idempotency_key"})`. -/
def RequestBody.modelDump (request : RequestBody) : Value :=
  .object [
    ("recipient", .string request.recipient),
    ("channel", .string request.channel.text),
    ("payload", .object (modelDumpMembers request.payload)),
    ("priority", .string request.priority.text),
    ("send_at", orNull .string request.sendAt),
    ("delay_seconds", orNull (fun delay => .number delay.numeral) request.delaySeconds),
    ("max_attempts", orNull (fun n => .number (.ofInt n)) request.maxAttempts),
    ("callback_url", orNull .string request.callbackUrl)]

def RequestBody.canonical (request : RequestBody) : List Char := request.modelDump.dumps

def RequestBody.requestHash (sha256 : List Char → String) (request : RequestBody) : String :=
  sha256 request.canonical

end NotifyQueue
