import ReliableNotifier.Api.Submit
import ReliableNotifier.System.Model

/-! # Requests to the API

Each request is a process that makes one call of the store after the other, while everything
else that the store is used for goes on in between. A call may be answered, refused or fail,
and a commit may go through with its reply lost. The handlers check in the order of the
source, and a refusal is answered before the next call is made.
-/

namespace ReliableNotifier

open Checked RowTable Interleaving

def Status.text : Status → String
  | .pending => "pending"
  | .delivering => "delivering"
  | .succeeded => "succeeded"
  | .failedPermanent => "failed_permanent"

def ResultClass.text : ResultClass → String
  | .succeeded => "succeeded"
  | .retryableFailure => "retryable_failure"
  | .permanentFailure => "permanent_failure"

namespace Api

/-- What the handlers take from elsewhere: the case tables, the order in which maps are ranged over, SHA-256,
and how PostgreSQL reads the text of a `uuid`. -/
structure Platform where
  tables : CaseTables
  order : RangeOrder
  requestHash : HashInput → Except HeaderError Digest
  digest : String → Digest
  parseUUID : String → Option UUID
  backlogLimit : Int

/-- The decoded body of a submission. The headers are missing when `decodeCallerHeaders` fails, the
body when `body_base64` does not decode. -/
structure Input where
  destinationID : String
  method : String
  headers : Option Headers
  body : Option (List UInt8)
  deriving DecidableEq

/-- Why the body of a submission does not decode. -/
inductive DecodeError where
  | tooLarge | invalid | multiple
  deriving DecidableEq

def DecodeError.http : DecodeError → HttpError
  | .tooLarge => ⟨413, "payload_too_large", "request exceeds size limit"⟩
  | .invalid => ⟨400, "invalid_request", "request body is invalid"⟩
  | .multiple => ⟨400, "invalid_request", "request body must contain one JSON value"⟩

/-- The requests, with what is made of their bodies. A replay that does not decode has no reason. -/
inductive Request where
  | submit (authorization idempotencyKey : String) (body : Except DecodeError Input)
  | get (authorization id : String)
  | replay (authorization id : String) (body : Option String)
  deriving DecidableEq

def Request.authorization : Request → String
  | submit authorization _ _ => authorization
  | get authorization _ => authorization
  | replay authorization _ _ => authorization

structure Principal where
  callerID : String
  isOperator : Bool
  deriving DecidableEq

structure DeliveryResponse where
  id : String
  status : String
  destinationID : String
  destinationVersion : Int
  generation : Nat
  acceptedAt : GoTime
  nextAttemptAt : GoTime
  retryDeadline : GoTime
  deriving DecidableEq

def responseFromDelivery (delivery : Delivery) : DeliveryResponse where
  id := uuidText delivery.id
  status := delivery.status.text
  destinationID := delivery.destinationID
  destinationVersion := delivery.destinationVersion
  generation := delivery.generation
  acceptedAt := delivery.acceptedAt
  nextAttemptAt := delivery.nextAttemptAt
  retryDeadline := delivery.retryDeadline

structure AttemptSummary where
  generation : Nat
  resultClass : String
  responseStatus : Option Int
  errorCategory : Option String
  startedAt : GoTime
  finishedAt : GoTime
  deriving DecidableEq

def summary (attempt : AttemptRow) : AttemptSummary where
  generation := attempt.generation
  resultClass := attempt.resultClass.text
  responseStatus := attempt.responseStatus
  errorCategory := attempt.errorCategory
  startedAt := nanoseconds attempt.startedAt
  finishedAt := nanoseconds attempt.finishedAt

inductive Payload where
  | error (code message : String)
  | delivery (response : DeliveryResponse) (attempts : Option (List AttemptSummary))
  deriving DecidableEq

structure Reply where
  status : Nat
  payload : Payload
  retryAfter : Option String
  deriving DecidableEq

def Reply.ofError (err : HttpError) : Reply := ⟨err.status, .error err.code err.message, none⟩

def unauthorized : HttpError := ⟨401, "unauthorized", "valid caller authentication is required"⟩

def forbidden : HttpError := ⟨403, "destination_forbidden", "destination is not authorized"⟩

def conflict : HttpError :=
  ⟨409, "idempotency_conflict", "Idempotency-Key was reused with different content"⟩

def notFound : HttpError := ⟨404, "delivery_not_found", "delivery was not found"⟩

/-- `API.internalError`. -/
def unavailable : Reply := .ofError ⟨503, "service_unavailable", "service is temporarily unavailable"⟩

def backlogFull : Reply :=
  ⟨503, .error "backlog_capacity_exceeded" "active delivery backlog is full", some "60"⟩

def accepted (delivery : Delivery) : Reply := ⟨202, .delivery (responseFromDelivery delivery) none, none⟩

def found (delivery : Delivery) (attempts : List AttemptRow) : Reply :=
  ⟨200, .delivery (responseFromDelivery delivery) (some (attempts.map summary)), none⟩

/-- The API key of an `Authorization` header. -/
def bearer (authorization : String) : Option String :=
  let scheme := "Bearer ".toList
  if scheme.isPrefixOf authorization.toList && authorization.toList.length ≠ scheme.length then
    some (String.ofList (authorization.toList.drop scheme.length))
  else none

def statusAttemptLimit : Nat := 20

end Api

namespace Database

variable (db : Database)

def callerOf (apiKeyHash : Digest) : Option CallerRow :=
  db.callers.find? fun caller => caller.apiKeyHash = apiKeyHash

/-- `Store.AuthenticatePrincipal`. Only an operator of the database ever sets `is_operator`. -/
def authenticatePrincipal (apiKeyHash : Digest) (operators : String → Bool) : Option Api.Principal :=
  (db.callerOf apiKeyHash).map fun caller => ⟨caller.id, operators caller.id⟩

/-- `Store.Get`. -/
def get (callerID : String) (id : UUID) : Option DeliveryRow :=
  db.deliveries.find? fun row => row.id = id && row.callerID = callerID

/-- `ORDER BY started_at DESC, id DESC`. -/
def later (a b : AttemptRow) : Prop := b.startedAt < a.startedAt ∨ b.startedAt = a.startedAt ∧ b.id ≤ a.id

instance : DecidableRel later := fun _ _ => inferInstanceAs (Decidable (_ ∨ _))

/-- `Store.ListAttemptSummaries`. -/
def listAttemptSummaries (callerID : String) (deliveryID : UUID) (limit : Nat) : List AttemptRow :=
  batch later limit (fun attempt => attempt.deliveryID = deliveryID && (db.get callerID deliveryID).isSome)
    db.deliveryAttempts

end Database

namespace Api

section Handlers

variable (platform : Platform)

/-- Where a handler is between two calls of the store. -/
inductive Stage where
  | authenticating
  | resolving (callerID : String)
  | submitting (submission : Submission)
  | getting (callerID : String)
  | listing (callerID : String) (delivery : Delivery)
  | replaying (operatorID reason : String)
  deriving DecidableEq

inductive Handler where
  | idle
  | working (request : Request) (stage : Stage)
  | answered (request : Request) (reply : Reply)
  deriving DecidableEq

def refuse (request : Request) (err : HttpError) : Handler := .answered request (.ofError err)

/-- `API.authenticatePrincipal`, and the checks of each handler up to its next call. -/
def afterAuthenticate (request : Request) : Option Principal → Handler
  | none => refuse request unauthorized
  | some principal =>
    match request with
    | .submit _ _ _ => .working request (.resolving principal.callerID)
    | .get _ _ => .working request (.getting principal.callerID)
    | .replay _ _ body =>
      if !principal.isOperator then
        refuse request ⟨403, "operator_required", "operator authorization is required"⟩
      else
        match body with
        | none => refuse request ⟨400, "invalid_replay", "replay request is invalid"⟩
        | some raw =>
          match replayReason raw with
          | .error err => refuse request err
          | .ok reason => .working request (.replaying principal.callerID reason)

/-- `API.submit` between `authenticate` and `Store.Submit`. -/
def admission (callerID idempotencyKey : String) (body : Except DecodeError Input)
    (authorized : String → Option DestinationVersion) (acceptedAt : GoTime) : Except HttpError Submission := do
  ensure (trimmed idempotencyKey ≠ "" && (trimmed idempotencyKey).utf8ByteSize ≤ 200)
    ⟨400, "invalid_idempotency_key", "Idempotency-Key is required"⟩
  let input ← body.mapError DecodeError.http
  let headers ← input.headers.elim
    (.error ⟨400, "invalid_headers", "caller Header names must be unique"⟩) .ok
  SubmissionRequest.prepare platform.tables platform.order platform.requestHash callerID authorized acceptedAt
    ⟨idempotencyKey, input.destinationID, input.method, headers, input.body⟩

def afterResolve (request : Request) : Except HttpError Submission → Handler
  | .error err => refuse request err
  | .ok submission => .working request (.submitting submission)

def afterSubmit (request : Request) : Except StoreError Delivery → Handler
  | .error .idempotencyConflict => refuse request conflict
  | .error .backlogCapacity => .answered request backlogFull
  | .error _ => .answered request unavailable
  | .ok delivery => .answered request (accepted delivery)

def afterGet (request : Request) (callerID : String) : Option DeliveryRow → Handler
  | none => refuse request notFound
  | some row => .working request (.listing callerID row.load)

def afterReplay (request : Request) : Except StoreError Delivery → Handler
  | .error .notFound => refuse request notFound
  | .error .replayConflict =>
    refuse request ⟨409, "delivery_not_replayable", "delivery is not permanently failed"⟩
  | .error _ => .answered request unavailable
  | .ok delivery => .answered request (accepted delivery)

end Handlers

structure Shared where
  store : Store
  operators : String → Bool

/-- A commit names the request that made it, if any, and the tables before and after it. -/
inductive Label where
  | commit (actor : Option Nat) (r : Readings) (op : Op) (before after : Database)
  | quiet

def Label.of (actor : Option Nat) (before after : Database) : Store.Action → Label
  | .wait => .quiet
  | .commit r op => .commit actor r op before after

inductive Env : Shared → Label → Shared → Prop
  | store {s : Shared} {action : Store.Action} {t : Store} (hStep : Store.Step s.store action t) :
      Env s (.of none s.store.db t.db action) { s with store := t }
  | appoint {s : Shared} (operators : String → Bool) : Env s .quiet { s with operators := operators }

def Shared.wait (s : Shared) (t : Time) : Shared := { s with store := { s.store with now := t } }

inductive Act (platform : Platform) (i : Nat) : Shared → Handler → Label → Shared → Handler → Prop
  | arrive {s : Shared} (request : Request) : Act platform i s .idle .quiet s (.working request .authenticating)
  | unauthorized {s : Shared} {request : Request} (hKey : bearer request.authorization = none) :
      Act platform i s (.working request .authenticating) .quiet s (afterAuthenticate request none)
  | authenticate {s : Shared} {request : Request} {apiKey : String} {t : Time}
      (hKey : bearer request.authorization = some apiKey) (hClock : s.store.now ≤ t) :
      Act platform i s (.working request .authenticating) .quiet (s.wait t)
        (afterAuthenticate request (s.store.db.authenticatePrincipal (platform.digest apiKey) s.operators))
  | resolve {s : Shared} {authorization idempotencyKey callerID : String} {body : Except DecodeError Input}
      {t : Time} {acceptedAt : GoTime} (hClock : s.store.now ≤ t) :
      Act platform i s (.working (.submit authorization idempotencyKey body) (.resolving callerID)) .quiet (s.wait t)
        (afterResolve (.submit authorization idempotencyKey body)
          (admission platform callerID idempotencyKey body (s.store.db.authorizedDestination callerID) acceptedAt))
  | unresolved {s : Shared} {authorization idempotencyKey callerID : String} {body : Except DecodeError Input}
      {t : Time} {acceptedAt : GoTime} (hClock : s.store.now ≤ t)
      -- The checks before the call have passed.
      (hAsked : admission platform callerID idempotencyKey body (fun _ => none) acceptedAt = .error forbidden) :
      Act platform i s (.working (.submit authorization idempotencyKey body) (.resolving callerID)) .quiet (s.wait t)
        (.answered (.submit authorization idempotencyKey body) unavailable)
  | submit {s : Shared} {request : Request} {submission : Submission} {deliveryID outboxID traceID : UUID}
      {reply : Except StoreError Delivery} {action : Store.Action} {t : Store}
      (hServed : Served s.store (.submit platform.backlogLimit submission deliveryID outboxID traceID)
        (fun r => Prod.fst <$>
          ReliableNotifier.submit r platform.backlogLimit submission deliveryID outboxID traceID s.store.db)
        reply action t) :
      Act platform i s (.working request (.submitting submission)) (.of (some i) s.store.db t.db action)
        { s with store := t } (afterSubmit request reply)
  | get {s : Shared} {authorization id callerID : String} {deliveryID : UUID} {t : Time}
      (hID : platform.parseUUID id = some deliveryID) (hClock : s.store.now ≤ t) :
      Act platform i s (.working (.get authorization id) (.getting callerID)) .quiet (s.wait t)
        (afterGet (.get authorization id) callerID (s.store.db.get callerID deliveryID))
  | list {s : Shared} {request : Request} {callerID : String} {delivery : Delivery} {t : Time}
      (hClock : s.store.now ≤ t) :
      Act platform i s (.working request (.listing callerID delivery)) .quiet (s.wait t)
        (.answered request
          (found delivery (s.store.db.listAttemptSummaries callerID delivery.id statusAttemptLimit)))
  | replay {s : Shared} {authorization id operatorID reason : String} {body : Option String}
      {deliveryID auditID outboxID traceID : UUID} {replayedAt : Time} {reply : Except StoreError Delivery}
      {action : Store.Action} {t : Store} (hID : platform.parseUUID id = some deliveryID)
      (hServed : Served s.store (.replay replayedAt deliveryID operatorID reason auditID outboxID traceID)
        (fun r => Prod.fst <$> ReliableNotifier.replay replayedAt r deliveryID operatorID reason auditID outboxID
          traceID s.store.db)
        reply action t) :
      Act platform i s (.working (.replay authorization id body) (.replaying operatorID reason))
        (.of (some i) s.store.db t.db action) { s with store := t }
        (afterReplay (.replay authorization id body) reply)
  -- The read fails, or PostgreSQL does not take the identifier for a `uuid`.
  | failed {s : Shared} {request : Request} {stage : Stage} {t : Time} (hClock : s.store.now ≤ t)
      (hStage : stage = .authenticating ∧ bearer request.authorization ≠ none ∨
        (∃ callerID, stage = .getting callerID) ∨ (∃ callerID delivery, stage = .listing callerID delivery) ∨
        ∃ operatorID reason, stage = .replaying operatorID reason) :
      Act platform i s (.working request stage) .quiet (s.wait t) (.answered request unavailable)

abbrev World := Interleaving.World Shared Handler

abbrev Step (platform : Platform) : World → Label → World → Prop := Interleaving.Step Env (Act platform)

def start (t : Time) : World := ⟨⟨.start t, fun _ => false⟩, fun _ => .idle⟩

def Run (platform : Platform) (history : List Label) (w : World) : Prop :=
  ∃ t, LabelledRun.Run (Step platform) (start t) history w

end Api

end ReliableNotifier
