import ReliableNotifier.Api.Headers
import ReliableNotifier.Lifecycle.Constraints

/-! # What the API makes of a request

`API.submit` up to its call of the store, on a request whose JSON has been decoded, and
the check that `API.replay` makes of a reason. Every refusal carries the status, the code
and the text it is answered with.
-/

namespace ReliableNotifier

open Checked

structure HttpError where
  status : Nat
  code : String
  message : String
  deriving DecidableEq

/-- A decoded submission. `body` is missing when `body_base64` does not decode. -/
structure SubmissionRequest where
  idempotencyKey : String
  destinationID : String
  method : String
  headers : Headers
  body : Option (List UInt8)

structure HashInput where
  destinationID : String
  destinationVersion : Int
  method : String
  callerHeaders : Headers
  body : List UInt8

def maxDeliveryPayloadBytes : Nat := 256 * 1024

def payloadSize (headers : Headers) (body : List UInt8) : Nat :=
  body.length + (headers.entries.map fun entry => entry.1.utf8ByteSize + entry.2.utf8ByteSize).sum

/-- `Store.AuthorizedDestination`, without a row when the destination is denied. -/
def Database.authorizedDestination (callerID destinationID : String) (db : Database) : Option DestinationVersion :=
  if db.callerDestinations.any fun authorized => authorized = (callerID, destinationID) then
    (db.destinations.find? fun destination => destination.id = destinationID).bind fun destination =>
      (db.destinationVersions.find? fun version =>
        version.destinationID = destination.id && version.version = destination.currentVersion).map
        DestinationVersionRow.load
  else none

def HttpError.ofHeader (_ : HeaderError) : HttpError :=
  ⟨400, "invalid_headers", "caller Header names must be unique"⟩

section Submit

variable (tables : CaseTables) (order : RangeOrder) (requestHash : HashInput → Except HeaderError Digest)

/-- The submission that `API.submit` hands to `Store.Submit`. The caller has been authenticated, and
`authorized` is what `AuthorizedDestination` returns. -/
def SubmissionRequest.prepare (callerID : String) (authorized : String → Option DestinationVersion)
    (acceptedAt : GoTime) (request : SubmissionRequest) : Except HttpError Submission := do
  let idempotencyKey := trimmed request.idempotencyKey
  ensure (idempotencyKey ≠ "" && idempotencyKey.utf8ByteSize ≤ 200)
    ⟨400, "invalid_idempotency_key", "Idempotency-Key is required"⟩
  let body ← request.body.elim (.error ⟨400, "invalid_body_encoding", "body_base64 is invalid"⟩) .ok
  let canonicalHeaders ← (canonicalCallerHeaders tables (order.range request.headers)).mapError .ofHeader
  ensure (payloadSize canonicalHeaders body ≤ maxDeliveryPayloadBytes)
    ⟨413, "payload_too_large", "Header and Body payload exceeds 256 KiB"⟩
  let destination ← (authorized request.destinationID).elim
    (.error ⟨403, "destination_forbidden", "destination is not authorized"⟩) .ok
  let method := tables.upper (trimmed request.method)
  ensure (isSupportedOutboundMethod method && containsFold tables destination.allowedMethods method)
    ⟨400, "method_not_allowed", "method is not allowed for destination"⟩
  (validateCallerHeaders tables (order.range canonicalHeaders) destination).mapError
    fun message => ⟨400, "header_not_allowed", message⟩
  let hash ← (requestHash ⟨destination.destinationID, destination.version, method, canonicalHeaders, body⟩).mapError
    fun _ => ⟨400, "invalid_request", "request cannot be canonicalized"⟩
  return {
    callerID := callerID
    idempotencyKey := idempotencyKey
    requestHash := hash
    destinationID := destination.destinationID
    destinationVersion := destination.version
    method := method
    callerHeaders := canonicalHeaders
    body := body
    supplierIdempotencyValue := ""
    acceptedAt := acceptedAt
    retryDeadline := acceptedAt + day }

variable {tables order requestHash}

theorem elim_error_ok_iff {α ε : Type} {x : Option α} {err : ε} {value : α} :
    x.elim (.error err) .ok = (.ok value : Except ε α) ↔ x = some value := by
  cases x <;> simp

/-- What is known of an accepted request. -/
theorem SubmissionRequest.prepare_ok {callerID : String} {authorized : String → Option DestinationVersion}
    {acceptedAt : GoTime} {request : SubmissionRequest} {submission : Submission}
    (h : request.prepare tables order requestHash callerID authorized acceptedAt = .ok submission) :
    submission.FromAPI ∧ ∃ destination, authorized request.destinationID = some destination ∧
      submission.destinationID = destination.destinationID ∧ submission.destinationVersion = destination.version ∧
      isSupportedOutboundMethod submission.method = true ∧
      containsFold tables destination.allowedMethods submission.method = true ∧
      canonicalCallerHeaders tables (order.range request.headers) = .ok submission.callerHeaders ∧
      validateCallerHeaders tables (order.range submission.callerHeaders) destination = .ok () := by
  simp only [prepare, bind_ok_iff, ensure_ok_iff, pure_ok_iff, elim_error_ok_iff, mapError_ok_iff,
    Bool.and_eq_true] at h
  obtain ⟨_, _, body, _, headers, hHeaders, _, _, destination, hDestination, _, ⟨hSupported, hAllowed⟩, _, hValid,
    hash, _, rfl⟩ := h
  exact ⟨⟨rfl, rfl⟩, destination, hDestination, rfl, rfl, hSupported, hAllowed, hHeaders, hValid⟩

end Submit

/-- The reason that `API.replay` hands to `Store.Replay`. -/
def replayReason (raw : String) : Except HttpError String := do
  let reason := trimmed raw
  ensure (reason ≠ "" && reason.utf8ByteSize ≤ 1000)
    ⟨400, "invalid_replay_reason", "reason must contain 1 to 1000 bytes"⟩
  return reason

theorem length_le_utf8ByteSize (s : String) : s.length ≤ s.utf8ByteSize := by
  have h (cs : List Char) : cs.length ≤ (String.ofList cs).utf8ByteSize := by
    induction cs with
    | nil => exact Nat.zero_le _
    | cons c cs ih =>
      have hPos := Char.utf8Size_pos c
      rw [String.ofList_cons, String.utf8ByteSize_append, String.utf8ByteSize_singleton, List.length_cons]
      omega
  simpa [String.length_toList] using h s.toList

/-- A reason that passes can be written into the audit. -/
theorem replayReason_proper {raw reason : String} (h : replayReason raw = .ok reason) (replayedAt : Time)
    (deliveryID auditID outboxID traceID : UUID) (operatorID : String) :
    (Op.replay replayedAt deliveryID operatorID reason auditID outboxID traceID).Proper := by
  simp only [replayReason, bind_ok_iff, ensure_ok_iff, pure_ok_iff, Bool.and_eq_true, decide_eq_true_eq] at h
  obtain ⟨_, ⟨hSome, hBytes⟩, rfl⟩ := h
  refine ⟨Nat.pos_of_ne_zero fun hNone => hSome ?_, (length_le_utf8ByteSize _).trans hBytes⟩
  rw [← String.length_toList, List.length_eq_zero_iff] at hNone
  exact String.toList_injective hNone

end ReliableNotifier
