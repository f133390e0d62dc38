import ReliableNotifier.Library.Json.Marshal
import ReliableNotifier.Store.Bootstrap
import ReliableNotifier.Wire.RoundTrip

/-! # The answers to a submission, call by call

`Submit` answers a new submission from its arguments. A repeated one it answers, as `Get` does,
from the row, where times are counted in microseconds and the headers have been JSON. The three
answers are the same for times in whole microseconds and headers in UTF-8, and for no others.
-/

namespace ReliableNotifier.Raw

open Checked GoStrings RowTable Transaction

structure Submission where
  callerID : Bytes
  idempotencyKey : Bytes
  requestHash : Vector UInt8 32
  destinationID : Bytes
  destinationVersion : Int
  method : Bytes
  callerHeaders : Option HeaderMap
  body : Slice UInt8
  supplierIdempotencyValue : Bytes
  acceptedAt : GoTime
  retryDeadline : GoTime
  deriving DecidableEq

/-- The lease fields are set by a claim only, and `none` is the zero time. -/
structure Delivery where
  id : Bytes
  callerID : Bytes
  destinationID : Bytes
  destinationVersion : Int
  method : Bytes
  callerHeaders : Option HeaderMap
  body : Slice UInt8
  supplierIdempotencyValue : Bytes
  status : Status
  generation : Nat
  acceptedAt : GoTime
  retryDeadline : GoTime
  nextAttemptAt : GoTime
  leaseOwner : Bytes
  leaseToken : Bytes
  leaseUntil : Option GoTime
  deriving DecidableEq

/-! ## Headers in a `jsonb` column -/

/-- What `Submit` writes to `caller_headers`: a null for the nil map, or an object of strings. -/
inductive Jsonb where
  | null
  | object (members : HeaderMap)
  deriving DecidableEq

/-- `json.Marshal` of a map, which may be nil. -/
def marshalHeaders : Option HeaderMap → Bytes
  | none => Json.nullToken
  | some headers => Json.marshalMap headers

/-- A `jsonb` value from its text. -/
def Jsonb.input (text : Bytes) : Except SqlError Jsonb :=
  match Json.document text with
  | some .null => .ok .null
  | some v =>
    match Json.stringMembers v with
    | some entries => do
      -- PostgreSQL has no string with the byte 0, in JSON either
      ensure (entries.all fun entry => (entry.1 ++ entry.2).all (· ≠ 0)) .invalidText
      return .object (.fill .empty entries)
    | none => .error .invalidText
  | none => .error .invalidText

def Jsonb.unmarshal : Jsonb → Option HeaderMap
  | null => none
  | object members => some members

/-! ## Tables -/

structure DeliveryRow where
  id : UUID
  callerID : Bytes
  idempotencyKey : Bytes
  requestHash : Bytes
  destinationID : Bytes
  destinationVersion : Int
  method : Bytes
  callerHeaders : Jsonb
  body : Bytes
  supplierIdempotencyValue : Bytes
  status : Status
  generation : Nat
  acceptedAt : Time
  retryDeadline : Time
  nextAttemptAt : Time
  deriving DecidableEq

structure OutboxEventRow where
  id : UUID
  deliveryID : UUID
  generation : Nat
  traceID : UUID
  availableAt : Time
  deriving DecidableEq

structure Deliveries where
  deliveries : List DeliveryRow
  outboxEvents : List OutboxEventRow
  deriving DecidableEq

abbrev Tables := Registry Deliveries

/-- The columns that `queryDelivery` selects. -/
def DeliveryRow.load (row : DeliveryRow) : Delivery where
  id := Json.ascii (uuidText row.id)
  callerID := row.callerID
  destinationID := row.destinationID
  destinationVersion := row.destinationVersion
  method := row.method
  callerHeaders := row.callerHeaders.unmarshal
  body := some row.body
  supplierIdempotencyValue := row.supplierIdempotencyValue
  status := row.status
  generation := row.generation
  acceptedAt := nanoseconds row.acceptedAt
  retryDeadline := nanoseconds row.retryDeadline
  nextAttemptAt := nanoseconds row.nextAttemptAt
  leaseOwner := []
  leaseToken := []
  leaseUntil := none

/-- A `uuid` value from its text, in the form in which the program writes it. -/
def uuidInput (text : Bytes) : Except SqlError UUID := do
  ensure (Wire.validUUID text) .invalidText
  return Wire.uuidValue text

/-- A nil slice is a NULL. -/
def notNull {α : Type} : Slice α → Except SqlError (List α)
  | some elements => .ok elements
  | none => .error .nullValue

namespace Tables

/-- `queryDelivery`, with the hash that it returns beside the delivery; `none` is `pgx.ErrNoRows`. -/
def queryDelivery (condition : DeliveryRow → Bool) (t : Tables) : Option (Delivery × Bytes) :=
  (t.others.deliveries.find? condition).map fun row => (row.load, row.requestHash)

def queryDeliveryByIdempotency (callerID idempotencyKey : Bytes) (t : Tables) :
    Except SqlError (Option (Delivery × Bytes)) := do
  ensure (isText callerID && isText idempotencyKey) .invalidText
  return queryDelivery (fun row => row.callerID = callerID && row.idempotencyKey = idempotencyKey) t

def activeCount (t : Tables) : Nat :=
  t.others.deliveries.countP fun row => row.status = .pending || row.status = .delivering

def insertDelivery (deliveryID : Bytes) (submission : Submission) (headersJSON : Bytes) (t : Tables) :
    Except SqlError Tables := do
  let id ← uuidInput deliveryID
  ensure ([submission.callerID, submission.idempotencyKey, submission.destinationID, submission.method,
    submission.supplierIdempotencyValue].all isText) .invalidText
  let callerHeaders ← Jsonb.input headersJSON
  let body ← notNull submission.body
  ensure (t.others.deliveries.all fun row => row.id ≠ id) .uniqueViolation
  ensure (t.others.deliveries.all fun row =>
    !(row.callerID = submission.callerID && row.idempotencyKey = submission.idempotencyKey)) .uniqueViolation
  ensure (t.callers.any fun caller => caller.id = submission.callerID) .foreignKeyViolation
  ensure (t.destinationVersion submission.destinationID submission.destinationVersion).isSome .foreignKeyViolation
  let row : DeliveryRow := {
    id := id
    callerID := submission.callerID
    idempotencyKey := submission.idempotencyKey
    requestHash := submission.requestHash.toList
    destinationID := submission.destinationID
    destinationVersion := submission.destinationVersion
    method := submission.method
    callerHeaders := callerHeaders
    body := body
    supplierIdempotencyValue := submission.supplierIdempotencyValue
    status := .pending
    generation := 0
    acceptedAt := microseconds submission.acceptedAt
    retryDeadline := microseconds submission.retryDeadline
    nextAttemptAt := microseconds submission.acceptedAt }
  return { t with others := { t.others with deliveries := t.others.deliveries ++ [row] } }

def insertEvent (outboxID deliveryID traceID : Bytes) (acceptedAt : GoTime) (t : Tables) :
    Except SqlError Tables := do
  let id ← uuidInput outboxID
  let delivery ← uuidInput deliveryID
  let trace ← uuidInput traceID
  ensure (t.others.outboxEvents.all fun event => event.id ≠ id) .uniqueViolation
  ensure (t.others.outboxEvents.all fun event => !(event.deliveryID = delivery && event.generation = 0))
    .uniqueViolation
  ensure (t.others.deliveries.any fun row => row.id = delivery) .foreignKeyViolation
  let event : OutboxEventRow := {
    id := id
    deliveryID := delivery
    generation := 0
    traceID := trace
    availableAt := microseconds acceptedAt }
  return { t with others := { t.others with outboxEvents := t.others.outboxEvents ++ [event] } }

end Tables

/-! ## Programs -/

/-- The calls of `Submit`, by the text that wraps their errors. -/
inductive SubmitCall where
  | begin | lockAdmission | queryIdempotentDelivery | commitIdempotentLookup | countActiveBacklog | insertDelivery
  | insertInitialEvent | commit
  deriving DecidableEq, Repr

inductive SubmitError where
  | idempotencyConflict
  | backlogCapacity
  | generateUUID
  | failed (call : SubmitCall) (err : SqlError)
  deriving DecidableEq, Repr

/-- The random bytes of the three identifiers, as far as they can be read. -/
structure Draws where
  delivery : Option (Vector UInt8 16)
  outbox : Option (Vector UInt8 16)
  trace : Option (Vector UInt8 16)

def newUUID (random : Option (Vector UInt8 16)) : Except SubmitError Bytes :=
  match random with
  | some bytes => .ok (Wire.newUUID bytes)
  | none => .error .generateUUID

namespace Submission

def withSupplierValue (submission : Submission) (deliveryID : Bytes) : Submission :=
  if submission.supplierIdempotencyValue = [] then { submission with supplierIdempotencyValue := deliveryID }
  else submission

theorem withSupplierValue_eq (submission : Submission) (deliveryID : Bytes) :
    ∃ value, submission.withSupplierValue deliveryID = { submission with supplierIdempotencyValue := value } := by
  unfold withSupplierValue
  split
  · exact ⟨deliveryID, rfl⟩
  · exact ⟨submission.supplierIdempotencyValue, rfl⟩

def accepted (submission : Submission) (deliveryID : Bytes) : Delivery where
  id := deliveryID
  callerID := submission.callerID
  destinationID := submission.destinationID
  destinationVersion := submission.destinationVersion
  method := submission.method
  callerHeaders := submission.callerHeaders
  body := submission.body
  supplierIdempotencyValue := submission.supplierIdempotencyValue
  status := .pending
  generation := 0
  acceptedAt := submission.acceptedAt
  retryDeadline := submission.retryDeadline
  nextAttemptAt := submission.acceptedAt
  leaseOwner := []
  leaseToken := []
  leaseUntil := none

end Submission

section Program

open Client SubmitError

def submitStatements (server : Server SqlError) (backlogLimit : Int) (draws : Draws) (submission : Submission) :
    Client SubmitError Tables Delivery := do
  -- the advisory lock keeps other submissions out until the end of the transaction and changes no table
  wrap (failed .lockAdmission) (exec server .ok)
  let found ← wrap (failed .queryIdempotentDelivery)
    (query server (Tables.queryDeliveryByIdempotency submission.callerID submission.idempotencyKey))
  match found with
  | some (existing, existingHash) =>
    check (existingHash = submission.requestHash.toList) idempotencyConflict
    wrap (failed .commitIdempotentLookup) (commit server fun _ => .ok ())
    return existing
  | none =>
    let active ← wrap (failed .countActiveBacklog) (query server fun t => .ok t.activeCount)
    check (active < backlogLimit) backlogCapacity
    let deliveryID ← lift (newUUID draws.delivery)
    let outboxID ← lift (newUUID draws.outbox)
    let traceID ← lift (newUUID draws.trace)
    let submission := submission.withSupplierValue deliveryID
    let headersJSON := marshalHeaders submission.callerHeaders
    wrap (failed .insertDelivery) (exec server (Tables.insertDelivery deliveryID submission headersJSON))
    wrap (failed .insertInitialEvent)
      (exec server (Tables.insertEvent outboxID deliveryID traceID submission.acceptedAt))
    wrap (failed .commit) (commit server fun _ => .ok ())
    return submission.accepted deliveryID

def submit (server : Server SqlError) (backlogLimit : Int) (draws : Draws) (submission : Submission) :
    Client SubmitError Tables Delivery :=
  transaction server (failed .begin) (submitStatements server backlogLimit draws submission)

end Program

inductive GetError where
  | notFound
  | failed (err : SqlError)
  deriving DecidableEq, Repr

/-- `queryDelivery` with `WHERE id = $1 AND caller_id = $2`. -/
def Tables.deliveryOf (callerID deliveryID : Bytes) (t : Tables) : Except SqlError (Option (Delivery × Bytes)) := do
  let id ← uuidInput deliveryID
  ensure (isText callerID) .invalidText
  return Tables.queryDelivery (fun row => row.id = id && row.callerID = callerID) t

def get (server : Server SqlError) (callerID deliveryID : Bytes) : Client GetError Tables Delivery := do
  let found ← Client.wrap .failed (Client.read server (Tables.deliveryOf callerID deliveryID))
  match found with
  | some (delivery, _) => return delivery
  | none => Client.fail .notFound

/-- What `Submit` does after the lookup, on the tables. -/
def answer (backlogLimit : Int) (draws : Draws) (submission : Submission) (found : Option (Delivery × Bytes))
    (t : Tables) : Except SubmitError (Delivery × Tables) :=
  match found with
  | some (existing, existingHash) => do
    ensure (existingHash = submission.requestHash.toList) .idempotencyConflict
    return (existing, t)
  | none => do
    ensure (t.activeCount < backlogLimit) .backlogCapacity
    let deliveryID ← newUUID draws.delivery
    let outboxID ← newUUID draws.outbox
    let traceID ← newUUID draws.trace
    let submission := submission.withSupplierValue deliveryID
    let headersJSON := marshalHeaders submission.callerHeaders
    let t ← (t.insertDelivery deliveryID submission headersJSON).mapError (.failed .insertDelivery)
    let t ← (t.insertEvent outboxID deliveryID traceID submission.acceptedAt).mapError (.failed .insertInitialEvent)
    return (submission.accepted deliveryID, t)

/-- The statements of `Submit` as one function on the tables. -/
def accept (backlogLimit : Int) (draws : Draws) (submission : Submission) (t : Tables) :
    Except SubmitError (Delivery × Tables) := do
  let found ← (t.queryDeliveryByIdempotency submission.callerID submission.idempotencyKey).mapError
    (.failed .queryIdempotentDelivery)
  answer backlogLimit draws submission found t

theorem statements_accept (server : Server SqlError) (backlogLimit : Int) (draws : Draws) (submission : Submission) :
    Commits server (fun _ => True) (submitStatements server backlogLimit draws submission)
      (accept backlogLimit draws submission) := by
  refine Commits.congr (.exec_bind (.query_bind (g := answer backlogLimit draws submission) fun found => ?_))
    fun t => rfl
  cases found with
  | some existing => exact Commits.congr (.check_bind (.commit _ _ fun _ _ _ => trivial)) fun t => rfl
  | none =>
    refine Commits.congr (.query_bind fun active => .check_bind (.lift_bind fun deliveryID => .lift_bind fun outboxID =>
      .lift_bind fun traceID => .exec_bind (.exec_bind (.commit _ _ fun _ _ _ => trivial)))) fun t => rfl

/-! ## What a row gives back -/

/-- A delivery after its way through a row. -/
def Delivery.readBack (delivery : Delivery) : Delivery :=
  { delivery with
    callerHeaders := delivery.callerHeaders.map Json.mendMap
    acceptedAt := nanoseconds (microseconds delivery.acceptedAt)
    retryDeadline := nanoseconds (microseconds delivery.retryDeadline)
    nextAttemptAt := nanoseconds (microseconds delivery.nextAttemptAt) }

theorem unmarshal_input {headers : Option HeaderMap} {column : Jsonb}
    (h : Jsonb.input (marshalHeaders headers) = .ok column) : column.unmarshal = headers.map Json.mendMap := by
  cases headers with
  | none =>
    have hNull : Json.document Json.nullToken = some .null := Json.document_of_reads .null
    rw [marshalHeaders, Jsonb.input, hNull] at h
    cases h
    rfl
  | some headers =>
    rw [marshalHeaders, Jsonb.input, Json.document_of_reads (Json.reads_marshalMap headers)] at h
    simp only [Json.stringMembers_members, bind_ok_iff, pure_ok_iff] at h
    obtain ⟨_, _, rfl⟩ := h
    rfl

theorem nanoseconds_microseconds_iff {t : GoTime} : nanoseconds (microseconds t) = t ↔ 1000 ∣ t := by
  have hWhole (n : Int) : n / 1000 * 1000 = n ↔ 1000 ∣ n := by
    omega
  exact hWhole t

/-- What has to hold of the times and headers of a submission for a row to give them back. -/
structure Submission.Kept (submission : Submission) : Prop where
  acceptedAt : 1000 ∣ submission.acceptedAt
  retryDeadline : 1000 ∣ submission.retryDeadline
  callerHeaders : ∀ headers, submission.callerHeaders = some headers →
    ∀ entry ∈ headers.entries, validString entry.1 = true ∧ validString entry.2 = true

theorem readBack_accepted_iff {submission : Submission} {deliveryID : Bytes} :
    (submission.accepted deliveryID).readBack = submission.accepted deliveryID ↔ submission.Kept := by
  have hHeaders : submission.callerHeaders.map Json.mendMap = submission.callerHeaders ↔
      ∀ headers, submission.callerHeaders = some headers →
        ∀ entry ∈ headers.entries, validString entry.1 = true ∧ validString entry.2 = true := by
    cases submission.callerHeaders with
    | none => exact ⟨nofun, fun _ => rfl⟩
    | some headers =>
      rw [Option.map_some, Option.some_inj, Json.mendMap_eq_self_iff]
      constructor
      · rintro h _ ⟨⟩
        exact h
      · intro h
        exact h headers rfl
  constructor
  · intro h
    refine ⟨?_, ?_, hHeaders.mp (congrArg Delivery.callerHeaders h)⟩
    · exact nanoseconds_microseconds_iff.mp (congrArg Delivery.acceptedAt h)
    · exact nanoseconds_microseconds_iff.mp (congrArg Delivery.retryDeadline h)
  · intro h
    have hAccepted := nanoseconds_microseconds_iff.mpr h.acceptedAt
    have hDeadline := nanoseconds_microseconds_iff.mpr h.retryDeadline
    simp only [Delivery.readBack, Submission.accepted, hAccepted, hDeadline, hHeaders.mpr h.callerHeaders]

/-! ## The row of a new delivery -/

namespace Tables

variable {t t' : Tables} {submission : Submission} {deliveryID : Bytes}

/-- The row of the delivery: the only one under its identifier and the only one under its key. -/
structure Holds (submission : Submission) (deliveryID : Bytes) (row : DeliveryRow) (t : Tables) : Prop where
  texts : isText submission.callerID = true ∧ isText submission.idempotencyKey = true
  id : uuidInput deliveryID = .ok row.id
  byKey : t.others.deliveries.find? (fun row =>
    row.callerID = submission.callerID && row.idempotencyKey = submission.idempotencyKey) = some row
  byID : t.others.deliveries.find? (fun other => other.id = row.id && other.callerID = submission.callerID) = some row
  requestHash : row.requestHash = submission.requestHash.toList

theorem insertDelivery_ok
    (h : t.insertDelivery deliveryID submission (marshalHeaders submission.callerHeaders) = .ok t')
    (hText : Json.ascii (uuidText (Wire.uuidValue deliveryID)) = deliveryID) :
    ∃ row, Holds submission deliveryID row t' ∧ row.load = (submission.accepted deliveryID).readBack := by
  simp only [insertDelivery, bind_ok_iff, ensure_ok_iff, pure_ok_iff] at h
  obtain ⟨id, hID, _, hTexts, column, hColumn, body, hBody, _, hFreeID, _, hFreeKey, _, _, _, _, rfl⟩ := h
  have hValue : id = Wire.uuidValue deliveryID := by
    simp only [uuidInput, bind_ok_iff, pure_ok_iff] at hID
    obtain ⟨_, _, rfl⟩ := hID
    rfl
  have hBytes : submission.body = some body := by
    unfold notNull at hBody
    split at hBody
    · cases hBody
      assumption
    · cases hBody
  have hAll := List.all_eq_true.mp hTexts
  refine ⟨_, ⟨⟨hAll _ (by simp), hAll _ (by simp)⟩, hID, find?_append_new (fun old hOld => ?_) (by simp),
    find?_append_new (fun old hOld => ?_) (by simp), rfl⟩, ?_⟩
  · simpa only [Bool.not_eq_true'] using List.all_eq_true.mp hFreeKey old hOld
  · have hOther : old.id ≠ id := of_decide_eq_true (List.all_eq_true.mp hFreeID old hOld)
    simp [hOther]
  · simp only [DeliveryRow.load, Delivery.readBack, Submission.accepted, hValue, hText, unmarshal_input hColumn, hBytes]

theorem insertEvent_ok {outboxID traceID : Bytes} {acceptedAt : GoTime}
    (h : t.insertEvent outboxID deliveryID traceID acceptedAt = .ok t') :
    t'.others.deliveries = t.others.deliveries := by
  simp only [insertEvent, bind_ok_iff, pure_ok_iff] at h
  obtain ⟨_, _, _, _, _, _, _, _, _, _, _, _, rfl⟩ := h
  rfl

end Tables

theorem accept_new {backlogLimit : Int} {draws : Draws} {submission : Submission} {t t' : Tables} {delivery : Delivery}
    (h : accept backlogLimit draws submission t = .ok (delivery, t'))
    (hNew : t.queryDeliveryByIdempotency submission.callerID submission.idempotencyKey = .ok none) :
    ∃ value row, delivery = { submission with supplierIdempotencyValue := value }.accepted delivery.id ∧
      Tables.Holds submission delivery.id row t' ∧ row.load = delivery.readBack := by
  rw [accept, hNew] at h
  obtain ⟨_, hNone, h⟩ := bind_ok_iff.mp h
  cases hNone
  simp only [answer, bind_ok_iff, mapError_ok_iff, pure_ok_iff] at h
  obtain ⟨_, _, deliveryID, hID, outboxID, _, traceID, _, middle, hInsert, last, hEvent, hReply⟩ := h
  cases hReply
  have hText : Json.ascii (uuidText (Wire.uuidValue deliveryID)) = deliveryID := by
    unfold newUUID at hID
    split at hID
    · cases hID
      exact Wire.uuidText_newUUID _
    · cases hID
  obtain ⟨value, hValue⟩ := submission.withSupplierValue_eq deliveryID
  rw [hValue] at hInsert ⊢
  obtain ⟨row, hRow, hLoad⟩ := Tables.insertDelivery_ok hInsert hText
  have hSame := Tables.insertEvent_ok hEvent
  refine ⟨value, row, rfl, ⟨hRow.texts, hRow.id, ?_, ?_, hRow.requestHash⟩, hLoad⟩
  · rw [hSame]
    exact hRow.byKey
  · rw [hSame]
    exact hRow.byID

/-! ## The whole calls -/

/-- The answer of `Submit`, and the tables after it. -/
def submitted (server : Server SqlError) (backlogLimit : Int) (draws : Draws) (submission : Submission) (t : Tables) :
    Except SubmitError Delivery × Tables :=
  ((submit server backlogLimit draws submission ⟨t, none, 0⟩).1,
    (submit server backlogLimit draws submission ⟨t, none, 0⟩).2.stored)

def got (server : Server SqlError) (callerID deliveryID : Bytes) (t : Tables) : Except GetError Delivery :=
  (get server callerID deliveryID ⟨t, none, 0⟩).1

section Calls

variable {server : Server SqlError} {submission : Submission} {t t' : Tables} {delivery : Delivery}

theorem submitted_cases (server : Server SqlError) (backlogLimit : Int) (draws : Draws) (submission : Submission)
    (t : Tables) :
    (∃ err, submitted server backlogLimit draws submission t = (.error err, t) ∧
      (server.Up → accept backlogLimit draws submission t = .error err)) ∨
    (∃ err t', submitted server backlogLimit draws submission t = (.error err, t') ∧ ¬server.Up) ∨
    ∃ delivery t', submitted server backlogLimit draws submission t = (.ok delivery, t') ∧
      accept backlogLimit draws submission t = .ok (delivery, t') := by
  unfold submitted submit
  rcases transaction_cases (statements_accept server backlogLimit draws submission) (.failed .begin) ⟨t, none, 0⟩ with
    ⟨err, next, hOut, hStored, hRefused⟩ | ⟨err, _, next, hOut, _, hDown, _⟩ | ⟨delivery, next, hOut, hAccept⟩
  · rw [hOut]
    exact .inl ⟨err, Prod.ext rfl hStored, hRefused⟩
  · rw [hOut]
    exact .inr (.inl ⟨err, next.stored, rfl, hDown⟩)
  · rw [hOut]
    exact .inr (.inr ⟨delivery, next.stored, rfl, hAccept⟩)

theorem submitted_ok {backlogLimit : Int} {draws : Draws}
    (h : submitted server backlogLimit draws submission t = (.ok delivery, t')) :
    accept backlogLimit draws submission t = .ok (delivery, t') := by
  rcases submitted_cases server backlogLimit draws submission t with
    ⟨err, hOut, _⟩ | ⟨err, _, hOut, _⟩ | ⟨reply, last, hOut, hAccept⟩
  · cases h.symm.trans hOut
  · cases h.symm.trans hOut
  · cases h.symm.trans hOut
    exact hAccept

theorem submitted_of_accept {backlogLimit : Int} {draws : Draws} (hUp : server.Up)
    (h : accept backlogLimit draws submission t = .ok (delivery, t')) :
    submitted server backlogLimit draws submission t = (.ok delivery, t') := by
  rcases submitted_cases server backlogLimit draws submission t with
    ⟨err, _, hRefused⟩ | ⟨_, _, _, hDown⟩ | ⟨reply, last, hOut, hAccept⟩
  · cases h.symm.trans (hRefused hUp)
  · exact absurd hUp hDown
  · cases h.symm.trans hAccept
    exact hOut

theorem got_cases (server : Server SqlError) {callerID deliveryID requestHash : Bytes}
    (h : t.deliveryOf callerID deliveryID = .ok (some (delivery, requestHash))) :
    (∃ err, ¬server.Up ∧ got server callerID deliveryID t = .error err) ∨
      got server callerID deliveryID t = .ok delivery := by
  rcases read_cases server (Tables.deliveryOf callerID deliveryID) ⟨t, none, 0⟩ with
    ⟨err, next, hRefused, hRead⟩ | ⟨found, hFound, hRead⟩
  · refine .inl ⟨.failed err, fun hUp => ?_, ?_⟩
    · cases h.symm.trans (hRefused hUp)
    · rw [got, get, Client.bind_of_error (Client.wrap_of_error hRead)]
  · cases h.symm.trans hFound
    refine .inr ?_
    rw [got, get, Client.bind_of_ok (Client.wrap_of_ok hRead)]
    rfl

variable {deliveryID : Bytes} {row : DeliveryRow}

theorem Tables.Holds.accept (h : Tables.Holds submission deliveryID row t) (backlogLimit : Int) (draws : Draws) :
    Raw.accept backlogLimit draws submission t = .ok (row.load, t) := by
  have hFound : t.queryDeliveryByIdempotency submission.callerID submission.idempotencyKey =
      .ok (some (row.load, row.requestHash)) := by
    rw [Tables.queryDeliveryByIdempotency, h.texts.1, h.texts.2, Tables.queryDelivery, h.byKey]
    rfl
  rw [Raw.accept, hFound]
  change Raw.answer backlogLimit draws submission (some (row.load, row.requestHash)) t = _
  rw [answer, h.requestHash, decide_eq_true rfl]
  rfl

theorem Tables.Holds.deliveryOf (h : Tables.Holds submission deliveryID row t) :
    t.deliveryOf submission.callerID deliveryID = .ok (some (row.load, row.requestHash)) := by
  rw [Tables.deliveryOf, h.id]
  change (ensure (isText submission.callerID) _ >>= fun _ => pure (Tables.queryDelivery _ t)) = _
  rw [h.texts.1, Tables.queryDelivery, h.byID]
  rfl

end Calls

/-- However the later calls fare, their answers are that to the new submission if and only if its times are whole
microseconds and its headers are in UTF-8. If they get through they answer, and only times and headers differ. -/
theorem answers_alike_iff {server : Server SqlError} {backlogLimit : Int} {draws : Draws} {submission : Submission}
    {t t' : Tables} {delivery : Delivery}
    (h : submitted server backlogLimit draws submission t = (.ok delivery, t'))
    (hNew : t.queryDeliveryByIdempotency submission.callerID submission.idempotencyKey = .ok none) :
    ((∀ server limit draws reply last, submitted server limit draws submission t' = (.ok reply, last) →
          reply = delivery) ∧
        (∀ server reply, got server submission.callerID delivery.id t' = .ok reply → reply = delivery) ↔
      submission.Kept) ∧
    ∀ server limit draws, Server.Up server →
      submitted server limit draws submission t' = (.ok delivery.readBack, t') ∧
        got server submission.callerID delivery.id t' = .ok delivery.readBack := by
  obtain ⟨value, row, hReply, hRow, hLoad⟩ := accept_new (submitted_ok h) hNew
  have hKept : delivery.readBack = delivery ↔ submission.Kept := by
    have hIff := @readBack_accepted_iff { submission with supplierIdempotencyValue := value } delivery.id
    rw [← hReply] at hIff
    exact hIff.trans ⟨fun h => ⟨h.1, h.2, h.3⟩, fun h => ⟨h.1, h.2, h.3⟩⟩
  have hAccept := hRow.accept
  have hFound := hRow.deliveryOf
  rw [hLoad] at hFound
  simp only [hLoad] at hAccept
  have hLater (server : Server SqlError) (limit : Int) (draws : Draws) (hUp : server.Up) :
      submitted server limit draws submission t' = (.ok delivery.readBack, t') ∧
        got server submission.callerID delivery.id t' = .ok delivery.readBack := by
    refine ⟨submitted_of_accept hUp (hAccept limit draws), ?_⟩
    rcases got_cases server hFound with ⟨_, hDown, _⟩ | hGot
    · exact absurd hUp hDown
    · exact hGot
  refine ⟨⟨?_, ?_⟩, hLater⟩
  -- a server that lets every call through shows a difference if there is one
  · rintro ⟨hSubmit, _⟩
    have hUp : Server.Up ⟨fun _ => .answered, SqlError.transactionAborted⟩ := fun _ => rfl
    exact hKept.mp (hSubmit _ backlogLimit draws _ _ (hLater _ backlogLimit draws hUp).1)
  · intro hTimes
    have hSame := hKept.mpr hTimes
    constructor
    · intro server limit draws reply last hAgain
      cases (hAccept limit draws).symm.trans (submitted_ok hAgain)
      exact hSame
    · intro server reply hGet
      rcases got_cases server hFound with ⟨_, _, hGot⟩ | hGot
      · cases hGot.symm.trans hGet
      · cases hGot.symm.trans hGet
        exact hSame

def order (acceptedAt : GoTime) : Submission where
  callerID := encode "shop"
  idempotencyKey := encode "order-1"
  requestHash := .replicate 32 0
  destinationID := encode "orders"
  destinationVersion := 1
  method := encode "POST"
  callerHeaders := some (SortedMap.empty.insert (encode "x-kind") (encode "test"))
  body := some [1, 2, 3]
  supplierIdempotencyValue := []
  acceptedAt := acceptedAt
  retryDeadline := acceptedAt + day

def drawn (delivery : UInt8) : Draws := ⟨some (.replicate 16 delivery), some (.replicate 16 2), some (.replicate 16 3)⟩

def orderAnswer (acceptedAt : GoTime) : Delivery :=
  ((order acceptedAt).withSupplierValue (Wire.newUUID (.replicate 16 1))).accepted (Wire.newUUID (.replicate 16 1))

def orderTables (acceptedAt : GoTime) : Tables :=
  (submitted upServer 10 (drawn 1) (order acceptedAt) (ordersTables ⟨[], []⟩)).2

/-- An order five microseconds after the start. -/
theorem answers_alike_microseconds :
    submitted upServer 10 (drawn 1) (order 5000) (ordersTables ⟨[], []⟩) = (.ok (orderAnswer 5000), orderTables 5000) ∧
      submitted upServer 10 (drawn 4) (order 5000) (orderTables 5000) = (.ok (orderAnswer 5000), orderTables 5000) ∧
      got upServer (encode "shop") (orderAnswer 5000).id (orderTables 5000) = .ok (orderAnswer 5000) := by
  have hFirst : submitted upServer 10 (drawn 1) (order 5000) (ordersTables ⟨[], []⟩) =
      (.ok (orderAnswer 5000), orderTables 5000) := Prod.ext (by decide +kernel) rfl
  obtain ⟨hIff, hLater⟩ := answers_alike_iff hFirst (by decide +kernel)
  obtain ⟨hAgain, hGot⟩ := hLater upServer 10 (drawn 4) fun _ => rfl
  have hKept : (order 5000).Kept := by
    refine ⟨by decide, by decide, ?_⟩
    rintro _ ⟨⟩
    decide +kernel
  have hSame := (hIff.mpr hKept).2 upServer _ hGot
  rw [hSame] at hAgain hGot
  exact ⟨hFirst, hAgain, hGot⟩

/-- An order a nanosecond after the start is answered with that time at first, and with the start later. -/
theorem nanosecond_forgotten :
    Tables.queryDeliveryByIdempotency (encode "shop") (encode "order-1") (ordersTables ⟨[], []⟩) = .ok none ∧
      (submitted upServer 10 (drawn 1) (order 1) (ordersTables ⟨[], []⟩)).1 = .ok (orderAnswer 1) ∧
      (submitted upServer 10 (drawn 4) (order 1) (orderTables 1)).1 = .ok (orderAnswer 1).readBack ∧
      got upServer (encode "shop") (orderAnswer 1).id (orderTables 1) = .ok (orderAnswer 1).readBack ∧
      (orderAnswer 1).acceptedAt = 1 ∧ (orderAnswer 1).readBack.acceptedAt = 0 := by
  decide +kernel

end ReliableNotifier.Raw
