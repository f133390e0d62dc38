import Mathlib.Algebra.Order.Ring.Int
import Mathlib.Data.Rat.Defs
import ReliableNotifier.Library.Run
import ReliableNotifier.Library.Table

/-! # The tables and the values that pass between PostgreSQL and Go

Columns keep the names of the migrations and a nullable column is an `Option`.
A `timestamptz` counts microseconds and a Go time counts nanoseconds. Each table
constraint of the migrations is a check made by the statement that could break it.
-/

namespace ReliableNotifier

open Checked RowTable

/-- The value of a `uuid` column. Go handles its text form `uuidText`. -/
abbrev UUID := Nat
abbrev Time := Int
abbrev GoTime := Int
abbrev Duration := Int
abbrev Digest := BitVec 256

/-- pgx writes a Go time with the nanoseconds below a microsecond cut off. -/
def microseconds (t : GoTime) : Time := t / 1000

def nanoseconds (t : Time) : GoTime := t * 1000

/-- `Duration.Milliseconds`, multiplied by one millisecond in SQL. -/
def wholeMilliseconds (d : Duration) : Int := d.tdiv 1000000 * 1000

/-- `interval` prints the seconds of a duration with six decimals. -/
def interval (d : Duration) : Int := (d + 500) / 1000

def day : Duration := 24 * 3600 * 1000000000

theorem microseconds_mono {t u : GoTime} (h : t ≤ u) : microseconds t ≤ microseconds u :=
  Int.ediv_le_ediv (by decide) h

theorem microseconds_add_day (t : GoTime) : microseconds (t + day) = microseconds t + microseconds day :=
  Int.add_ediv_of_dvd_right ⟨86400000000, rfl⟩

def hexGroup (width n : Nat) : List Char :=
  List.replicate (width - (Nat.toDigits 16 n).length) '0' ++ Nat.toDigits 16 n

def uuidText (id : UUID) : String :=
  String.ofList (List.intercalate ['-'] [hexGroup 8 (id / 16 ^ 24), hexGroup 4 (id / 16 ^ 20 % 16 ^ 4),
    hexGroup 4 (id / 16 ^ 16 % 16 ^ 4), hexGroup 4 (id / 16 ^ 12 % 16 ^ 4), hexGroup 12 (id % 16 ^ 12)])

/-- What one statement reads from the database clock: `statement_timestamp()` once, and
`clock_timestamp()` anew at every evaluation, first for the `WHERE` clause of a row and
then for its `SET` and `DEFAULT` expressions in column order. -/
structure Readings where
  statement : Time
  scan : UUID → Nat → Time
  write : UUID → Nat → Time
  finish : Time
  statement_le_scan : ∀ row k, statement ≤ scan row k
  scan_mono : ∀ row {j k : Nat}, j ≤ k → scan row j ≤ scan row k
  scan_le_write : ∀ row j k, scan row j ≤ write row k
  write_mono : ∀ row {j k : Nat}, j ≤ k → write row j ≤ write row k
  write_le_finish : ∀ row k, write row k ≤ finish

namespace Readings

def instant (t : Time) : Readings where
  statement := t
  scan _ _ := t
  write _ _ := t
  finish := t
  statement_le_scan _ _ := le_rfl
  scan_mono _ _ _ _ := le_rfl
  scan_le_write _ _ _ := le_rfl
  write_mono _ _ _ _ := le_rfl
  write_le_finish _ _ := le_rfl

theorem scan_le_finish (r : Readings) (row : UUID) (k : Nat) : r.scan row k ≤ r.finish :=
  (r.scan_le_write row k 0).trans (r.write_le_finish row 0)

theorem statement_le_write (r : Readings) (row : UUID) (k : Nat) : r.statement ≤ r.write row k :=
  (r.statement_le_scan row 0).trans (r.scan_le_write row 0 k)

theorem statement_le_finish (r : Readings) : r.statement ≤ r.finish :=
  (r.statement_le_write 0 0).trans (r.write_le_finish 0 0)

end Readings

inductive Status where
  | pending | delivering | succeeded | failedPermanent
  deriving DecidableEq, Repr

inductive ResultClass where
  | succeeded | retryableFailure | permanentFailure
  deriving DecidableEq, Repr

/-- A Go slice: `nil` is different from an empty slice where values are compared deeply. -/
abbrev Slice (α : Type) := Option (List α)

def elements {α : Type} (s : Slice α) : List α := s.getD []

/-- A Go map of header names to values, kept in the order of the names. -/
structure Headers where
  entries : List (String × String)
  sorted : entries.Pairwise fun a b => a.1 < b.1
  deriving DecidableEq

def Headers.empty : Headers := ⟨[], .nil⟩

structure DestinationVersion where
  destinationID : String
  version : Int
  url : String
  networkPolicy : String
  allowedMethods : Slice String
  allowedHeaders : Slice String
  secretRef : String
  credentialHeader : String
  idempotencyHeader : String
  successStatuses : Slice Int
  retryStatuses : Slice Int
  connectTimeout : Duration
  requestTimeout : Duration
  ratePerSecond : Rat
  maxConcurrency : Int
  deriving DecidableEq

structure DestinationVersionRow where
  destinationID : String
  version : Int
  url : String
  networkPolicy : String
  allowedMethods : List String
  allowedHeaders : List String
  secretRef : String
  credentialHeader : String
  idempotencyHeader : String
  successStatuses : List Int
  retryStatuses : List Int
  connectTimeoutMS : Int
  requestTimeoutMS : Int
  ratePerSecond : Rat
  maxConcurrency : Int
  deriving DecidableEq

structure CallerRow where
  id : String
  apiKeyHash : Digest
  isOperator : Bool
  deriving DecidableEq

structure DestinationRow where
  id : String
  currentVersion : Int
  deriving DecidableEq

structure DeliveryRow where
  id : UUID
  callerID : String
  idempotencyKey : String
  requestHash : Digest
  destinationID : String
  destinationVersion : Int
  method : String
  callerHeaders : Headers
  body : List UInt8
  supplierIdempotencyValue : String
  status : Status
  generation : Nat
  acceptedAt : Time
  retryDeadline : Time
  nextAttemptAt : Time
  createdAt : Time
  updatedAt : Time
  leaseOwner : Option String
  leaseToken : Option UUID
  leaseUntil : Option Time
  deriving DecidableEq

structure OutboxEventRow where
  id : UUID
  deliveryID : UUID
  generation : Nat
  traceID : UUID
  availableAt : Time
  publishedAt : Option Time
  leaseOwner : Option String
  leaseToken : Option UUID
  leaseUntil : Option Time
  createdAt : Time
  observedAt : Option Time
  deriving DecidableEq

structure AttemptRow where
  id : UUID
  deliveryID : UUID
  generation : Nat
  leaseToken : Option UUID
  resultClass : ResultClass
  responseStatus : Option Int
  errorCategory : Option String
  startedAt : Time
  finishedAt : Time
  deriving DecidableEq

structure ReplayAuditRow where
  id : UUID
  deliveryID : UUID
  fromGeneration : Nat
  toGeneration : Nat
  operatorID : String
  reason : String
  replayedAt : Time
  deriving DecidableEq

/-- The Go value of a delivery. The lease fields are set by a claim only. -/
structure Delivery where
  id : UUID
  callerID : String
  destinationID : String
  destinationVersion : Int
  method : String
  callerHeaders : Headers
  body : List UInt8
  supplierIdempotencyValue : String
  status : Status
  generation : Nat
  acceptedAt : GoTime
  retryDeadline : GoTime
  nextAttemptAt : GoTime
  leaseOwner : Option String
  leaseToken : Option UUID
  leaseUntil : Option GoTime
  deriving DecidableEq

def DestinationVersionRow.load (row : DestinationVersionRow) : DestinationVersion where
  destinationID := row.destinationID
  version := row.version
  url := row.url
  networkPolicy := row.networkPolicy
  allowedMethods := some row.allowedMethods
  allowedHeaders := some row.allowedHeaders
  secretRef := row.secretRef
  credentialHeader := row.credentialHeader
  idempotencyHeader := row.idempotencyHeader
  successStatuses := some row.successStatuses
  retryStatuses := some row.retryStatuses
  connectTimeout := row.connectTimeoutMS * 1000000
  requestTimeout := row.requestTimeoutMS * 1000000
  ratePerSecond := row.ratePerSecond
  maxConcurrency := row.maxConcurrency

/-- The columns that `queryDelivery` selects, without the lease. -/
def DeliveryRow.load (row : DeliveryRow) : Delivery where
  id := row.id
  callerID := row.callerID
  destinationID := row.destinationID
  destinationVersion := row.destinationVersion
  method := row.method
  callerHeaders := row.callerHeaders
  body := row.body
  supplierIdempotencyValue := row.supplierIdempotencyValue
  status := row.status
  generation := row.generation
  acceptedAt := nanoseconds row.acceptedAt
  retryDeadline := nanoseconds row.retryDeadline
  nextAttemptAt := nanoseconds row.nextAttemptAt
  leaseOwner := none
  leaseToken := none
  leaseUntil := none

inductive Constraint where
  | callerPrimaryKey | callerKeyHash | destinationVersionValues
  | deliveryPrimaryKey | callerIdempotencyKey | callerReference | destinationVersionReference
  | leaseTupleConsistent
  | outboxPrimaryKey | outboxGeneration | outboxLeaseIsComplete | deliveryReference
  | attemptPrimaryKey | attemptLeaseToken | attemptTimes
  | auditPrimaryKey | auditStep | auditReason | auditGeneration | operatorReference
  deriving DecidableEq, Repr

inductive StoreError where
  | invalidArguments
  | idempotencyConflict
  | backlogCapacity
  | notFound
  | replayConflict
  | deliveryNotClaimable
  | workerLeaseLost
  | outboxLeaseLost
  | destinationMissing
  | bootstrapConflict
  | constraint (broken : Constraint)
  | unavailable
  deriving DecidableEq, Repr

structure Database where
  callers : List CallerRow
  destinations : List DestinationRow
  destinationVersions : List DestinationVersionRow
  callerDestinations : List (String × String)
  deliveries : List DeliveryRow
  outboxEvents : List OutboxEventRow
  deliveryAttempts : List AttemptRow
  replayAudits : List ReplayAuditRow
  deriving DecidableEq

/-- The tables of callers and destinations. -/
def Database.registry (db : Database) :
    List CallerRow × List DestinationRow × List DestinationVersionRow × List (String × String) :=
  (db.callers, db.destinations, db.destinationVersions, db.callerDestinations)

def Database.empty : Database := ⟨[], [], [], [], [], [], [], []⟩

/-- `deliveries_lease_tuple_consistent`. -/
def DeliveryRow.leaseTupleConsistent (row : DeliveryRow) : Bool :=
  (row.status = .delivering && row.leaseOwner.isSome && row.leaseToken.isSome && row.leaseUntil.isSome) ||
  (row.status ≠ .delivering && row.leaseOwner.isNone && row.leaseToken.isNone && row.leaseUntil.isNone)

/-- `outbox_lease_is_complete`. -/
def OutboxEventRow.leaseIsComplete (row : OutboxEventRow) : Bool :=
  (row.leaseOwner.isNone && row.leaseToken.isNone && row.leaseUntil.isNone) ||
  (row.leaseOwner.isSome && row.leaseToken.isSome && row.leaseUntil.isSome)

def OutboxEventRow.sameSlot (row other : OutboxEventRow) : Bool :=
  row.deliveryID = other.deliveryID && row.generation = other.generation

namespace Database

def updateDeliveries (p : DeliveryRow → Bool) (f : DeliveryRow → DeliveryRow) (db : Database) :
    Except StoreError Database := do
  ensure (db.deliveries.all fun row => !p row || (f row).leaseTupleConsistent)
    (.constraint .leaseTupleConsistent)
  return { db with deliveries := updateWhere p f db.deliveries }

def updateEvents (p : OutboxEventRow → Bool) (f : OutboxEventRow → OutboxEventRow) (db : Database) :
    Except StoreError Database := do
  ensure (db.outboxEvents.all fun row => !p row || (f row).leaseIsComplete)
    (.constraint .outboxLeaseIsComplete)
  return { db with outboxEvents := updateWhere p f db.outboxEvents }

def insertDelivery (row : DeliveryRow) (db : Database) : Except StoreError Database := do
  ensure (db.deliveries.all fun other => other.id ≠ row.id) (.constraint .deliveryPrimaryKey)
  ensure (db.deliveries.all fun other =>
    other.callerID ≠ row.callerID || other.idempotencyKey ≠ row.idempotencyKey)
    (.constraint .callerIdempotencyKey)
  ensure (db.callers.any fun caller => caller.id = row.callerID) (.constraint .callerReference)
  ensure (db.destinationVersions.any fun version =>
    version.destinationID = row.destinationID && version.version = row.destinationVersion)
    (.constraint .destinationVersionReference)
  ensure row.leaseTupleConsistent (.constraint .leaseTupleConsistent)
  return { db with deliveries := db.deliveries ++ [row] }

def insertEvent (row : OutboxEventRow) (db : Database) : Except StoreError Database := do
  ensure (db.outboxEvents.all fun other => other.id ≠ row.id) (.constraint .outboxPrimaryKey)
  ensure (db.outboxEvents.all fun other => !row.sameSlot other) (.constraint .outboxGeneration)
  ensure (db.deliveries.any fun delivery => delivery.id = row.deliveryID) (.constraint .deliveryReference)
  ensure row.leaseIsComplete (.constraint .outboxLeaseIsComplete)
  return { db with outboxEvents := db.outboxEvents ++ [row] }

/-- `INSERT INTO outbox_events ... ON CONFLICT (delivery_id, generation) DO NOTHING`. -/
def insertMissingEvents : List OutboxEventRow → Database → Except StoreError Database
  | [], db => .ok db
  | row :: rest, db =>
    if db.outboxEvents.any row.sameSlot then insertMissingEvents rest db
    else do
      let db ← db.insertEvent row
      insertMissingEvents rest db

def insertAttempt (row : AttemptRow) (db : Database) : Except StoreError Database := do
  ensure (db.deliveryAttempts.all fun other => other.id ≠ row.id) (.constraint .attemptPrimaryKey)
  ensure (db.deliveries.any fun delivery => delivery.id = row.deliveryID) (.constraint .deliveryReference)
  ensure row.leaseToken.isSome (.constraint .attemptLeaseToken)
  ensure (row.startedAt ≤ row.finishedAt) (.constraint .attemptTimes)
  return { db with deliveryAttempts := db.deliveryAttempts ++ [row] }

def insertAttempts : List AttemptRow → Database → Except StoreError Database
  | [], db => .ok db
  | row :: rest, db => do
    let db ← db.insertAttempt row
    insertAttempts rest db

def insertAudit (row : ReplayAuditRow) (db : Database) : Except StoreError Database := do
  ensure (db.replayAudits.all fun other => other.id ≠ row.id) (.constraint .auditPrimaryKey)
  ensure (db.deliveries.any fun delivery => delivery.id = row.deliveryID) (.constraint .deliveryReference)
  ensure (row.toGeneration = row.fromGeneration + 1) (.constraint .auditStep)
  ensure (db.callers.any fun caller => caller.id = row.operatorID) (.constraint .operatorReference)
  ensure (1 ≤ row.reason.length && row.reason.length ≤ 1000) (.constraint .auditReason)
  ensure (db.replayAudits.all fun other =>
    other.deliveryID ≠ row.deliveryID || other.toGeneration ≠ row.toGeneration)
    (.constraint .auditGeneration)
  return { db with replayAudits := db.replayAudits ++ [row] }

/-- `DELETE FROM deliveries`, with `ON DELETE CASCADE` on the three tables that refer to it. -/
def deleteDeliveries (p : DeliveryRow → Bool) (db : Database) : Database :=
  let kept (owner : UUID) : Bool := !(db.deliveries.any fun row => row.id = owner && p row)
  { db with
    deliveries := db.deliveries.filter fun row => !p row
    outboxEvents := db.outboxEvents.filter fun row => kept row.deliveryID
    deliveryAttempts := db.deliveryAttempts.filter fun row => kept row.deliveryID
    replayAudits := db.replayAudits.filter fun row => kept row.deliveryID }

/-- `queryDestinationVersion`. -/
def queryDestinationVersion (destinationID : String) (version : Int) (db : Database) :
    Except StoreError DestinationVersion :=
  match db.destinationVersions.find? fun row => row.destinationID = destinationID && row.version = version with
  | some row => .ok row.load
  | none => .error .destinationMissing

section Accepted

variable {db db' : Database}

theorem updateDeliveries_ok {p : DeliveryRow → Bool} {f : DeliveryRow → DeliveryRow}
    (h : db.updateDeliveries p f = .ok db') :
    (∀ row ∈ db.deliveries, p row = true → (f row).leaseTupleConsistent = true) ∧
      db' = { db with deliveries := updateWhere p f db.deliveries } := by
  simp only [updateDeliveries, bind_ok_iff, ensure_ok_iff, pure_ok_iff] at h
  obtain ⟨_, hRows, rfl⟩ := h
  refine ⟨fun row hRow hp => ?_, rfl⟩
  simpa [hp] using List.all_eq_true.mp hRows row hRow

theorem updateEvents_ok {p : OutboxEventRow → Bool} {f : OutboxEventRow → OutboxEventRow}
    (h : db.updateEvents p f = .ok db') :
    (∀ row ∈ db.outboxEvents, p row = true → (f row).leaseIsComplete = true) ∧
      db' = { db with outboxEvents := updateWhere p f db.outboxEvents } := by
  simp only [updateEvents, bind_ok_iff, ensure_ok_iff, pure_ok_iff] at h
  obtain ⟨_, hRows, rfl⟩ := h
  refine ⟨fun row hRow hp => ?_, rfl⟩
  simpa [hp] using List.all_eq_true.mp hRows row hRow

theorem insertDelivery_ok {row : DeliveryRow} (h : db.insertDelivery row = .ok db') :
    (∀ other ∈ db.deliveries, other.id ≠ row.id) ∧
      (∀ other ∈ db.deliveries, ¬(other.callerID = row.callerID ∧ other.idempotencyKey = row.idempotencyKey)) ∧
      (∃ version ∈ db.destinationVersions,
        version.destinationID = row.destinationID ∧ version.version = row.destinationVersion) ∧
      row.leaseTupleConsistent = true ∧ db' = { db with deliveries := db.deliveries ++ [row] } := by
  simp only [insertDelivery, bind_ok_iff, ensure_ok_iff, pure_ok_iff] at h
  obtain ⟨_, hID, _, hKey, _, _, _, hVersion, _, hLease, rfl⟩ := h
  refine ⟨by simpa using hID, ?_, by simpa using hVersion, hLease, rfl⟩
  intro other hOther hSame
  simpa [hSame.1, hSame.2] using List.all_eq_true.mp hKey other hOther

theorem insertDelivery_duplicate {row : DeliveryRow}
    (h : db.insertDelivery row = .error (.constraint .callerIdempotencyKey)) :
    ∃ other ∈ db.deliveries, other.callerID = row.callerID ∧ other.idempotencyKey = row.idempotencyKey := by
  simp only [insertDelivery, bind_error_iff, ensure_error_iff, StoreError.constraint.injEq, reduceCtorEq, and_false,
    false_or, pure_ne_error, exists_false, or_false, and_true] at h
  obtain ⟨_, _, hTaken⟩ := h
  simpa using hTaken

theorem insertEvent_ok {row : OutboxEventRow} (h : db.insertEvent row = .ok db') :
    (∀ other ∈ db.outboxEvents, other.id ≠ row.id) ∧
      (∀ other ∈ db.outboxEvents, row.sameSlot other = false) ∧
      (∃ delivery ∈ db.deliveries, delivery.id = row.deliveryID) ∧
      row.leaseIsComplete = true ∧ db' = { db with outboxEvents := db.outboxEvents ++ [row] } := by
  simp only [insertEvent, bind_ok_iff, ensure_ok_iff, pure_ok_iff] at h
  obtain ⟨_, hID, _, hSlot, _, hOwner, _, hLease, rfl⟩ := h
  exact ⟨by simpa using hID, by simpa using hSlot, by simpa using hOwner, hLease, rfl⟩

theorem insertEvent_refused {row : OutboxEventRow} :
    db.insertEvent row ≠ .error (.constraint .callerIdempotencyKey) := by
  intro h
  simp only [insertEvent, bind_error_iff, ensure_error_iff, StoreError.constraint.injEq, reduceCtorEq, and_false,
    false_or, pure_ne_error, exists_false] at h

theorem insertAttempt_ok {row : AttemptRow} (h : db.insertAttempt row = .ok db') :
    (∃ delivery ∈ db.deliveries, delivery.id = row.deliveryID) ∧ row.startedAt ≤ row.finishedAt ∧
      db' = { db with deliveryAttempts := db.deliveryAttempts ++ [row] } := by
  simp only [insertAttempt, bind_ok_iff, ensure_ok_iff, pure_ok_iff] at h
  obtain ⟨_, _, _, hOwner, _, _, _, hTimes, rfl⟩ := h
  exact ⟨by simpa using hOwner, by simpa using hTimes, rfl⟩

theorem insertAudit_ok {row : ReplayAuditRow} (h : db.insertAudit row = .ok db') :
    (∃ delivery ∈ db.deliveries, delivery.id = row.deliveryID) ∧
      row.toGeneration = row.fromGeneration + 1 ∧
      db' = { db with replayAudits := db.replayAudits ++ [row] } := by
  simp only [insertAudit, bind_ok_iff, ensure_ok_iff, pure_ok_iff] at h
  obtain ⟨_, _, _, hOwner, _, hNext, _, _, _, _, _, _, rfl⟩ := h
  exact ⟨by simpa using hOwner, by simpa using hNext, rfl⟩

theorem insertAttempts_ok {rows : List AttemptRow} (h : db.insertAttempts rows = .ok db') :
    (∀ row ∈ rows, ∃ delivery ∈ db.deliveries, delivery.id = row.deliveryID) ∧
      db' = { db with deliveryAttempts := db.deliveryAttempts ++ rows } := by
  induction rows generalizing db with
  | nil =>
    cases h
    exact ⟨by simp, by simp⟩
  | cons row rest ih =>
    obtain ⟨middle, hRow, hRest⟩ := bind_ok_iff.mp h
    obtain ⟨hOwner, _, rfl⟩ := insertAttempt_ok hRow
    obtain ⟨hOwners, rfl⟩ := ih hRest
    refine ⟨fun other hOther => ?_, by simp⟩
    rcases List.mem_cons.mp hOther with rfl | hOther
    · exact hOwner
    · exact hOwners other hOther

/-- After the insert every given slot is taken, and nothing else changed. -/
theorem insertMissingEvents_ok {rows : List OutboxEventRow} (h : db.insertMissingEvents rows = .ok db') :
    db'.deliveries = db.deliveries ∧ db.outboxEvents ⊆ db'.outboxEvents ∧
      ∀ row ∈ rows, ∃ event ∈ db'.outboxEvents, row.sameSlot event = true := by
  induction rows generalizing db with
  | nil =>
    cases h
    exact ⟨rfl, List.Subset.refl _, fun _ h => by cases h⟩
  | cons row rest ih =>
    rw [insertMissingEvents] at h
    split at h
    · rename_i hSlot
      obtain ⟨hDeliveries, hEvents, hRest⟩ := ih h
      obtain ⟨event, hEvent, hSame⟩ := List.any_eq_true.mp hSlot
      exact ⟨hDeliveries, hEvents, List.forall_mem_cons.mpr ⟨⟨event, hEvents hEvent, hSame⟩, hRest⟩⟩
    · obtain ⟨middle, hRow, hMore⟩ := bind_ok_iff.mp h
      obtain ⟨_, _, _, _, rfl⟩ := insertEvent_ok hRow
      obtain ⟨hDeliveries, hEvents, hRest⟩ := ih hMore
      have hNew : row ∈ db'.outboxEvents := hEvents (List.mem_append_right _ (List.mem_singleton_self row))
      refine ⟨hDeliveries, fun event hEvent => hEvents (List.mem_append_left _ hEvent),
        List.forall_mem_cons.mpr ⟨⟨row, hNew, ?_⟩, hRest⟩⟩
      simp [OutboxEventRow.sameSlot]

theorem insertMissingEvents_attempts {rows : List OutboxEventRow} (h : db.insertMissingEvents rows = .ok db') :
    db'.deliveryAttempts = db.deliveryAttempts := by
  induction rows generalizing db with
  | nil =>
    cases h
    rfl
  | cons row rest ih =>
    rw [insertMissingEvents] at h
    split at h
    · exact ih h
    · obtain ⟨middle, hRow, hMore⟩ := bind_ok_iff.mp h
      obtain ⟨_, _, _, _, hMiddle⟩ := insertEvent_ok hRow
      rw [ih hMore, hMiddle]

end Accepted

section Accepting

variable {db : Database}

theorem updateDeliveries_eq {p : DeliveryRow → Bool} {f : DeliveryRow → DeliveryRow}
    (h : ∀ row ∈ db.deliveries, p row = true → (f row).leaseTupleConsistent = true) :
    db.updateDeliveries p f = .ok { db with deliveries := updateWhere p f db.deliveries } := by
  simp only [updateDeliveries, bind_ok_iff, ensure_ok_iff, pure_ok_iff]
  refine ⟨(), List.all_eq_true.mpr fun row hRow => ?_, trivial⟩
  cases hp : p row
  · rfl
  · simpa using h row hRow hp

theorem updateEvents_eq {p : OutboxEventRow → Bool} {f : OutboxEventRow → OutboxEventRow}
    (h : ∀ row ∈ db.outboxEvents, p row = true → (f row).leaseIsComplete = true) :
    db.updateEvents p f = .ok { db with outboxEvents := updateWhere p f db.outboxEvents } := by
  simp only [updateEvents, bind_ok_iff, ensure_ok_iff, pure_ok_iff]
  refine ⟨(), List.all_eq_true.mpr fun row hRow => ?_, trivial⟩
  cases hp : p row
  · rfl
  · simpa using h row hRow hp

theorem insertEvent_eq {row : OutboxEventRow} (hID : ∀ other ∈ db.outboxEvents, other.id ≠ row.id)
    (hSlot : ∀ other ∈ db.outboxEvents, row.sameSlot other = false)
    (hOwner : ∃ delivery ∈ db.deliveries, delivery.id = row.deliveryID) (hLease : row.leaseIsComplete = true) :
    db.insertEvent row = .ok { db with outboxEvents := db.outboxEvents ++ [row] } := by
  simp only [insertEvent, bind_ok_iff, ensure_ok_iff, pure_ok_iff]
  exact ⟨(), by simpa using hID, (), by simpa using hSlot, (), by simpa using hOwner, (), hLease, trivial⟩

theorem insertAttempt_eq {row : AttemptRow} (hID : ∀ other ∈ db.deliveryAttempts, other.id ≠ row.id)
    (hOwner : ∃ delivery ∈ db.deliveries, delivery.id = row.deliveryID) (hToken : row.leaseToken.isSome = true)
    (hTimes : row.startedAt ≤ row.finishedAt) :
    db.insertAttempt row = .ok { db with deliveryAttempts := db.deliveryAttempts ++ [row] } := by
  simp only [insertAttempt, bind_ok_iff, ensure_ok_iff, pure_ok_iff]
  exact ⟨(), by simpa using hID, (), by simpa using hOwner, (), hToken, (), by simpa using hTimes, trivial⟩

/-- An audit that fits its delivery is refused for its operator or not at all. -/
theorem insertAudit_eq {row : ReplayAuditRow} (hID : ∀ other ∈ db.replayAudits, other.id ≠ row.id)
    (hOwner : ∃ delivery ∈ db.deliveries, delivery.id = row.deliveryID)
    (hStep : row.toGeneration = row.fromGeneration + 1) (hReason : 1 ≤ row.reason.length ∧ row.reason.length ≤ 1000)
    (hLast : ∀ other ∈ db.replayAudits, other.deliveryID = row.deliveryID → other.toGeneration < row.toGeneration) :
    db.insertAudit row = if db.callers.any fun caller => caller.id = row.operatorID then
      .ok { db with replayAudits := db.replayAudits ++ [row] } else .error (.constraint .operatorReference) := by
  have hGenerations : (db.replayAudits.all fun other =>
      other.deliveryID ≠ row.deliveryID || other.toGeneration ≠ row.toGeneration) = true := by
    refine List.all_eq_true.mpr fun other hOther => ?_
    simp only [Bool.or_eq_true, decide_eq_true_eq]
    exact not_and_or.mp fun hSame => (hLast other hOther hSame.1).ne hSame.2
  have hIDs : (db.replayAudits.all fun other => other.id ≠ row.id) = true := by simpa using hID
  have hOwners : (db.deliveries.any fun delivery => delivery.id = row.deliveryID) = true := by simpa using hOwner
  by_cases hOperator : (db.callers.any fun caller => caller.id = row.operatorID) = true
  · rw [if_pos hOperator]
    simp only [insertAudit, bind_ok_iff, ensure_ok_iff, pure_ok_iff]
    exact ⟨(), hIDs, (), hOwners, (), decide_eq_true hStep, (), hOperator, (), by simp [hReason], (), hGenerations,
      trivial⟩
  · rw [if_neg hOperator, insertAudit, ensure, if_pos hIDs, ensure, if_pos hOwners, ensure,
      if_pos (decide_eq_true hStep), ensure, if_neg hOperator]
    rfl

theorem insertAttempts_eq {rows : List AttemptRow}
    (hIDs : (rows.map AttemptRow.id).Nodup) (hFresh : ∀ row ∈ rows, ∀ other ∈ db.deliveryAttempts, other.id ≠ row.id)
    (hRows : ∀ row ∈ rows, (∃ delivery ∈ db.deliveries, delivery.id = row.deliveryID) ∧
      row.leaseToken.isSome = true ∧ row.startedAt ≤ row.finishedAt) :
    db.insertAttempts rows = .ok { db with deliveryAttempts := db.deliveryAttempts ++ rows } := by
  induction rows generalizing db with
  | nil => simp [insertAttempts]
  | cons row rest ih =>
    obtain ⟨hOwner, hToken, hTimes⟩ := hRows row List.mem_cons_self
    obtain ⟨hFirst, hRest⟩ := List.nodup_cons.mp hIDs
    have hApart : ∀ new ∈ rest, row.id ≠ new.id := fun new hNew hSame => hFirst (hSame ▸ List.mem_map_of_mem hNew)
    have hLater := @ih { db with deliveryAttempts := db.deliveryAttempts ++ [row] } hRest
      (apart_append hApart hFresh) fun other hOther => hRows other (List.mem_cons_of_mem _ hOther)
    rw [insertAttempts, insertAttempt_eq (hFresh row List.mem_cons_self) hOwner hToken hTimes]
    rw [List.append_assoc] at hLater
    exact hLater

/-- Where no slot is taken the clause `ON CONFLICT` never applies and every row is inserted. -/
theorem insertMissingEvents_eq {rows : List OutboxEventRow} (hIDs : (rows.map OutboxEventRow.id).Nodup)
    (hSlots : rows.Pairwise fun a b => b.sameSlot a = false)
    (hFresh : ∀ row ∈ rows, ∀ other ∈ db.outboxEvents, other.id ≠ row.id ∧ row.sameSlot other = false)
    (hRows : ∀ row ∈ rows, (∃ delivery ∈ db.deliveries, delivery.id = row.deliveryID) ∧
      row.leaseIsComplete = true) :
    db.insertMissingEvents rows = .ok { db with outboxEvents := db.outboxEvents ++ rows } := by
  induction rows generalizing db with
  | nil => simp [insertMissingEvents]
  | cons row rest ih =>
    obtain ⟨hOwner, hLease⟩ := hRows row List.mem_cons_self
    obtain ⟨hFirst, hRest⟩ := List.nodup_cons.mp hIDs
    obtain ⟨hSlot, hSlots⟩ := List.pairwise_cons.mp hSlots
    have hFree : ¬db.outboxEvents.any row.sameSlot = true := by
      simpa using fun other hOther => (hFresh row List.mem_cons_self other hOther).2
    have hInsert := insertEvent_eq (fun other hOther => (hFresh row List.mem_cons_self other hOther).1)
      (fun other hOther => (hFresh row List.mem_cons_self other hOther).2) hOwner hLease
    have hApart : ∀ new ∈ rest, row.id ≠ new.id ∧ new.sameSlot row = false := fun new hNew =>
      ⟨fun hSame => hFirst (hSame ▸ List.mem_map_of_mem hNew), hSlot new hNew⟩
    have hLater := @ih { db with outboxEvents := db.outboxEvents ++ [row] } hRest hSlots
      (apart_append hApart hFresh) fun other hOther => hRows other (List.mem_cons_of_mem _ hOther)
    rw [insertMissingEvents, if_neg hFree, hInsert]
    rw [List.append_assoc] at hLater
    exact hLater

end Accepting

end Database

end ReliableNotifier
