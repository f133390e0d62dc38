import ReliableNotifier.Store.Outbox

/-! # Scheduling, lease recovery, reconciliation, replay and retention

Each batch statement evaluates its sub-statements on one snapshot. The functions
`eventIDs`, `traceIDs` and `attemptIDs` stand for the calls of `gen_random_uuid()`
made for a row.
-/

namespace ReliableNotifier

open Checked RowTable

namespace DeliveryRow

def pastDeadline (r : Readings) (row : DeliveryRow) : Bool :=
  row.status = .pending && row.retryDeadline ≤ r.statement

def fail (r : Readings) (row : DeliveryRow) : DeliveryRow :=
  { row with status := .failedPermanent, updatedAt := r.write row.id 0 }

def unsignalled (r : Readings) (db : Database) (row : DeliveryRow) : Bool :=
  row.status = .pending && 0 < row.generation && row.nextAttemptAt ≤ r.scan row.id 0 &&
  r.statement < row.retryDeadline &&
  !(db.outboxEvents.any fun event => event.deliveryID = row.id && event.generation = row.generation)

/-- A fresh event for the current generation of a delivery. -/
def signal (r : Readings) (eventID traceID : UUID) (availableAt : Time) (row : DeliveryRow) :
    OutboxEventRow where
  id := eventID
  deliveryID := row.id
  generation := row.generation
  traceID := traceID
  availableAt := availableAt
  publishedAt := none
  leaseOwner := none
  leaseToken := none
  leaseUntil := none
  createdAt := r.write row.id 2
  observedAt := none

def leaseExpired (r : Readings) (row : DeliveryRow) : Bool :=
  row.status = .delivering && row.leaseUntil.any (· ≤ r.statement)

/-- `next_attempt_at` is stamped before `updated_at`, by column order. -/
def recover (r : Readings) (row : DeliveryRow) : DeliveryRow :=
  { row with
    status := if row.retryDeadline ≤ r.statement then .failedPermanent else .pending
    generation := if row.retryDeadline ≤ r.statement then row.generation else row.generation + 1
    nextAttemptAt := r.write row.id 0
    updatedAt := r.write row.id 1
    leaseOwner := none
    leaseToken := none
    leaseUntil := none }

def recoveryAttempt (r : Readings) (attemptID : UUID) (row : DeliveryRow) : AttemptRow where
  id := attemptID
  deliveryID := row.id
  generation := row.generation
  leaseToken := row.leaseToken
  resultClass := if (row.recover r).status = .failedPermanent then .permanentFailure else .retryableFailure
  responseStatus := none
  errorCategory := some (if (row.recover r).status = .failedPermanent then "retry_deadline_exhausted"
    else "lease_expired")
  startedAt := row.updatedAt
  finishedAt := (row.recover r).updatedAt

def replay (replayedAt : Time) (row : DeliveryRow) : DeliveryRow :=
  { row with
    status := .pending
    generation := row.generation + 1
    nextAttemptAt := replayedAt
    retryDeadline := replayedAt + microseconds day
    updatedAt := replayedAt
    leaseOwner := none
    leaseToken := none
    leaseUntil := none }

def retained (r : Readings) (successRetention failureRetention : Duration) (row : DeliveryRow) : Bool :=
  !(row.status = .succeeded && row.updatedAt ≤ r.scan row.id 0 - wholeMilliseconds successRetention ||
    row.status = .failedPermanent && row.updatedAt ≤ r.scan row.id 0 - wholeMilliseconds failureRetention)

end DeliveryRow

def dueDeliveries (r : Readings) (limit : Int) (locked : UUID → Bool) (db : Database) : List DeliveryRow :=
  batch (fun a b => Earlier (a.nextAttemptAt, a.createdAt) (b.nextAttemptAt, b.createdAt)) limit.toNat
    (fun row => row.unsignalled r db && !locked row.id) db.deliveries

def scheduleDueRetries (r : Readings) (limit : Int) (locked : UUID → Bool) (eventIDs traceIDs : UUID → UUID)
    (db : Database) : Except StoreError Database := do
  ensure (0 < limit) .invalidArguments
  let due := dueDeliveries r limit locked db
  let expired ← db.updateDeliveries (·.pastDeadline r) (DeliveryRow.fail r)
  expired.insertMissingEvents
    (due.map fun row => row.signal r (eventIDs row.id) (traceIDs row.id) row.nextAttemptAt)

def expiredDeliveries (r : Readings) (limit : Int) (locked : UUID → Bool) (db : Database) :
    List DeliveryRow :=
  batch (fun a b => Earlier (a.leaseUntil.getD 0, a.createdAt) (b.leaseUntil.getD 0, b.createdAt)) limit.toNat
    (fun row => row.leaseExpired r && !locked row.id) db.deliveries

def recoverExpiredDeliveries (r : Readings) (limit : Int) (locked : UUID → Bool)
    (attemptIDs eventIDs traceIDs : UUID → UUID) (db : Database) : Except StoreError Database := do
  ensure (0 < limit) .invalidArguments
  let expired := expiredDeliveries r limit locked db
  let matching (row : DeliveryRow) : Bool := row.status = .delivering &&
    expired.any fun other => other.id = row.id && other.generation = row.generation
  let recovered := db.deliveries.filter matching
  let updated ← db.updateDeliveries matching (DeliveryRow.recover r)
  let recorded ← updated.insertAttempts
    (recovered.map fun row => row.recoveryAttempt r (attemptIDs row.id))
  recorded.insertMissingEvents
    (((recovered.map (DeliveryRow.recover r)).filter (·.status = .pending)).map fun row =>
      row.signal r (eventIDs row.id) (traceIDs row.id) row.updatedAt)

namespace OutboxEventRow

def stalled (r : Readings) (watchdog : Duration) (db : Database) (row : OutboxEventRow) : Bool :=
  (db.deliveries.any fun delivery => delivery.id = row.deliveryID &&
    delivery.generation = row.generation && delivery.status = .pending &&
    delivery.nextAttemptAt ≤ r.scan row.id 0 && r.statement < delivery.retryDeadline) &&
  row.publishedAt.any (· ≤ r.scan row.id 1 - wholeMilliseconds watchdog) &&
  (row.observedAt = none || row.observedAt.any (· ≤ r.scan row.id 2 - wholeMilliseconds watchdog)) &&
  row.leaseOwner = none && row.leaseToken = none && row.leaseUntil = none

def reset (r : Readings) (traceID : UUID) (row : OutboxEventRow) : OutboxEventRow :=
  { row with traceID := traceID, availableAt := r.write row.id 0, publishedAt := none, observedAt := none }

end OutboxEventRow

def stalledEvents (r : Readings) (watchdog : Duration) (limit : Int) (locked : UUID → Bool)
    (db : Database) : List OutboxEventRow :=
  batch (fun a b => Earlier (a.publishedAt.getD 0, a.createdAt) (b.publishedAt.getD 0, b.createdAt))
    limit.toNat (fun row => row.stalled r watchdog db && !locked row.id) db.outboxEvents

def reconcileStalledSignals (r : Readings) (watchdog : Duration) (limit : Int) (locked : UUID → Bool)
    (traceIDs : UUID → UUID) (db : Database) : Except StoreError Database := do
  ensure (0 < watchdog && 0 < limit) .invalidArguments
  let candidates := stalledEvents r watchdog limit locked db
  db.updateEvents
    (fun row => row.publishedAt.isSome && candidates.any fun candidate => candidate.id = row.id)
    (fun row => row.reset r (traceIDs row.id))

/-- The transaction reads `replayedAt` in a statement of its own, before the update. -/
def replay (replayedAt : Time) (r : Readings) (deliveryID : UUID) (operatorID reason : String)
    (auditID outboxID traceID : UUID) (db : Database) : Except StoreError (Delivery × Database) := do
  let matching (row : DeliveryRow) : Bool := row.id = deliveryID && row.status = .failedPermanent
  match db.deliveries.find? matching with
  | none =>
    if db.deliveries.any fun row => row.id = deliveryID then .error .replayConflict else .error .notFound
  | some row =>
    let replayed := row.replay replayedAt
    let updated ← db.updateDeliveries matching (DeliveryRow.replay replayedAt)
    let audited ← updated.insertAudit
      ⟨auditID, replayed.id, replayed.generation - 1, replayed.generation, operatorID, reason, replayedAt⟩
    let signalled ← audited.insertEvent (replayed.signal r outboxID traceID replayedAt)
    return (replayed.load, signalled)

def expiredTerminal (r : Readings) (successRetention failureRetention : Duration) (limit : Int)
    (locked : UUID → Bool) (db : Database) : List DeliveryRow :=
  batch (fun a b => Earlier (a.updatedAt, a.createdAt) (b.updatedAt, b.createdAt)) limit.toNat
    (fun row => !row.retained r successRetention failureRetention && !locked row.id) db.deliveries

def deleteExpiredTerminal (r : Readings) (successRetention failureRetention : Duration) (limit : Int)
    (locked : UUID → Bool) (db : Database) : Except StoreError (Nat × Database) := do
  ensure (0 < successRetention && 0 < failureRetention && 0 < limit) .invalidArguments
  let expired := expiredTerminal r successRetention failureRetention limit locked db
  let matching (row : DeliveryRow) : Bool :=
    (row.status = .succeeded || row.status = .failedPermanent) && expired.any fun other => other.id = row.id
  return (db.deliveries.countP matching, db.deleteDeliveries matching)

section Accepted

variable {r : Readings} {limit : Int} {locked : UUID → Bool} {db db' : Database}

theorem DeliveryRow.pastDeadline_iff {row : DeliveryRow} :
    row.pastDeadline r = true ↔ row.status = .pending ∧ row.retryDeadline ≤ r.statement := by
  simp [DeliveryRow.pastDeadline]

theorem DeliveryRow.unsignalled_iff {row : DeliveryRow} :
    row.unsignalled r db = true ↔ row.status = .pending ∧ 0 < row.generation ∧ row.nextAttemptAt ≤ r.scan row.id 0 ∧
      r.statement < row.retryDeadline ∧
      ∀ event ∈ db.outboxEvents, ¬(event.deliveryID = row.id ∧ event.generation = row.generation) := by
  simp only [DeliveryRow.unsignalled, Bool.and_eq_true, decide_eq_true_eq, Bool.not_eq_true', List.any_eq_false,
    and_assoc]

theorem DeliveryRow.leaseExpired_iff {row : DeliveryRow} :
    row.leaseExpired r = true ↔ row.status = .delivering ∧ ∃ t, row.leaseUntil = some t ∧ t ≤ r.statement := by
  simp [DeliveryRow.leaseExpired, Option.any_eq_true]

theorem DeliveryRow.retained_eq_false_iff {successRetention failureRetention : Duration} {row : DeliveryRow} :
    row.retained r successRetention failureRetention = false ↔
      row.status = .succeeded ∧ row.updatedAt ≤ r.scan row.id 0 - wholeMilliseconds successRetention ∨
      row.status = .failedPermanent ∧ row.updatedAt ≤ r.scan row.id 0 - wholeMilliseconds failureRetention := by
  simp only [DeliveryRow.retained, Bool.not_eq_false', Bool.or_eq_true, Bool.and_eq_true, decide_eq_true_eq]

theorem DeliveryRow.terminal_of_not_retained {successRetention failureRetention : Duration} {row : DeliveryRow}
    (h : row.retained r successRetention failureRetention = false) :
    row.status = .succeeded ∨ row.status = .failedPermanent :=
  (retained_eq_false_iff.mp h).imp And.left And.left

theorem OutboxEventRow.stalled_iff {watchdog : Duration} {row : OutboxEventRow} :
    row.stalled r watchdog db = true ↔
      (∃ delivery ∈ db.deliveries, delivery.id = row.deliveryID ∧ delivery.generation = row.generation ∧
        delivery.status = .pending ∧ delivery.nextAttemptAt ≤ r.scan row.id 0 ∧ r.statement < delivery.retryDeadline) ∧
      (∃ t, row.publishedAt = some t ∧ t ≤ r.scan row.id 1 - wholeMilliseconds watchdog) ∧
      (row.observedAt = none ∨ ∃ t, row.observedAt = some t ∧ t ≤ r.scan row.id 2 - wholeMilliseconds watchdog) ∧
      row.leaseOwner = none ∧ row.leaseToken = none ∧ row.leaseUntil = none := by
  simp only [OutboxEventRow.stalled, Bool.and_eq_true, Bool.or_eq_true, decide_eq_true_eq, List.any_eq_true,
    Option.any_eq_true, and_assoc]

theorem scheduleDueRetries_ok {eventIDs traceIDs : UUID → UUID}
    (h : scheduleDueRetries r limit locked eventIDs traceIDs db = .ok db') :
    ∃ expired, db.updateDeliveries (·.pastDeadline r) (DeliveryRow.fail r) = .ok expired ∧
      expired.insertMissingEvents ((dueDeliveries r limit locked db).map fun row =>
        row.signal r (eventIDs row.id) (traceIDs row.id) row.nextAttemptAt) = .ok db' := by
  simp only [scheduleDueRetries, bind_ok_iff] at h
  obtain ⟨_, _, expired, hUpdate, hInsert⟩ := h
  exact ⟨expired, hUpdate, hInsert⟩

/-- The rows that one call of `RecoverExpiredDeliveries` updates. -/
def DeliveryRow.recoverable (r : Readings) (limit : Int) (locked : UUID → Bool) (db : Database)
    (row : DeliveryRow) : Bool :=
  row.status = .delivering &&
    (expiredDeliveries r limit locked db).any fun other => other.id = row.id && other.generation = row.generation

theorem DeliveryRow.expired_of_recoverable {row : DeliveryRow} (h : row.recoverable r limit locked db = true) :
    ∃ other ∈ expiredDeliveries r limit locked db, other.id = row.id := by
  obtain ⟨other, hOther, hSame⟩ := List.any_eq_true.mp (Bool.and_eq_true_iff.mp h).2
  exact ⟨other, hOther, of_decide_eq_true (Bool.and_eq_true_iff.mp hSame).1⟩

theorem recoverExpiredDeliveries_ok {attemptIDs eventIDs traceIDs : UUID → UUID}
    (h : recoverExpiredDeliveries r limit locked attemptIDs eventIDs traceIDs db = .ok db') :
    ∃ updated recorded,
      db.updateDeliveries (DeliveryRow.recoverable r limit locked db) (DeliveryRow.recover r) = .ok updated ∧
      updated.insertAttempts ((db.deliveries.filter (DeliveryRow.recoverable r limit locked db)).map fun row =>
        row.recoveryAttempt r (attemptIDs row.id)) = .ok recorded ∧
      recorded.insertMissingEvents
        ((((db.deliveries.filter (DeliveryRow.recoverable r limit locked db)).map (DeliveryRow.recover r)).filter
          (·.status = .pending)).map fun row =>
            row.signal r (eventIDs row.id) (traceIDs row.id) row.updatedAt) = .ok db' := by
  simp only [recoverExpiredDeliveries, bind_ok_iff] at h
  obtain ⟨_, _, updated, hUpdate, recorded, hRecord, hInsert⟩ := h
  exact ⟨updated, recorded, hUpdate, hRecord, hInsert⟩

theorem reconcileStalledSignals_ok {watchdog : Duration} {traceIDs : UUID → UUID}
    (h : reconcileStalledSignals r watchdog limit locked traceIDs db = .ok db') :
    db.updateEvents (fun row => row.publishedAt.isSome &&
        (stalledEvents r watchdog limit locked db).any fun candidate => candidate.id = row.id)
      (fun row => row.reset r (traceIDs row.id)) = .ok db' := by
  obtain ⟨_, _, hUpdate⟩ := bind_ok_iff.mp h
  exact hUpdate

theorem replay_ok {replayedAt : Time} {deliveryID : UUID} {operatorID reason : String}
    {auditID outboxID traceID : UUID} {reply : Delivery}
    (h : replay replayedAt r deliveryID operatorID reason auditID outboxID traceID db = .ok (reply, db')) :
    ∃ row updated audited,
      db.deliveries.find? (fun row => row.id = deliveryID && row.status = .failedPermanent) = some row ∧
      db.updateDeliveries (fun row => row.id = deliveryID && row.status = .failedPermanent)
        (DeliveryRow.replay replayedAt) = .ok updated ∧
      updated.insertAudit ⟨auditID, row.id, row.generation, row.generation + 1, operatorID, reason, replayedAt⟩ =
        .ok audited ∧
      audited.insertEvent ((row.replay replayedAt).signal r outboxID traceID replayedAt) = .ok db' ∧
      reply = (row.replay replayedAt).load := by
  unfold replay at h
  simp only at h
  split at h
  · split at h <;> cases h
  · rename_i row hRow
    simp only [bind_ok_iff, pure_ok_iff] at h
    obtain ⟨updated, hUpdate, audited, hAudit, signalled, hInsert, hReply⟩ := h
    cases hReply
    exact ⟨row, updated, audited, hRow, hUpdate, hAudit, hInsert, rfl⟩

theorem deleteExpiredTerminal_ok {successRetention failureRetention : Duration} {deleted : Nat}
    (h : deleteExpiredTerminal r successRetention failureRetention limit locked db = .ok (deleted, db')) :
    db' = db.deleteDeliveries fun row => (row.status = .succeeded || row.status = .failedPermanent) &&
      (expiredTerminal r successRetention failureRetention limit locked db).any fun other => other.id = row.id := by
  simp only [deleteExpiredTerminal, bind_ok_iff, pure_ok_iff] at h
  obtain ⟨_, _, hReply⟩ := h
  exact (Prod.mk.inj hReply).2.symm

end Accepted

end ReliableNotifier
