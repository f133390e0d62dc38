import ReliableNotifier.Lifecycle.Integrity

/-! # The moves of one delivery

The dossier of a delivery is what the four tables hold about it. An operation may
touch many deliveries at once, but each dossier makes at most one move, and the
moves below are all there are.
-/

namespace ReliableNotifier

open Checked RowTable

structure Dossier where
  row : Option DeliveryRow
  events : List OutboxEventRow
  attempts : List AttemptRow
  audits : List ReplayAuditRow

def Dossier.absent : Dossier := ⟨none, [], [], []⟩

def Database.dossier (db : Database) (id : UUID) : Dossier where
  row := lookup DeliveryRow.id id db.deliveries
  events := owned OutboxEventRow.deliveryID id db.outboxEvents
  attempts := owned AttemptRow.deliveryID id db.deliveryAttempts
  audits := owned ReplayAuditRow.deliveryID id db.replayAudits

/-- What an operation may do to one event of the delivery `row`. -/
inductive EventMove (r : Readings) (row : DeliveryRow) : Op → OutboxEventRow → OutboxEventRow → Prop
  | keep (op : Op) (event : OutboxEventRow) : EventMove r row op event event
  | claim {event : OutboxEventRow} {owner : String} {leaseDuration : Duration} {limit : Int}
      {locked : UUID → Bool} {token : UUID} (hClaimable : event.claimable r = true) :
      EventMove r row (.claimOutbox owner leaseDuration limit locked token) event
        (event.claim r owner token leaseDuration)
  | mark {event : OutboxEventRow} {held : OutboxEvent} (hHeld : event.held held = true)
      (hLease : event.leaseUntil.any (r.scan event.id 0 < ·) = true) :
      EventMove r row (.markOutboxPublished held) event (event.markPublished r)
  | release {event : OutboxEventRow} {held : OutboxEvent} (hHeld : event.held held = true) :
      EventMove r row (.releaseOutbox held) event event.release
  | observe {event : OutboxEventRow} (hDue : row.due r event.id event.deliveryID event.generation = true) :
      EventMove r row (.observeSignal event.deliveryID event.generation) event
        { event with observedAt := some (r.write event.id 0) }
  | reset {event : OutboxEventRow} {watchdog : Duration} {limit : Int} {locked : UUID → Bool}
      {traceIDs : UUID → UUID} (hGeneration : row.generation = event.generation)
      (hPending : row.status = .pending) (hDue : row.nextAttemptAt ≤ r.scan event.id 0)
      (hPublished : event.publishedAt.isSome = true) (hLease : event.leaseToken = none) :
      EventMove r row (.reconcileStalledSignals watchdog limit locked traceIDs) event
        (event.reset r (traceIDs event.id))

theorem EventMove.identity_eq {r : Readings} {row : DeliveryRow} {op : Op} {event event' : OutboxEventRow}
    (h : EventMove r row op event event') : event'.identity = event.identity := by
  cases h <;> rfl

theorem EventMove.generation_eq {r : Readings} {row : DeliveryRow} {op : Op} {event event' : OutboxEventRow}
    (h : EventMove r row op event event') : event'.generation = event.generation :=
  congrArg (fun identity => identity.2.2) h.identity_eq

/-- One row of an `ON CONFLICT (delivery_id, generation) DO NOTHING`, among the events of its delivery. -/
def addMissing (events : List OutboxEventRow) (row : OutboxEventRow) : List OutboxEventRow :=
  if ∀ event ∈ events, event.generation ≠ row.generation then events ++ [row] else events

theorem mem_addMissing {events : List OutboxEventRow} {new event : OutboxEventRow}
    (h : event ∈ addMissing events new) : event ∈ events ∨ event = new := by
  unfold addMissing at h
  split at h
  · simpa using h
  · exact .inl h

theorem subset_addMissing {events : List OutboxEventRow} {new : OutboxEventRow} : events ⊆ addMissing events new := by
  unfold addMissing
  split
  · exact List.subset_append_left _ _
  · exact List.Subset.refl _

theorem exists_mem_addMissing {events : List OutboxEventRow} {new : OutboxEventRow} :
    ∃ event ∈ addMissing events new, event.generation = new.generation := by
  unfold addMissing
  split
  · exact ⟨new, List.mem_append_right _ (List.mem_singleton_self new), rfl⟩
  · rename_i hTaken
    simpa using hTaken

inductive Dossier.Move (r : Readings) : Op → Dossier → Dossier → Prop
  | submit {backlogLimit : Int} {submission : Submission} {deliveryID outboxID traceID : UUID} :
      Move r (.submit backlogLimit submission deliveryID outboxID traceID) .absent
        ⟨some (submission.row r deliveryID), [submission.event r deliveryID outboxID traceID], [], []⟩
  | events {op : Op} {row : DeliveryRow} {events : List OutboxEventRow} {attempts : List AttemptRow}
      {audits : List ReplayAuditRow} {f : OutboxEventRow → OutboxEventRow}
      (hEvents : ∀ event ∈ events, EventMove r row op event (f event)) :
      Move r op ⟨some row, events, attempts, audits⟩ ⟨some row, events.map f, attempts, audits⟩
  | claim {row : DeliveryRow} {events : List OutboxEventRow} {attempts : List AttemptRow}
      {audits : List ReplayAuditRow} {owner : String} {leaseDuration : Duration} {token : UUID}
      (hDue : row.due r row.id row.id row.generation = true) :
      Move r (.claimDelivery row.id row.generation owner leaseDuration token)
        ⟨some row, events, attempts, audits⟩
        ⟨some (row.claim r owner leaseDuration token), events, attempts, audits⟩
  | complete {row : DeliveryRow} {events : List OutboxEventRow} {attempts : List AttemptRow}
      {audits : List ReplayAuditRow} {completion : Completion} {result : AttemptResult} {attemptID : UUID}
      (hFenced : row.fenced r result completion.resultClass completion.nextAttemptAt = true) :
      Move r (.complete completion result attemptID) ⟨some row, events, attempts, audits⟩
        ⟨some (row.complete r completion.resultClass (completion.nextAttemptAt.map microseconds)), events,
          attempts ++ [result.row completion.resultClass attemptID], audits⟩
  | expire {row : DeliveryRow} {events : List OutboxEventRow} {attempts : List AttemptRow}
      {audits : List ReplayAuditRow} {limit : Int} {locked : UUID → Bool} {eventIDs traceIDs : UUID → UUID}
      (hPast : row.pastDeadline r = true) :
      Move r (.scheduleDueRetries limit locked eventIDs traceIDs) ⟨some row, events, attempts, audits⟩
        ⟨some (row.fail r), events, attempts, audits⟩
  | schedule {row : DeliveryRow} {events : List OutboxEventRow} {attempts : List AttemptRow}
      {audits : List ReplayAuditRow} {limit : Int} {locked : UUID → Bool} {eventIDs traceIDs : UUID → UUID}
      (hPending : row.status = .pending) (hDue : row.nextAttemptAt ≤ r.scan row.id 0)
      (hMissing : ∀ event ∈ events, event.generation ≠ row.generation) :
      Move r (.scheduleDueRetries limit locked eventIDs traceIDs) ⟨some row, events, attempts, audits⟩
        ⟨some row, events ++ [row.signal r (eventIDs row.id) (traceIDs row.id) row.nextAttemptAt],
          attempts, audits⟩
  | recover {row : DeliveryRow} {events : List OutboxEventRow} {attempts : List AttemptRow}
      {audits : List ReplayAuditRow} {limit : Int} {locked : UUID → Bool}
      {attemptIDs eventIDs traceIDs : UUID → UUID} (hExpired : row.leaseExpired r = true)
      (hDeadline : r.statement < row.retryDeadline) :
      Move r (.recoverExpiredDeliveries limit locked attemptIDs eventIDs traceIDs)
        ⟨some row, events, attempts, audits⟩
        ⟨some (row.recover r),
          addMissing events
            ((row.recover r).signal r (eventIDs row.id) (traceIDs row.id) (row.recover r).updatedAt),
          attempts ++ [row.recoveryAttempt r (attemptIDs row.id)], audits⟩
  | abandon {row : DeliveryRow} {events : List OutboxEventRow} {attempts : List AttemptRow}
      {audits : List ReplayAuditRow} {limit : Int} {locked : UUID → Bool}
      {attemptIDs eventIDs traceIDs : UUID → UUID} (hExpired : row.leaseExpired r = true)
      (hDeadline : row.retryDeadline ≤ r.statement) :
      Move r (.recoverExpiredDeliveries limit locked attemptIDs eventIDs traceIDs)
        ⟨some row, events, attempts, audits⟩
        ⟨some (row.recover r), events, attempts ++ [row.recoveryAttempt r (attemptIDs row.id)], audits⟩
  | replay {row : DeliveryRow} {events : List OutboxEventRow} {attempts : List AttemptRow}
      {audits : List ReplayAuditRow} {replayedAt : Time} {operatorID reason : String}
      {auditID outboxID traceID : UUID} (hFailed : row.status = .failedPermanent) :
      Move r (.replay replayedAt row.id operatorID reason auditID outboxID traceID)
        ⟨some row, events, attempts, audits⟩
        ⟨some (row.replay replayedAt), events ++ [(row.replay replayedAt).signal r outboxID traceID replayedAt],
          attempts,
          audits ++ [⟨auditID, row.id, row.generation, row.generation + 1, operatorID, reason, replayedAt⟩]⟩
  | delete {row : DeliveryRow} {events : List OutboxEventRow} {attempts : List AttemptRow}
      {audits : List ReplayAuditRow} {successRetention failureRetention : Duration} {limit : Int}
      {locked : UUID → Bool} (hTerminal : row.status = .succeeded ∨ row.status = .failedPermanent) :
      Move r (.deleteExpiredTerminal successRetention failureRetention limit locked)
        ⟨some row, events, attempts, audits⟩ .absent

/-- A dossier stays as it is or makes one move. -/
def Dossier.Follows (r : Readings) (op : Op) (d d' : Dossier) : Prop := d' = d ∨ Move r op d d'

end ReliableNotifier
