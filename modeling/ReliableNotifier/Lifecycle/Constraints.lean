import ReliableNotifier.Lifecycle.Events
import ReliableNotifier.Lifecycle.History

/-! # No operation is refused by a constraint

The batch statements fail as a whole if one of their rows breaks a constraint. In a
reachable state none does: identifiers are fresh, leases are complete, times are in order,
and no event or audit is ahead of its delivery. What such a statement then writes is known
exactly.
-/

namespace ReliableNotifier

open Checked RowTable

variable {r : Readings} {op : Op} {db db' : Database}

/-! ## The identifiers of rows -/

/-- Events keep the identities that are `known` and get identifiers that are fresh. -/
theorem kept_event_identities (fresh : UUID → Prop) (known : List (UUID × UUID × Nat)) :
    Kept fresh fun db => ∀ event ∈ db.outboxEvents, event.identity ∈ known ∨ fresh event.id where
  bootstrap h hDb := by
    rw [(bootstrap_ok h).2.1]
    exact hDb
  updateDeliveries h _ hDb := by
    obtain ⟨_, rfl⟩ := Database.updateDeliveries_ok h
    exact hDb
  updateEvents {_ _ _ f} h hf hDb := by
    obtain ⟨_, rfl⟩ := Database.updateEvents_ok h
    have hID (row : OutboxEventRow) : (f row).id = row.id := congrArg Prod.fst (hf row)
    intro event hEvent
    obtain ⟨old, hOld, rfl⟩ := mem_updateWhere.mp hEvent
    split
    · rw [hID old, hf old]
      exact hDb old hOld
    · exact hDb old hOld
  insertDelivery h hDb := by
    obtain ⟨_, _, _, _, rfl⟩ := Database.insertDelivery_ok h
    exact hDb
  insertEvent hFresh h hDb := by
    obtain ⟨_, _, _, _, rfl⟩ := Database.insertEvent_ok h
    intro event hEvent
    rcases List.mem_append.mp hEvent with hOld | hNew
    · exact hDb event hOld
    · rw [List.mem_singleton.mp hNew]
      exact .inr hFresh
  insertAttempt h hDb := by
    obtain ⟨_, _, rfl⟩ := Database.insertAttempt_ok h
    exact hDb
  insertAudit h hDb := by
    obtain ⟨_, _, rfl⟩ := Database.insertAudit_ok h
    exact hDb
  deleteDeliveries _ hDb := fun event hEvent => hDb event (List.mem_filter.mp hEvent).1

/-- An event is one from before the operation, or the operation drew its identifier. -/
theorem Op.event_identities (h : op.apply r db = .ok db') {event' : OutboxEventRow}
    (hEvent' : event' ∈ db'.outboxEvents) :
    (∃ event ∈ db.outboxEvents, event.identity = event'.identity) ∨ event'.id ∈ op.generated r db := by
  have hKnown := (kept_event_identities (· ∈ op.generated r db) (db.outboxEvents.map OutboxEventRow.identity)).apply h
    (fun _ hID => hID) fun event hEvent => .inl (List.mem_map_of_mem hEvent)
  exact (hKnown event' hEvent').imp_left List.mem_map.mp

theorem Op.event_ids (h : op.apply r db = .ok db') {event' : OutboxEventRow} (hEvent' : event' ∈ db'.outboxEvents) :
    (∃ event ∈ db.outboxEvents, event.id = event'.id) ∨ event'.id ∈ op.generated r db :=
  (Op.event_identities h hEvent').imp_left fun ⟨event, hEvent, hSame⟩ => ⟨event, hEvent, congrArg Prod.fst hSame⟩

theorem Dossier.Move.attempt_origin {d d' : Dossier} {attempt : AttemptRow} (h : Move r op d d')
    (hAttempt : attempt ∈ d'.attempts) :
    attempt ∈ d.attempts ∨ (∃ completion result, op = .complete completion result attempt.id) ∨
      ∃ limit locked attemptIDs eventIDs traceIDs,
        op = .recoverExpiredDeliveries limit locked attemptIDs eventIDs traceIDs := by
  cases h with
  | submit | delete => cases hAttempt
  | events | claim | expire | schedule | replay => exact .inl hAttempt
  | complete =>
    rcases List.mem_append.mp hAttempt with hOld | hNew
    · exact .inl hOld
    · rw [List.mem_singleton.mp hNew]
      exact .inr (.inl ⟨_, _, rfl⟩)
  | recover | abandon => exact .inr (.inr ⟨_, _, _, _, _, rfl⟩)

theorem Dossier.Move.audit_origin {d d' : Dossier} {audit : ReplayAuditRow} (h : Move r op d d') (db : Database)
    (hAudit : audit ∈ d'.audits) : audit ∈ d.audits ∨ audit.id ∈ op.generated r db := by
  cases h with
  | submit | delete => cases hAudit
  | events | claim | complete | expire | schedule | recover | abandon => exact .inl hAudit
  | replay =>
    rcases List.mem_append.mp hAudit with hOld | hNew
    · exact .inl hOld
    · rw [List.mem_singleton.mp hNew]
      exact .inr List.mem_cons_self

theorem DeliveryRow.recoverable_iff {limit : Int} {locked : UUID → Bool} (hDb : Integrity db) {row : DeliveryRow}
    (hRow : row ∈ db.deliveries) :
    row.recoverable r limit locked db = true ↔ row ∈ expiredDeliveries r limit locked db := by
  constructor
  · intro h
    obtain ⟨other, hOther, hID⟩ := row.expired_of_recoverable h
    exact hDb.chosen_delivery (fun _ h => (mem_of_mem_batch _ h).1) hRow hOther hID ▸ hOther
  · intro h
    have hExpired := (mem_of_mem_batch _ h).2
    simp only [Bool.and_eq_true, leaseExpired_iff] at hExpired
    simp only [recoverable, Bool.and_eq_true, decide_eq_true_eq, List.any_eq_true]
    exact ⟨hExpired.1.1, row, h, rfl, rfl⟩

theorem Op.attempt_ids (hDb : Integrity db) (h : op.apply r db = .ok db') {attempt : AttemptRow}
    (hAttempt : attempt ∈ db'.deliveryAttempts) :
    attempt ∈ db.deliveryAttempts ∨ attempt.id ∈ op.generated r db := by
  have hOwned : attempt ∈ (db'.dossier attempt.deliveryID).attempts := (mem_owned _).mpr ⟨hAttempt, rfl⟩
  rcases Database.dossier_moves hDb h attempt.deliveryID with hSame | hMove
  · rw [hSame] at hOwned
    exact .inl ((mem_owned _).mp hOwned).1
  · rcases hMove.attempt_origin hOwned with hOld | ⟨_, _, rfl⟩ | ⟨limit, locked, attemptIDs, eventIDs, traceIDs, rfl⟩
    · exact .inl ((mem_owned _).mp hOld).1
    · exact .inr (List.mem_singleton_self _)
    · obtain ⟨updated, recorded, hUpdate, hRecord, hInsert⟩ := recoverExpiredDeliveries_ok h
      obtain ⟨_, rfl⟩ := Database.updateDeliveries_ok hUpdate
      obtain ⟨_, rfl⟩ := Database.insertAttempts_ok hRecord
      rw [Database.insertMissingEvents_attempts hInsert] at hAttempt
      rcases List.mem_append.mp hAttempt with hOld | hNew
      · exact .inl hOld
      · obtain ⟨row, hRow, rfl⟩ := List.mem_map.mp hNew
        obtain ⟨hMem, hRecoverable⟩ := List.mem_filter.mp hRow
        have hExpired := (DeliveryRow.recoverable_iff hDb hMem).mp hRecoverable
        exact .inr (List.mem_append_left _ (List.mem_map.mpr ⟨row, hExpired, rfl⟩))

/-- The identifiers of the rows that refer to a delivery. -/
def Database.rowIDs (db : Database) : List UUID :=
  db.outboxEvents.map OutboxEventRow.id ++
    (db.deliveryAttempts.map AttemptRow.id ++ db.replayAudits.map ReplayAuditRow.id)

theorem Op.rowIDs_subset (hDb : Integrity db) (h : op.apply r db = .ok db') {id : UUID} (hID : id ∈ db'.rowIDs) :
    id ∈ db.rowIDs ∨ id ∈ op.generated r db := by
  simp only [Database.rowIDs, List.mem_append, List.mem_map] at hID ⊢
  rcases hID with ⟨event, hEvent, rfl⟩ | ⟨attempt, hAttempt, rfl⟩ | ⟨audit, hAudit, rfl⟩
  · exact (Op.event_ids h hEvent).imp_left .inl
  · exact (Op.attempt_ids hDb h hAttempt).imp_left fun hOld => .inr (.inl ⟨attempt, hOld, rfl⟩)
  · have hOwned : audit ∈ (db'.dossier audit.deliveryID).audits := (mem_owned _).mpr ⟨hAudit, rfl⟩
    rcases Database.dossier_moves hDb h audit.deliveryID with hSame | hMove
    · rw [hSame] at hOwned
      exact .inl (.inr (.inr ⟨audit, ((mem_owned _).mp hOwned).1, rfl⟩))
    · rcases hMove.audit_origin db hOwned with hOld | hNew
      · exact .inl (.inr (.inr ⟨audit, ((mem_owned _).mp hOld).1, rfl⟩))
      · exact .inr hNew

/-- The operation draws identifiers that were never drawn before. -/
def Op.Fresh (s : Store) (r : Readings) (op : Op) : Prop :=
  (op.generated r s.db).Nodup ∧ ∀ id ∈ op.generated r s.db, id ∉ s.issued

theorem Store.Reachable.rowIDs_issued {s : Store} (hs : s.Reachable) {id : UUID} (hID : id ∈ s.db.rowIDs) :
    id ∈ s.issued := by
  obtain ⟨first, hRun⟩ := hs
  refine Later.invariant (I := fun s => ∀ id ∈ s.db.rowIDs, id ∈ s.issued) ⟨first, .refl⟩ ?_ ?_ hRun id hID
  · intro id hID
    cases hID
  · intro s action t hs ih hStep id hID
    cases hStep with
    | wait => exact ih id hID
    | commit _ _ _ hApply =>
      rcases Op.rowIDs_subset hs.integrity hApply hID with hOld | hNew
      · exact List.mem_append_right _ (ih id hOld)
      · exact List.mem_append_left _ hNew

/-! ## What the batch statements write -/

theorem OutboxEventRow.sameSlot_of_ne {a b : OutboxEventRow} (h : b.deliveryID ≠ a.deliveryID) :
    b.sameSlot a = false := by
  simp [sameSlot, h]

/-- The event that a recovery inserts for a delivery. -/
def DeliveryRow.repair (r : Readings) (eventIDs traceIDs : UUID → UUID) (row : DeliveryRow) : OutboxEventRow :=
  (row.recover r).signal r (eventIDs row.id) (traceIDs row.id) (row.recover r).updatedAt

theorem DeliveryRow.recover_pending_iff {row : DeliveryRow} :
    (row.recover r).status = .pending ↔ r.statement < row.retryDeadline := by
  by_cases h : row.retryDeadline ≤ r.statement
  · simp [recover, h, not_lt.mpr h]
  · simp [recover, h, not_le.mp h]

theorem DeliveryRow.leaseTupleConsistent_recover (row : DeliveryRow) :
    (row.recover r).leaseTupleConsistent = true := by
  simp only [leaseTupleConsistent, recover]
  split <;> rfl

theorem DeliveryRow.leaseTupleConsistent_fail {row : DeliveryRow}
    (h : row.leaseTupleConsistent = true) (hPending : row.status = .pending) :
    (row.fail r).leaseTupleConsistent = true := by
  simp only [leaseTupleConsistent, hPending] at h
  simpa [leaseTupleConsistent, fail] using h

theorem DeliveryRow.leaseToken_isSome {row : DeliveryRow} (h : row.leaseTupleConsistent = true)
    (hDelivering : row.status = .delivering) : row.leaseToken.isSome = true := by
  simp only [leaseTupleConsistent, hDelivering] at h
  simp at h
  exact Option.isSome_iff_exists.mpr (by simpa [Option.isSome_iff_exists] using h.1.2)

/-- Identifiers drawn for the rows of one list are distinct on the rows of any part of it. -/
theorem nodup_drawn {α : Type*} {rows chosen : List α} {draw : α → UUID} (hDrawn : (rows.map draw).Nodup)
    (hChosen : chosen.Nodup) (hPart : chosen ⊆ rows) : (chosen.map draw).Nodup :=
  hChosen.map_on fun _ ha _ hb hSame => List.inj_on_of_nodup_map hDrawn (hPart ha) (hPart hb) hSame

/-- The deliveries that one call of `RecoverExpiredDeliveries` updates. -/
def recoveredDeliveries (r : Readings) (limit : Int) (locked : UUID → Bool) (db : Database) : List DeliveryRow :=
  db.deliveries.filter (DeliveryRow.recoverable r limit locked db)

section Recovered

variable {limit : Int} {locked : UUID → Bool}

theorem recoveredDeliveries_subset (hDb : Integrity db) :
    recoveredDeliveries r limit locked db ⊆ expiredDeliveries r limit locked db := by
  intro row hRow
  obtain ⟨hMem, hRecoverable⟩ := List.mem_filter.mp hRow
  exact (DeliveryRow.recoverable_iff hDb hMem).mp hRecoverable

theorem recoveredDeliveries_nodup (hDb : Integrity db) :
    ((recoveredDeliveries r limit locked db).map DeliveryRow.id).Nodup :=
  (List.filter_sublist.map _).nodup hDb.deliveryIDs

theorem repairs_eq {rows : List DeliveryRow} {eventIDs traceIDs : UUID → UUID} :
    ((rows.map (DeliveryRow.recover r)).filter (·.status = .pending)).map
        (fun row => row.signal r (eventIDs row.id) (traceIDs row.id) row.updatedAt) =
      (rows.filter (r.statement < ·.retryDeadline)).map (DeliveryRow.repair r eventIDs traceIDs) := by
  rw [List.filter_map, List.map_map]
  congr 1
  refine List.filter_congr fun row _ => ?_
  simp only [Function.comp_apply, DeliveryRow.recover_pending_iff]

end Recovered

namespace Store

variable {s : Store} {limit : Int} {locked : UUID → Bool} {attemptIDs eventIDs traceIDs : UUID → UUID}
  {row : DeliveryRow} {event : OutboxEventRow} {id : UUID}

theorem Reachable.event_ne (hs : s.Reachable) (hID : id ∉ s.issued) (hEvent : event ∈ s.db.outboxEvents) :
    event.id ≠ id := by
  rintro rfl
  exact hID (hs.rowIDs_issued (List.mem_append_left _ (List.mem_map_of_mem hEvent)))

/-- An event with an identifier that has been drawn before is one from before the step. -/
theorem Step.event_follows {t : Store} {action : Action} {event' : OutboxEventRow} (hDb : Integrity s.db)
    (h : Step s action t) (hEvent' : event' ∈ t.db.outboxEvents) (hIssued : event'.id ∈ s.issued) :
    ∃ event ∈ s.db.outboxEvents, event.id = event'.id ∧
      (event' = event ∨ ∃ r op row, action = .commit r op ∧ EventMove r row op event event') := by
  have hAfter := (h.integrity hDb).eventIDs
  obtain ⟨old, hOld, hSame⟩ : ∃ event ∈ s.db.outboxEvents, event.identity = event'.identity := by
    cases action with
    | wait => exact ⟨event', h.waited.1 ▸ hEvent', rfl⟩
    | commit r op =>
      refine (Op.event_identities h.applied.1 hEvent').resolve_right fun hDrawn => ?_
      exact (h.drawn hDrawn).1 hIssued
  obtain ⟨hID, hOwner, _⟩ := Prod.mk.inj hSame |>.imp_right Prod.mk.inj
  -- no two rows have one identifier, so the row that the old one has become is this one
  rcases h.event_stays hDb hOld with ⟨next, hNext, hNextID, hMove⟩ | ⟨_, _, _, _, hGone⟩
  · obtain rfl : next = event' := List.inj_on_of_nodup_map hAfter hNext hEvent' (hNextID.trans hID)
    exact ⟨old, hOld, hID, hMove⟩
  · exact absurd hOwner.symm (hGone event' hEvent')

theorem Reachable.attempt_ne (hs : s.Reachable) (hID : id ∉ s.issued) {attempt : AttemptRow}
    (hAttempt : attempt ∈ s.db.deliveryAttempts) : attempt.id ≠ id := by
  rintro rfl
  exact hID (hs.rowIDs_issued (List.mem_append_right _ (List.mem_append_left _ (List.mem_map_of_mem hAttempt))))

theorem Reachable.audit_ne (hs : s.Reachable) (hID : id ∉ s.issued) {audit : ReplayAuditRow}
    (hAudit : audit ∈ s.db.replayAudits) : audit.id ≠ id := by
  rintro rfl
  exact hID (hs.rowIDs_issued (List.mem_append_right _ (List.mem_append_right _ (List.mem_map_of_mem hAudit))))

/-- No event is ahead of its delivery. -/
theorem Reachable.event_bound (hs : s.Reachable) (hRow : row ∈ s.db.deliveries) (hEvent : event ∈ s.db.outboxEvents)
    (hOwner : event.deliveryID = row.id) : event.generation ≤ row.generation :=
  (hs.paced row.id).bounded row (hs.integrity.dossier_row_iff.mpr ⟨hRow, rfl⟩) event
    ((mem_owned _).mpr ⟨hEvent, hOwner⟩)

theorem Reachable.slot_free (hs : s.Reachable) (hRow : row ∈ s.db.deliveries) (hEvent : event ∈ s.db.outboxEvents)
    {new : OutboxEventRow} (hOwner : new.deliveryID = row.id) (hAhead : row.generation < new.generation) :
    new.sameSlot event = false := by
  simp only [OutboxEventRow.sameSlot, Bool.and_eq_false_iff, decide_eq_false_iff_not]
  by_cases hSame : new.deliveryID = event.deliveryID
  · have hBound := hs.event_bound hRow hEvent (hSame.symm.trans hOwner)
    exact .inr (by omega)
  · exact .inl hSame

/-- Every delivery that a recovery returns to pending gets an event of its own. -/
theorem Reachable.recover_eq (hs : s.Reachable) (hClock : s.now ≤ r.statement) (hLimit : 0 < limit)
    (hFresh : (Op.recoverExpiredDeliveries limit locked attemptIDs eventIDs traceIDs).Fresh s r) :
    recoverExpiredDeliveries r limit locked attemptIDs eventIDs traceIDs s.db = .ok { s.db with
      deliveries := updateWhere (DeliveryRow.recoverable r limit locked s.db) (DeliveryRow.recover r) s.db.deliveries
      deliveryAttempts := s.db.deliveryAttempts ++ (recoveredDeliveries r limit locked s.db).map fun row =>
        row.recoveryAttempt r (attemptIDs row.id)
      outboxEvents := s.db.outboxEvents ++ ((recoveredDeliveries r limit locked s.db).filter
        (r.statement < ·.retryDeadline)).map (DeliveryRow.repair r eventIDs traceIDs) } := by
  have hDb := hs.integrity
  have hIDs : ((recoveredDeliveries r limit locked s.db).map DeliveryRow.id).Nodup := recoveredDeliveries_nodup hDb
  have hPart : recoveredDeliveries r limit locked s.db ⊆ expiredDeliveries r limit locked s.db :=
    recoveredDeliveries_subset hDb
  have hDrawn := hFresh.1
  have hOwner {row : DeliveryRow} (hRow : row ∈ s.db.deliveries) : ∃ delivery ∈ updateWhere
      (DeliveryRow.recoverable r limit locked s.db) (DeliveryRow.recover r) s.db.deliveries, delivery.id = row.id :=
    exists_mem_updateWhere DeliveryRow.id (fun _ => rfl) hRow
  simp only [Op.generated] at hDrawn
  simp only [recoverExpiredDeliveries, bind_ok_iff, ensure_ok_iff]
  refine ⟨(), decide_eq_true hLimit, _,
    Database.updateDeliveries_eq fun row _ _ => row.leaseTupleConsistent_recover, _,
    Database.insertAttempts_eq ?_ ?_ ?_,
    (congrArg (Database.insertMissingEvents · _) repairs_eq).trans (Database.insertMissingEvents_eq ?_ ?_ ?_ ?_)⟩
  · rw [List.map_map]
    exact nodup_drawn hDrawn.of_append_left hIDs.of_map hPart
  · intro attempt hAttempt other hOther
    obtain ⟨row, hRow, rfl⟩ := List.mem_map.mp hAttempt
    refine hs.attempt_ne (hFresh.2 _ ?_) hOther
    exact List.mem_append_left _ (List.mem_map.mpr ⟨row, hPart hRow, rfl⟩)
  · intro attempt hAttempt
    obtain ⟨row, hRow, rfl⟩ := List.mem_map.mp hAttempt
    obtain ⟨hMem, hRecoverable⟩ := List.mem_filter.mp hRow
    have hDelivering := of_decide_eq_true (Bool.and_eq_true_iff.mp hRecoverable).1
    have hUpdated := hs.updated_le (hDb.dossier_row_iff.mpr ⟨hMem, rfl⟩)
    exact ⟨hOwner hMem, DeliveryRow.leaseToken_isSome (hDb.leaseTuples row hMem) hDelivering,
      hUpdated.trans (hClock.trans (r.statement_le_write _ _))⟩
  · rw [List.map_map]
    exact nodup_drawn hDrawn.of_append_right.of_append_left (hIDs.of_map.filter _)
      fun row hRow => hPart (List.mem_filter.mp hRow).1
  · rw [List.pairwise_map]
    exact (List.pairwise_map.mp ((List.filter_sublist.map _).nodup hIDs)).imp fun hApart =>
      OutboxEventRow.sameSlot_of_ne hApart.symm
  · intro event hEvent other hOther
    obtain ⟨row, hRow, rfl⟩ := List.mem_map.mp hEvent
    obtain ⟨hRow, hDeadline⟩ := List.mem_filter.mp hRow
    refine ⟨hs.event_ne (hFresh.2 _ ?_) hOther, hs.slot_free (List.mem_filter.mp hRow).1 hOther rfl ?_⟩
    · exact List.mem_append_right _ (List.mem_append_left _ (List.mem_map.mpr ⟨row, hPart hRow, rfl⟩))
    · simp [DeliveryRow.repair, DeliveryRow.signal, DeliveryRow.recover, not_le.mpr (of_decide_eq_true hDeadline)]
  · intro event hEvent
    obtain ⟨row, hRow, rfl⟩ := List.mem_map.mp hEvent
    have hFound := hOwner (List.mem_filter.mp (List.mem_filter.mp hRow).1).1
    exact ⟨hFound, rfl⟩

/-- The events that a schedule inserts are for generations that have none. -/
theorem Reachable.schedule_eq (hs : s.Reachable) (hLimit : 0 < limit)
    (hFresh : (Op.scheduleDueRetries limit locked eventIDs traceIDs).Fresh s r) :
    scheduleDueRetries r limit locked eventIDs traceIDs s.db = .ok { s.db with
      deliveries := updateWhere (·.pastDeadline r) (DeliveryRow.fail r) s.db.deliveries
      outboxEvents := s.db.outboxEvents ++ (dueDeliveries r limit locked s.db).map fun row =>
        row.signal r (eventIDs row.id) (traceIDs row.id) row.nextAttemptAt } := by
  have hDb := hs.integrity
  have hIDs : ((dueDeliveries r limit locked s.db).map DeliveryRow.id).Nodup := batch_map_nodup _ _ hDb.deliveryIDs
  simp only [scheduleDueRetries, bind_ok_iff, ensure_ok_iff]
  refine ⟨(), decide_eq_true hLimit, _, Database.updateDeliveries_eq fun row hRow hPast => ?_,
    Database.insertMissingEvents_eq ?_ ?_ ?_ ?_⟩
  · exact DeliveryRow.leaseTupleConsistent_fail (hDb.leaseTuples row hRow) (DeliveryRow.pastDeadline_iff.mp hPast).1
  · rw [List.map_map]
    exact hFresh.1.of_append_left
  · rw [List.pairwise_map]
    exact (List.pairwise_map.mp hIDs).imp fun hApart => OutboxEventRow.sameSlot_of_ne hApart.symm
  · intro event hEvent other hOther
    obtain ⟨row, hRow, rfl⟩ := List.mem_map.mp hEvent
    have hDue := (mem_of_mem_batch _ hRow).2
    obtain ⟨_, _, _, _, hMissing⟩ := DeliveryRow.unsignalled_iff.mp (Bool.and_eq_true_iff.mp hDue).1
    refine ⟨hs.event_ne (hFresh.2 _ (List.mem_append_left _ (List.mem_map.mpr ⟨row, hRow, rfl⟩))) hOther, ?_⟩
    have hApart := hMissing other hOther
    simp only [OutboxEventRow.sameSlot, Bool.and_eq_false_iff, decide_eq_false_iff_not]
    exact not_and_or.mp fun hSame => hApart ⟨hSame.1.symm, hSame.2.symm⟩
  · intro event hEvent
    obtain ⟨row, hRow, rfl⟩ := List.mem_map.mp hEvent
    exact ⟨exists_mem_updateWhere DeliveryRow.id (fun _ => rfl) (mem_of_mem_batch _ hRow).1, rfl⟩

theorem Reachable.reconcile_eq {watchdog : Duration} (hs : s.Reachable) (hWatchdog : 0 < watchdog)
    (hLimit : 0 < limit) :
    reconcileStalledSignals r watchdog limit locked traceIDs s.db = .ok { s.db with
      outboxEvents := updateWhere (fun row => row.publishedAt.isSome &&
        (stalledEvents r watchdog limit locked s.db).any fun candidate => candidate.id = row.id)
        (fun row => row.reset r (traceIDs row.id)) s.db.outboxEvents } := by
  refine bind_ok_iff.mpr ⟨(), ?_, Database.updateEvents_eq fun row hRow _ => hs.integrity.eventLeases row hRow⟩
  simp [ensure_ok_iff, hWatchdog, hLimit]

/-- The row that a replay of a failed delivery finds is that of the delivery. -/
theorem Reachable.find_failed (hs : s.Reachable) (hRow : row ∈ s.db.deliveries)
    (hFailed : row.status = .failedPermanent) :
    s.db.deliveries.find? (fun other => other.id = row.id && other.status = .failedPermanent) = some row := by
  cases hFound : s.db.deliveries.find? (fun other => other.id = row.id && other.status = .failedPermanent) with
  | none => exact absurd (List.find?_eq_none.mp hFound row hRow) (by simp [hFailed])
  | some other =>
    have hMatch := List.find?_some hFound
    simp only [Bool.and_eq_true, decide_eq_true_eq] at hMatch
    rw [List.inj_on_of_nodup_map hs.integrity.deliveryIDs (List.mem_of_find?_eq_some hFound) hRow hMatch.1]

/-- A replay of a failed delivery is refused for its operator or not at all. -/
theorem Reachable.replay_eq {replayedAt : Time} {operatorID reason : String} {auditID outboxID traceID : UUID}
    (hs : s.Reachable) (hRow : row ∈ s.db.deliveries) (hFailed : row.status = .failedPermanent)
    (hReason : 1 ≤ reason.length ∧ reason.length ≤ 1000)
    (hFresh : (Op.replay replayedAt row.id operatorID reason auditID outboxID traceID).Fresh s r) :
    replay replayedAt r row.id operatorID reason auditID outboxID traceID s.db =
      if s.db.callers.any fun caller => caller.id = operatorID then
        .ok ((row.replay replayedAt).load, { s.db with
          deliveries := updateWhere (fun other => other.id = row.id && other.status = .failedPermanent)
            (DeliveryRow.replay replayedAt) s.db.deliveries
          replayAudits := s.db.replayAudits ++
            [⟨auditID, row.id, row.generation, row.generation + 1, operatorID, reason, replayedAt⟩]
          outboxEvents := s.db.outboxEvents ++ [(row.replay replayedAt).signal r outboxID traceID replayedAt] })
      else .error (.constraint .operatorReference) := by
  have hOwner : ∃ delivery ∈ updateWhere (fun other => other.id = row.id && other.status = .failedPermanent)
      (DeliveryRow.replay replayedAt) s.db.deliveries, delivery.id = row.id :=
    exists_mem_updateWhere DeliveryRow.id (fun _ => rfl) hRow
  have hLast (other : ReplayAuditRow) (hOther : other ∈ s.db.replayAudits) (hSame : other.deliveryID = row.id) :
      other.toGeneration < row.generation + 1 := by
    have hHistory := hs.history (hs.integrity.dossier_row_iff.mpr ⟨hRow, rfl⟩)
    exact Nat.lt_succ_of_le (hHistory.audits other ((mem_owned _).mpr ⟨hOther, hSame⟩)).2
  have hAudit := @Database.insertAudit_eq
    { s.db with
      deliveries := updateWhere (fun other => other.id = row.id && other.status = .failedPermanent)
        (DeliveryRow.replay replayedAt) s.db.deliveries }
    ⟨auditID, row.id, row.generation, row.generation + 1, operatorID, reason, replayedAt⟩
    (fun other hOther => hs.audit_ne (hFresh.2 _ List.mem_cons_self) hOther) hOwner rfl hReason hLast
  by_cases hOperator : (s.db.callers.any fun caller => caller.id = operatorID) = true
  · rw [if_pos hOperator]
    simp only [replay, hs.find_failed hRow hFailed, bind_ok_iff, pure_ok_iff]
    refine ⟨_, Database.updateDeliveries_eq fun _ _ _ => rfl, _, hAudit.trans (if_pos hOperator), _,
      Database.insertEvent_eq (fun other hOther => ?_) (fun other hOther => ?_) hOwner rfl, rfl⟩
    · exact hs.event_ne (hFresh.2 _ (List.mem_cons_of_mem _ List.mem_cons_self)) hOther
    · exact hs.slot_free hRow hOther rfl (Nat.lt_succ_self _)
  · rw [if_neg hOperator]
    simp only [replay, hs.find_failed hRow hFailed, bind_error_iff]
    exact .inr ⟨_, Database.updateDeliveries_eq fun _ _ _ => rfl, .inl (hAudit.trans (if_neg hOperator))⟩

end Store

/-! ## Refusals -/

/-- The operation neither registers a destination nor accepts a delivery. -/
def Op.isInternal : Op → Bool
  | .bootstrap .. | .submit .. => false
  | _ => true

/-- What the callers of the store see to: times in order, and a reason of 1 to 1000 characters. -/
def Op.Proper : Op → Prop
  | .complete _ result _ => result.startedAt ≤ result.finishedAt
  | .replay _ _ _ reason .. => 1 ≤ reason.length ∧ reason.length ≤ 1000
  | _ => True

/-- A row broke a constraint, though every row that an argument refers to is there. -/
def StoreError.IsPoison : StoreError → Prop
  | .constraint .operatorReference => False
  | .constraint _ => True
  | _ => False

theorem Database.queryDestinationVersion_avoids {destinationID : String} {version : Int} :
    Avoids StoreError.IsPoison (db.queryDestinationVersion destinationID version) := by
  unfold queryDestinationVersion
  split
  · exact .ok _
  · exact .error not_false

theorem claimOutbox_avoids {owner : String} {leaseDuration : Duration} {limit : Int} {locked : UUID → Bool}
    {token : UUID} : Avoids StoreError.IsPoison (claimOutbox r owner leaseDuration limit locked token db) :=
  .bind (.ensure (.inr not_false)) fun _ _ =>
    .bind (.of_eq (Database.updateEvents_eq fun _ _ _ => rfl)) fun _ _ => .ok _

theorem markOutboxPublished_avoids {event : OutboxEvent} :
    Avoids StoreError.IsPoison (markOutboxPublished r event db) :=
  .bind (.of_eq (Database.updateEvents_eq fun _ _ _ => rfl)) fun _ _ =>
    .bind (.ensure (.inr not_false)) fun _ _ => .ok _

theorem releaseOutbox_avoids {event : OutboxEvent} : Avoids StoreError.IsPoison (releaseOutbox event db) := by
  refine .bind (.of_eq (Database.updateEvents_eq fun _ _ _ => rfl)) fun _ _ => ?_
  split
  · exact .bind (.ensure (.inr not_false)) fun _ _ => .ok _
  · exact .ok _

theorem claimDelivery_avoids {deliveryID : UUID} {generation : Nat} {owner : String} {leaseDuration : Duration}
    {token : UUID} :
    Avoids StoreError.IsPoison (claimDelivery r deliveryID generation owner leaseDuration token db) := by
  refine .bind (.ensure (.inr not_false)) fun _ _ => ?_
  split
  · exact .error not_false
  · exact .bind (.of_eq (Database.updateDeliveries_eq fun _ _ _ => rfl)) fun _ _ =>
      .bind Database.queryDestinationVersion_avoids fun _ _ => .ok _

theorem DeliveryRow.leaseTupleConsistent_complete {resultClass : ResultClass} {nextAttemptAt : Option Time}
    (row : DeliveryRow) : (row.complete r resultClass nextAttemptAt).leaseTupleConsistent = true := by
  cases resultClass <;> rfl

namespace Store

variable {s : Store}

theorem Reachable.completeResult_avoids {result : AttemptResult} {resultClass : ResultClass}
    {nextAttemptAt : Option GoTime} {attemptID : UUID} (hs : s.Reachable) (hID : attemptID ∉ s.issued)
    (hOrder : result.startedAt ≤ result.finishedAt) :
    Avoids StoreError.IsPoison (completeResult r result resultClass nextAttemptAt attemptID s.db) := by
  refine .bind (.of_eq (Database.updateDeliveries_eq fun row _ _ => row.leaseTupleConsistent_complete))
    fun completed hCompleted => .bind (.ensure (.inr not_false)) fun _ hCount => ?_
  obtain ⟨_, rfl⟩ := Database.updateDeliveries_ok hCompleted
  have hOne := of_decide_eq_true (ensure_ok_iff.mp hCount)
  obtain ⟨row, hRow, hMatch⟩ := List.countP_pos_iff.mp (hOne.symm ▸ Nat.one_pos)
  have hSame : row.id = result.deliveryID := (DeliveryRow.fenced_iff.mp hMatch).1
  obtain ⟨delivery, hDelivery, hOwner⟩ : ∃ delivery ∈ updateWhere
      (DeliveryRow.fenced r result resultClass nextAttemptAt)
      (DeliveryRow.complete r resultClass (nextAttemptAt.map microseconds)) s.db.deliveries, delivery.id = row.id :=
    exists_mem_updateWhere DeliveryRow.id (fun _ => rfl) hRow
  exact .of_eq (Database.insertAttempt_eq (fun other hOther => hs.attempt_ne hID hOther)
    ⟨delivery, hDelivery, hOwner.trans hSame⟩ rfl (microseconds_mono hOrder))

theorem Reachable.replay_avoids {replayedAt : Time} {deliveryID : UUID} {operatorID reason : String}
    {auditID outboxID traceID : UUID} (hs : s.Reachable) (hReason : 1 ≤ reason.length ∧ reason.length ≤ 1000)
    (hFresh : (Op.replay replayedAt deliveryID operatorID reason auditID outboxID traceID).Fresh s r) :
    Avoids StoreError.IsPoison
      (replay replayedAt r deliveryID operatorID reason auditID outboxID traceID s.db) := by
  cases hFind : s.db.deliveries.find? (fun row => row.id = deliveryID && row.status = .failedPermanent) with
  | none =>
    simp only [replay, hFind]
    split
    · exact .error not_false
    · exact .error not_false
  | some row =>
    have hMatch := List.find?_some hFind
    simp only [Bool.and_eq_true, decide_eq_true_eq] at hMatch
    obtain ⟨rfl, hFailed⟩ := hMatch
    rw [hs.replay_eq (List.mem_of_find?_eq_some hFind) hFailed hReason hFresh]
    split
    · exact .ok _
    · exact .error not_false

/-- Whatever the rows are, an internal operation does not fail because of one of them. -/
theorem Reachable.apply_avoids {op : Op} (hs : s.Reachable) (hClock : s.now ≤ r.statement) (hFresh : op.Fresh s r)
    (hProper : op.Proper) (hInternal : op.isInternal = true) : Avoids StoreError.IsPoison (op.apply r s.db) := by
  have hArguments {condition : Bool} {rest : Unit → Except StoreError Database}
      (h : condition = true → Avoids StoreError.IsPoison (rest ())) :
      Avoids StoreError.IsPoison (ensure condition .invalidArguments >>= rest) :=
    .bind (.ensure (.inr not_false)) fun _ hOk => h (ensure_ok_iff.mp hOk)
  cases op with
  | bootstrap | submit => cases hInternal
  | claimOutbox => exact claimOutbox_avoids.map
  | markOutboxPublished => exact markOutboxPublished_avoids
  | releaseOutbox => exact releaseOutbox_avoids
  | observeSignal => exact .of_eq (Database.updateEvents_eq fun row hRow _ => hs.integrity.eventLeases row hRow)
  | claimDelivery => exact claimDelivery_avoids.map
  | complete completion =>
    cases completion <;> exact hs.completeResult_avoids (hFresh.2 _ (List.mem_singleton_self _)) hProper
  | scheduleDueRetries limit =>
    by_cases hLimit : 0 < limit
    · exact .of_eq (hs.schedule_eq hLimit hFresh)
    · exact hArguments fun h => absurd (of_decide_eq_true h) hLimit
  | recoverExpiredDeliveries limit =>
    by_cases hLimit : 0 < limit
    · exact .of_eq (hs.recover_eq hClock hLimit hFresh)
    · exact hArguments fun h => absurd (of_decide_eq_true h) hLimit
  | reconcileStalledSignals =>
    exact hArguments fun _ => .of_eq (Database.updateEvents_eq fun row hRow _ => hs.integrity.eventLeases row hRow)
  | replay => exact (hs.replay_avoids hProper hFresh).map
  | deleteExpiredTerminal => exact (Avoids.bind (.ensure (.inr not_false)) fun _ _ => .ok _).map

/-- No row of a reachable state breaks a constraint in an internal operation. A recovery never meets an event
of the generation it opens, and with a known operator a failed delivery can be replayed. -/
theorem no_poisoned_operation (hs : s.Reachable) :
    (∀ (r : Readings) (op : Op) (broken : Constraint), s.now ≤ r.statement → op.Fresh s r → op.Proper →
      op.isInternal = true → broken ≠ .operatorReference → op.apply r s.db ≠ .error (.constraint broken)) ∧
    (∀ (r : Readings) (limit : Int) (locked : UUID → Bool) (attemptIDs eventIDs traceIDs : UUID → UUID),
      s.now ≤ r.statement → 0 < limit →
      (Op.recoverExpiredDeliveries limit locked attemptIDs eventIDs traceIDs).Fresh s r →
      ∃ db', recoverExpiredDeliveries r limit locked attemptIDs eventIDs traceIDs s.db = .ok db' ∧
        ∀ row ∈ recoveredDeliveries r limit locked s.db, r.statement < row.retryDeadline →
          (∀ event ∈ s.db.outboxEvents, ¬(event.deliveryID = row.id ∧ event.generation = row.generation + 1)) ∧
          row.repair r eventIDs traceIDs ∈ db'.outboxEvents) ∧
    ∀ (r : Readings) (replayedAt : Time) (row : DeliveryRow) (operatorID reason : String)
      (auditID outboxID traceID : UUID), row ∈ s.db.deliveries → row.status = .failedPermanent →
      (∃ caller ∈ s.db.callers, caller.id = operatorID) → 1 ≤ reason.length ∧ reason.length ≤ 1000 →
      (Op.replay replayedAt row.id operatorID reason auditID outboxID traceID).Fresh s r →
      ∃ reply, replay replayedAt r row.id operatorID reason auditID outboxID traceID s.db = .ok reply := by
  refine ⟨?_, ?_, ?_⟩
  · intro r op broken hClock hFresh hProper hInternal hOther hApply
    refine hs.apply_avoids hClock hFresh hProper hInternal _ hApply ?_
    cases broken with
    | operatorReference => exact hOther rfl
    | _ => trivial
  · intro r limit locked attemptIDs eventIDs traceIDs hClock hLimit hFresh
    refine ⟨_, hs.recover_eq hClock hLimit hFresh, fun row hRow hOpen => ⟨fun event hEvent hSame => ?_, ?_⟩⟩
    · have hBound := hs.event_bound (List.mem_filter.mp hRow).1 hEvent hSame.1
      have := hSame.2
      omega
    · exact List.mem_append_right _ (List.mem_map_of_mem (List.mem_filter.mpr ⟨hRow, decide_eq_true hOpen⟩))
  · intro r replayedAt row operatorID reason auditID outboxID traceID hRow hFailed hOperator hReason hFresh
    rw [hs.replay_eq hRow hFailed hReason hFresh, if_pos (by simpa using hOperator)]
    exact ⟨_, rfl⟩

instance (s : Store) (r : Readings) (op : Op) : Decidable (op.Fresh s r) :=
  inferInstanceAs (Decidable ((op.generated r s.db).Nodup ∧ ∀ id ∈ op.generated r s.db, id ∉ s.issued))

/-- A lease of ninety seconds runs out. -/
theorem no_poisoned_operation_expired :
    ∃ (s : Store) (db' : Database), s.Reachable ∧
      recoverExpiredDeliveries (.instant 100000000) 1 (fun _ => false) (fun _ => 105) (fun _ => 106)
        (fun _ => 107) s.db = .ok db' ∧
      ∃ event ∈ db'.outboxEvents, event.id = 106 ∧ event.generation = 1 := by
  have hRun : ((start 0).play (Sample.accepted ++ [(8, .claimDelivery 100 0 "worker" 90000000000 104)])).any
      (fun s => s.now ≤ 100000000 && ((Op.recoverExpiredDeliveries 1 (fun _ => false) (fun _ => 105) (fun _ => 106)
        (fun _ => 107)).Fresh s (.instant 100000000) &&
          (recoveredDeliveries (.instant 100000000) 1 (fun _ => false) s.db).any fun row =>
            row.generation = 0 && 100000000 < row.retryDeadline)) = true := by
    decide +kernel
  obtain ⟨s, hPlay, hState⟩ := (Option.any_eq_true _ _).mp hRun
  obtain ⟨hNow, hState⟩ := Bool.and_eq_true_iff.mp hState
  obtain ⟨hFresh, hRows⟩ := Bool.and_eq_true_iff.mp hState
  obtain ⟨row, hRow, hBoth⟩ := List.any_eq_true.mp hRows
  obtain ⟨hFirst, hDeadline⟩ := Bool.and_eq_true_iff.mp hBoth
  have hs := reachable_of_play hPlay
  obtain ⟨db', hRecover, hEvents⟩ := (no_poisoned_operation hs).2.1 (.instant 100000000) 1 (fun _ => false)
    (fun _ => 105) (fun _ => 106) (fun _ => 107) (of_decide_eq_true hNow) (by decide) (of_decide_eq_true hFresh)
  have hOpen : 100000000 < row.retryDeadline := of_decide_eq_true hDeadline
  refine ⟨s, db', hs, hRecover, _, (hEvents row hRow hOpen).2, rfl, ?_⟩
  have hGeneration : row.generation = 0 := of_decide_eq_true hFirst
  simp [DeliveryRow.repair, DeliveryRow.signal, DeliveryRow.recover, Readings.instant, not_le.mpr hOpen, hGeneration]

/-- `Store.Replay` leaves the length of a reason to its caller, and the table does not take an empty one. -/
theorem replay_without_reason :
    ∃ (s : Store) (op : Op), s.Reachable ∧ s.now ≤ 10 ∧ op.Timely (.instant 10) ∧ op.Fresh s (.instant 10) ∧
      op.isInternal = true ∧ op.apply (.instant 10) s.db = .error (.constraint .auditReason) := by
  have hRun : ((start 0).play (Sample.accepted ++ [(8, .claimDelivery 100 0 "worker" 90000000000 104),
      (9, .complete .permanent Sample.result 105)])).any (fun s => s.now ≤ 10 &&
        ((Op.replay 10 100 "shop" "" 106 107 108).Fresh s (.instant 10) &&
          failure ((Op.replay 10 100 "shop" "" 106 107 108).apply (.instant 10) s.db) =
            some (.constraint .auditReason))) = true := by
    decide +kernel
  obtain ⟨s, hPlay, hState⟩ := (Option.any_eq_true _ _).mp hRun
  obtain ⟨hNow, hState⟩ := Bool.and_eq_true_iff.mp hState
  obtain ⟨hFresh, hError⟩ := Bool.and_eq_true_iff.mp hState
  exact ⟨s, .replay 10 100 "shop" "" 106 107 108, reachable_of_play hPlay, of_decide_eq_true hNow, le_rfl,
    of_decide_eq_true hFresh, rfl, failure_eq_some_iff.mp (of_decide_eq_true hError)⟩

end Store

end ReliableNotifier
