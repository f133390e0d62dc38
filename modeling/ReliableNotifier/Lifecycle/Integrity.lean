import ReliableNotifier.Store.Operation

/-! # Relational integrity

Every statement either respects the keys, references and row checks of the
migrations or fails, so they hold after every committed operation. Nothing here
rests on what the operations are for.
-/

namespace ReliableNotifier

open Checked RowTable

/-- The columns no update of `deliveries` assigns. -/
def DeliveryRow.identity (row : DeliveryRow) : DeliveryRow :=
  { row with
    status := .pending, generation := 0, retryDeadline := 0, nextAttemptAt := 0, updatedAt := 0
    leaseOwner := none, leaseToken := none, leaseUntil := none }

/-- The columns no update of `outbox_events` assigns. -/
def OutboxEventRow.identity (row : OutboxEventRow) : UUID × UUID × Nat :=
  (row.id, row.deliveryID, row.generation)

theorem DeliveryRow.of_identity {β : Type*} (g : DeliveryRow → β) (hg : ∀ row, g row.identity = g row)
    {a b : DeliveryRow} (h : a.identity = b.identity) : g a = g b :=
  (hg a).symm.trans ((congrArg g h).trans (hg b))

/-- `P` is kept by every statement that an operation is made of, where the events it inserts have
identifiers that are `fresh`. -/
structure Kept (fresh : UUID → Prop) (P : Database → Prop) : Prop where
  bootstrap : ∀ {db db' : Database} {apiKeyHash : Digest} {config : BootstrapConfig},
    ReliableNotifier.bootstrap apiKeyHash config db = .ok db' → P db → P db'
  updateDeliveries : ∀ {db db' : Database} {p : DeliveryRow → Bool} {f : DeliveryRow → DeliveryRow},
    db.updateDeliveries p f = .ok db' → (∀ row, (f row).identity = row.identity) → P db → P db'
  updateEvents : ∀ {db db' : Database} {p : OutboxEventRow → Bool} {f : OutboxEventRow → OutboxEventRow},
    db.updateEvents p f = .ok db' → (∀ row, (f row).identity = row.identity) → P db → P db'
  insertDelivery : ∀ {db db' : Database} {row : DeliveryRow}, db.insertDelivery row = .ok db' → P db → P db'
  insertEvent : ∀ {db db' : Database} {row : OutboxEventRow}, fresh row.id → db.insertEvent row = .ok db' →
    P db → P db'
  insertAttempt : ∀ {db db' : Database} {row : AttemptRow}, db.insertAttempt row = .ok db' → P db → P db'
  insertAudit : ∀ {db db' : Database} {row : ReplayAuditRow}, db.insertAudit row = .ok db' → P db → P db'
  deleteDeliveries : ∀ {db : Database} (p : DeliveryRow → Bool), P db → P (db.deleteDeliveries p)

namespace Kept

variable {fresh : UUID → Prop} {P : Database → Prop} {db db' : Database}

theorem insertMissingEvents (hP : Kept fresh P) {rows : List OutboxEventRow} (hFresh : ∀ row ∈ rows, fresh row.id)
    (h : db.insertMissingEvents rows = .ok db') (hDb : P db) : P db' := by
  induction rows generalizing db with
  | nil =>
    cases h
    exact hDb
  | cons row rest ih =>
    rw [Database.insertMissingEvents] at h
    obtain ⟨hFirst, hOthers⟩ := List.forall_mem_cons.mp hFresh
    split at h
    · exact ih hOthers h hDb
    · obtain ⟨middle, hRow, hRest⟩ := bind_ok_iff.mp h
      exact ih hOthers hRest (hP.insertEvent hFirst hRow hDb)

theorem insertAttempts (hP : Kept fresh P) {rows : List AttemptRow} (h : db.insertAttempts rows = .ok db')
    (hDb : P db) : P db' := by
  induction rows generalizing db with
  | nil =>
    cases h
    exact hDb
  | cons row rest ih =>
    obtain ⟨middle, hRow, hRest⟩ := bind_ok_iff.mp h
    exact ih hRest (hP.insertAttempt hRow hDb)

/-- What every statement keeps, every committed operation keeps. -/
theorem apply (hP : Kept fresh P) {r : Readings} {op : Op} (h : op.apply r db = .ok db')
    (hFresh : ∀ id ∈ op.generated r db, fresh id) (hDb : P db) : P db' := by
  cases op with
  | bootstrap apiKeyHash config => exact hP.bootstrap h hDb
  | submit backlogLimit submission deliveryID outboxID traceID =>
    obtain ⟨⟨reply, final⟩, hSubmit, rfl⟩ := map_ok_iff.mp h
    rcases submit_ok hSubmit with ⟨_, _, _, _, rfl⟩ | ⟨_, _, _, hInsert⟩
    · exact hDb
    · obtain ⟨middle, hDelivery, hEvent⟩ := insertSubmission_ok hInsert
      exact hP.insertEvent (hFresh outboxID (by simp [Op.generated])) hEvent (hP.insertDelivery hDelivery hDb)
  | claimOutbox owner leaseDuration limit locked token =>
    obtain ⟨⟨reply, final⟩, hClaim, rfl⟩ := map_ok_iff.mp h
    exact hP.updateEvents (claimOutbox_ok hClaim).2.1 (fun _ => rfl) hDb
  | markOutboxPublished event => exact hP.updateEvents (markOutboxPublished_ok h).1 (fun _ => rfl) hDb
  | releaseOutbox event => exact hP.updateEvents (releaseOutbox_ok h) (fun _ => rfl) hDb
  | observeSignal deliveryID generation => exact hP.updateEvents h (fun _ => rfl) hDb
  | claimDelivery deliveryID generation owner leaseDuration token =>
    obtain ⟨⟨reply, final⟩, hClaim, rfl⟩ := map_ok_iff.mp h
    obtain ⟨_, _, hUpdate, _⟩ := claimDelivery_ok hClaim
    exact hP.updateDeliveries hUpdate (fun _ => rfl) hDb
  | complete completion result attemptID =>
    obtain ⟨completed, hUpdate, _, hInsert⟩ := completeResult_ok (Op.apply_complete h)
    exact hP.insertAttempt hInsert (hP.updateDeliveries hUpdate (fun _ => rfl) hDb)
  | scheduleDueRetries limit locked eventIDs traceIDs =>
    obtain ⟨expired, hUpdate, hInsert⟩ := scheduleDueRetries_ok h
    refine hP.insertMissingEvents (fun event hEvent => ?_) hInsert (hP.updateDeliveries hUpdate (fun _ => rfl) hDb)
    obtain ⟨row, hRow, rfl⟩ := List.mem_map.mp hEvent
    exact hFresh _ (List.mem_append_left _ (List.mem_map.mpr ⟨row, hRow, rfl⟩))
  | recoverExpiredDeliveries limit locked attemptIDs eventIDs traceIDs =>
    obtain ⟨updated, recorded, hUpdate, hRecord, hInsert⟩ := recoverExpiredDeliveries_ok h
    have hUpdated := hP.updateDeliveries hUpdate (fun _ => rfl) hDb
    refine hP.insertMissingEvents (fun event hEvent => ?_) hInsert (hP.insertAttempts hRecord hUpdated)
    obtain ⟨recovered, hRecovered, rfl⟩ := List.mem_map.mp hEvent
    obtain ⟨row, hRow, rfl⟩ := List.mem_map.mp (List.mem_filter.mp hRecovered).1
    obtain ⟨other, hOther, hID⟩ := row.expired_of_recoverable (List.mem_filter.mp hRow).2
    exact hFresh _ (List.mem_append_right _ (List.mem_append_left _
      (List.mem_map.mpr ⟨other, hOther, congrArg eventIDs hID⟩)))
  | reconcileStalledSignals watchdog limit locked traceIDs =>
    exact hP.updateEvents (reconcileStalledSignals_ok h) (fun _ => rfl) hDb
  | replay replayedAt deliveryID operatorID reason auditID outboxID traceID =>
    obtain ⟨⟨reply, final⟩, hReplay, rfl⟩ := map_ok_iff.mp h
    obtain ⟨_, updated, audited, _, hUpdate, hAudit, hInsert, _⟩ := replay_ok hReplay
    exact hP.insertEvent (hFresh outboxID (by simp [Op.generated])) hInsert
      (hP.insertAudit hAudit (hP.updateDeliveries hUpdate (fun _ => rfl) hDb))
  | deleteExpiredTerminal successRetention failureRetention limit locked =>
    obtain ⟨⟨deleted, final⟩, hDelete, rfl⟩ := map_ok_iff.mp h
    rw [deleteExpiredTerminal_ok hDelete]
    exact hP.deleteDeliveries _ hDb

end Kept

/-- Only `Bootstrap` writes the table of versions. -/
theorem Kept.of_versions {fresh : UUID → Prop} {Q : List DestinationVersionRow → Prop}
    (hBootstrap : ∀ {db db' : Database} {apiKeyHash : Digest} {config : BootstrapConfig},
      ReliableNotifier.bootstrap apiKeyHash config db = .ok db' → Q db.destinationVersions →
        Q db'.destinationVersions) :
    Kept fresh fun db => Q db.destinationVersions where
  bootstrap := hBootstrap
  updateDeliveries h _ hDb := by
    obtain ⟨_, rfl⟩ := Database.updateDeliveries_ok h
    exact hDb
  updateEvents h _ hDb := by
    obtain ⟨_, rfl⟩ := Database.updateEvents_ok h
    exact hDb
  insertDelivery h hDb := by
    obtain ⟨_, _, _, _, rfl⟩ := Database.insertDelivery_ok h
    exact hDb
  insertEvent _ h hDb := by
    obtain ⟨_, _, _, _, rfl⟩ := Database.insertEvent_ok h
    exact hDb
  insertAttempt h hDb := by
    obtain ⟨_, _, rfl⟩ := Database.insertAttempt_ok h
    exact hDb
  insertAudit h hDb := by
    obtain ⟨_, _, rfl⟩ := Database.insertAudit_ok h
    exact hDb
  deleteDeliveries _ hDb := hDb

/-- Destination versions are only ever added. -/
theorem kept_versions (versions : List DestinationVersionRow) :
    Kept (fun _ => True) fun db => ∃ more, db.destinationVersions = versions ++ more := by
  refine .of_versions (Q := fun rows => ∃ more, rows = versions ++ more) fun h hDb => ?_
  obtain ⟨_, _, _, _, new, hNew⟩ := bootstrap_ok h
  obtain ⟨more, hMore⟩ := hDb
  exact ⟨more ++ new, by rw [hNew, hMore, List.append_assoc]⟩

structure Integrity (db : Database) : Prop where
  deliveryIDs : (db.deliveries.map DeliveryRow.id).Nodup
  callerKeys : (db.deliveries.map fun row => (row.callerID, row.idempotencyKey)).Nodup
  leaseTuples : ∀ row ∈ db.deliveries, row.leaseTupleConsistent = true
  destinations : ∀ row ∈ db.deliveries, ∃ version ∈ db.destinationVersions,
    version.destinationID = row.destinationID ∧ version.version = row.destinationVersion
  eventIDs : (db.outboxEvents.map OutboxEventRow.id).Nodup
  eventSlots : (db.outboxEvents.map fun row => (row.deliveryID, row.generation)).Nodup
  eventLeases : ∀ row ∈ db.outboxEvents, row.leaseIsComplete = true
  eventOwners : ∀ row ∈ db.outboxEvents, ∃ delivery ∈ db.deliveries, delivery.id = row.deliveryID
  attemptOwners : ∀ row ∈ db.deliveryAttempts, ∃ delivery ∈ db.deliveries, delivery.id = row.deliveryID
  auditOwners : ∀ row ∈ db.replayAudits, ∃ delivery ∈ db.deliveries, delivery.id = row.deliveryID

theorem nodup_map_concat {α β : Type*} {rows : List α} {row : α} {g : α → β} (h : (rows.map g).Nodup)
    (hRow : ∀ other ∈ rows, g other ≠ g row) : ((rows ++ [row]).map g).Nodup := by
  rw [List.map_append, List.map_singleton]
  apply List.Nodup.append h (List.nodup_singleton _)
  intro value hValue hSingle
  obtain ⟨other, hOther, rfl⟩ := List.mem_map.mp hValue
  exact hRow other hOther (List.mem_singleton.mp hSingle)

namespace Integrity

variable {db db' : Database}

theorem empty : Integrity .empty := by
  constructor <;> simp [Database.empty]

theorem updateDeliveries {p : DeliveryRow → Bool} {f : DeliveryRow → DeliveryRow}
    (hDb : Integrity db) (h : db.updateDeliveries p f = .ok db')
    (hf : ∀ row, (f row).identity = row.identity) : Integrity db' := by
  obtain ⟨hLease, rfl⟩ := Database.updateDeliveries_ok h
  have hIDs := map_key_updateWhere (p := p) DeliveryRow.id
    (fun row => DeliveryRow.of_identity _ (fun _ => rfl) (hf row)) db.deliveries
  have hKeys := map_key_updateWhere (p := p) (f := f) (fun row => (row.callerID, row.idempotencyKey))
    (fun row => DeliveryRow.of_identity (fun row => (row.callerID, row.idempotencyKey)) (fun _ => rfl) (hf row))
    db.deliveries
  have hOwner : ∀ id, (∃ delivery ∈ db.deliveries, delivery.id = id) →
      ∃ delivery ∈ updateWhere p f db.deliveries, delivery.id = id := by
    intro id hOld
    have hMem : id ∈ db.deliveries.map DeliveryRow.id := List.mem_map.mpr hOld
    rw [← hIDs] at hMem
    exact List.mem_map.mp hMem
  refine ⟨hIDs ▸ hDb.deliveryIDs, hKeys ▸ hDb.callerKeys, ?_, ?_, hDb.eventIDs, hDb.eventSlots, hDb.eventLeases,
    fun row hRow => hOwner _ (hDb.eventOwners row hRow), fun row hRow => hOwner _ (hDb.attemptOwners row hRow),
    fun row hRow => hOwner _ (hDb.auditOwners row hRow)⟩
  · intro row hRow
    obtain ⟨old, hOld, rfl⟩ := mem_updateWhere.mp hRow
    split
    · exact hLease old hOld ‹_›
    · exact hDb.leaseTuples old hOld
  · intro row hRow
    obtain ⟨old, hOld, rfl⟩ := mem_updateWhere.mp hRow
    have hDestination := hDb.destinations old hOld
    split
    · rw [DeliveryRow.of_identity DeliveryRow.destinationID (fun _ => rfl) (hf old),
        DeliveryRow.of_identity DeliveryRow.destinationVersion (fun _ => rfl) (hf old)]
      exact hDestination
    · exact hDestination

theorem updateEvents {p : OutboxEventRow → Bool} {f : OutboxEventRow → OutboxEventRow}
    (hDb : Integrity db) (h : db.updateEvents p f = .ok db')
    (hf : ∀ row, (f row).identity = row.identity) : Integrity db' := by
  obtain ⟨hLease, rfl⟩ := Database.updateEvents_ok h
  have hIDs := map_key_updateWhere (p := p) OutboxEventRow.id (fun row => congrArg Prod.fst (hf row))
    db.outboxEvents
  have hSlots := map_key_updateWhere (p := p) (fun row => (row.deliveryID, row.generation))
    (fun row => congrArg Prod.snd (hf row)) db.outboxEvents
  refine { hDb with eventIDs := hIDs ▸ hDb.eventIDs, eventSlots := hSlots ▸ hDb.eventSlots,
                    eventLeases := ?_, eventOwners := ?_ }
  · intro row hRow
    obtain ⟨old, hOld, rfl⟩ := mem_updateWhere.mp hRow
    split
    · exact hLease old hOld ‹_›
    · exact hDb.eventLeases old hOld
  · intro row hRow
    obtain ⟨old, hOld, rfl⟩ := mem_updateWhere.mp hRow
    have hOwner := hDb.eventOwners old hOld
    split
    · rw [show (f old).deliveryID = old.deliveryID from congrArg (fun x => x.2.1) (hf old)]
      exact hOwner
    · exact hOwner

theorem addDelivery {row : DeliveryRow} (hDb : Integrity db) (hID : ∀ other ∈ db.deliveries, other.id ≠ row.id)
    (hKey : ∀ other ∈ db.deliveries, ¬(other.callerID = row.callerID ∧ other.idempotencyKey = row.idempotencyKey))
    (hVersion : ∃ version ∈ db.destinationVersions,
      version.destinationID = row.destinationID ∧ version.version = row.destinationVersion)
    (hLease : row.leaseTupleConsistent = true) : Integrity { db with deliveries := db.deliveries ++ [row] } := by
  have hOwner : ∀ id, (∃ delivery ∈ db.deliveries, delivery.id = id) →
      ∃ delivery ∈ db.deliveries ++ [row], delivery.id = id := by
    rintro id ⟨delivery, hDelivery, rfl⟩
    exact ⟨delivery, List.mem_append_left _ hDelivery, rfl⟩
  refine ⟨nodup_map_concat hDb.deliveryIDs hID, nodup_map_concat hDb.callerKeys ?_, ?_, ?_, hDb.eventIDs,
    hDb.eventSlots, hDb.eventLeases, fun row hRow => hOwner _ (hDb.eventOwners row hRow),
    fun row hRow => hOwner _ (hDb.attemptOwners row hRow), fun row hRow => hOwner _ (hDb.auditOwners row hRow)⟩
  · intro other hOther hSame
    exact hKey other hOther (Prod.mk.inj hSame)
  · intro other hOther
    rcases List.mem_append.mp hOther with hOther | hOther
    · exact hDb.leaseTuples other hOther
    · rwa [List.mem_singleton.mp hOther]
  · intro other hOther
    rcases List.mem_append.mp hOther with hOther | hOther
    · exact hDb.destinations other hOther
    · rwa [List.mem_singleton.mp hOther]

theorem insertDelivery {row : DeliveryRow} (h : db.insertDelivery row = .ok db') (hDb : Integrity db) :
    Integrity db' := by
  obtain ⟨hID, hKey, hVersion, hLease, rfl⟩ := Database.insertDelivery_ok h
  exact hDb.addDelivery hID hKey hVersion hLease

theorem addEvent {row : OutboxEventRow} (hDb : Integrity db) (hID : ∀ other ∈ db.outboxEvents, other.id ≠ row.id)
    (hSlot : ∀ other ∈ db.outboxEvents, row.sameSlot other = false)
    (hOwner : ∃ delivery ∈ db.deliveries, delivery.id = row.deliveryID) (hLease : row.leaseIsComplete = true) :
    Integrity { db with outboxEvents := db.outboxEvents ++ [row] } := by
  refine { hDb with eventIDs := nodup_map_concat hDb.eventIDs hID, eventSlots := ?_, eventLeases := ?_,
                    eventOwners := ?_ }
  · apply nodup_map_concat hDb.eventSlots
    intro other hOther hSame
    have hFalse := hSlot other hOther
    simp_all [OutboxEventRow.sameSlot]
  · intro other hOther
    rcases List.mem_append.mp hOther with hOther | hOther
    · exact hDb.eventLeases other hOther
    · rwa [List.mem_singleton.mp hOther]
  · intro other hOther
    rcases List.mem_append.mp hOther with hOther | hOther
    · exact hDb.eventOwners other hOther
    · rwa [List.mem_singleton.mp hOther]

theorem insertEvent {row : OutboxEventRow} (h : db.insertEvent row = .ok db') (hDb : Integrity db) :
    Integrity db' := by
  obtain ⟨hID, hSlot, hOwner, hLease, rfl⟩ := Database.insertEvent_ok h
  exact hDb.addEvent hID hSlot hOwner hLease

theorem insertAttempt {row : AttemptRow} (h : db.insertAttempt row = .ok db') (hDb : Integrity db) :
    Integrity db' := by
  obtain ⟨hOwner, _, rfl⟩ := Database.insertAttempt_ok h
  refine { hDb with attemptOwners := ?_ }
  intro other hOther
  rcases List.mem_append.mp hOther with hOther | hOther
  · exact hDb.attemptOwners other hOther
  · rwa [List.mem_singleton.mp hOther]

theorem insertAudit {row : ReplayAuditRow} (h : db.insertAudit row = .ok db') (hDb : Integrity db) :
    Integrity db' := by
  obtain ⟨hOwner, _, rfl⟩ := Database.insertAudit_ok h
  refine { hDb with auditOwners := ?_ }
  intro other hOther
  rcases List.mem_append.mp hOther with hOther | hOther
  · exact hDb.auditOwners other hOther
  · rwa [List.mem_singleton.mp hOther]

theorem deleteDeliveries (p : DeliveryRow → Bool) (hDb : Integrity db) :
    Integrity (db.deleteDeliveries p) := by
  have hOwner : ∀ id, (∃ delivery ∈ db.deliveries, delivery.id = id) →
      (!(db.deliveries.any fun row => row.id = id && p row)) = true →
      ∃ delivery ∈ db.deliveries.filter (fun row => !p row), delivery.id = id := by
    rintro id ⟨delivery, hDelivery, rfl⟩ hKept
    refine ⟨delivery, List.mem_filter.mpr ⟨hDelivery, ?_⟩, rfl⟩
    have hNone : ∀ row ∈ db.deliveries, row.id = delivery.id → p row = false := by simpa using hKept
    rw [hNone delivery hDelivery rfl]
    rfl
  have hRows {α : Type} {rows : List α} {g : α → UUID}
      (hOwners : ∀ row ∈ rows, ∃ delivery ∈ db.deliveries, delivery.id = g row) :
      ∀ row ∈ rows.filter (fun row => !(db.deliveries.any fun d => d.id = g row && p d)),
        ∃ delivery ∈ db.deliveries.filter (fun row => !p row), delivery.id = g row := by
    intro row hRow
    obtain ⟨hRow, hKept⟩ := List.mem_filter.mp hRow
    exact hOwner _ (hOwners row hRow) hKept
  exact ⟨(List.filter_sublist.map _).nodup hDb.deliveryIDs, (List.filter_sublist.map _).nodup hDb.callerKeys,
    fun row hRow => hDb.leaseTuples row (List.mem_filter.mp hRow).1,
    fun row hRow => hDb.destinations row (List.mem_filter.mp hRow).1,
    (List.filter_sublist.map _).nodup hDb.eventIDs, (List.filter_sublist.map _).nodup hDb.eventSlots,
    fun row hRow => hDb.eventLeases row (List.mem_filter.mp hRow).1,
    hRows hDb.eventOwners, hRows hDb.attemptOwners, hRows hDb.auditOwners⟩

theorem bootstrap {apiKeyHash : Digest} {config : BootstrapConfig}
    (h : ReliableNotifier.bootstrap apiKeyHash config db = .ok db') (hDb : Integrity db) : Integrity db' := by
  obtain ⟨hDeliveries, hEvents, hAttempts, hAudits, more, hVersions⟩ := bootstrap_ok h
  obtain ⟨h1, h2, h3, h4, h5, h6, h7, h8, h9, h10⟩ := hDb
  constructor <;> simp only [hDeliveries, hEvents, hAttempts, hAudits]
  case destinations =>
    intro row hRow
    obtain ⟨version, hVersion, hSame⟩ := h4 row hRow
    exact ⟨version, hVersions ▸ List.mem_append_left _ hVersion, hSame⟩
  all_goals assumption

theorem kept : Kept (fun _ => True) Integrity where
  bootstrap := Integrity.bootstrap
  updateDeliveries h hf hDb := hDb.updateDeliveries h hf
  updateEvents h hf hDb := hDb.updateEvents h hf
  insertDelivery := Integrity.insertDelivery
  insertEvent _ := Integrity.insertEvent
  insertAttempt := Integrity.insertAttempt
  insertAudit := Integrity.insertAudit
  deleteDeliveries := Integrity.deleteDeliveries

end Integrity

theorem Store.Step.integrity {s t : Store} {action : Store.Action} (h : Store.Step s action t) (hDb : Integrity s.db) :
    Integrity t.db := by
  cases h with
  | wait _ => exact hDb
  | commit _ _ _ hApply => exact Integrity.kept.apply hApply (fun _ _ => trivial) hDb

theorem Store.Reachable.integrity {s : Store} (hs : s.Reachable) : Integrity s.db :=
  Store.Reachable.invariant (I := fun s => Integrity s.db) (fun _ => .empty)
    (fun _ _ _ hDb hStep => hStep.integrity hDb) hs

end ReliableNotifier
