import ReliableNotifier.Lifecycle.Dossier

/-! # Every operation moves every dossier

For a fixed delivery, each committed operation is either invisible or one of the
moves of `Dossier.Move`. Later results about single deliveries rest on
`Database.dossier_moves` and never look at a statement again.
-/

namespace ReliableNotifier

open Checked RowTable

variable {r : Readings} {db db' : Database} {id : UUID}

namespace Integrity

theorem dossier_absent (hDb : Integrity db) (h : (db.dossier id).row = none) : db.dossier id = .absent := by
  have hNone := (lookup_eq_none_iff DeliveryRow.id).mp h
  have hEmpty {α : Type} {key : α → UUID} {rows : List α}
      (hOwners : ∀ row ∈ rows, ∃ delivery ∈ db.deliveries, delivery.id = key row) : owned key id rows = [] := by
    rw [owned_eq_nil_iff]
    intro row hRow hKey
    obtain ⟨delivery, hDelivery, hID⟩ := hOwners row hRow
    exact hNone delivery hDelivery (hID.trans hKey)
  simp only [Database.dossier] at h ⊢
  rw [h, hEmpty hDb.eventOwners, hEmpty hDb.attemptOwners, hEmpty hDb.auditOwners]
  rfl

theorem dossier_row_iff (hDb : Integrity db) {row : DeliveryRow} :
    (db.dossier id).row = some row ↔ row ∈ db.deliveries ∧ row.id = id :=
  lookup_eq_some_iff DeliveryRow.id hDb.deliveryIDs

/-- A selected batch names a row by its identifier, which only that row has. -/
theorem chosen_delivery (hDb : Integrity db) {rows : List DeliveryRow} {row other : DeliveryRow}
    (hRows : ∀ row ∈ rows, row ∈ db.deliveries) (hRow : row ∈ db.deliveries) (hOther : other ∈ rows)
    (hID : other.id = row.id) : other = row :=
  List.inj_on_of_nodup_map hDb.deliveryIDs (hRows other hOther) hRow hID

theorem owned_chosen (hDb : Integrity db) {rows : List DeliveryRow} {row : DeliveryRow}
    (hRows : ∀ row ∈ rows, row ∈ db.deliveries) (hIDs : (rows.map DeliveryRow.id).Nodup)
    (hRow : (db.dossier id).row = some row) :
    row ∈ rows ∧ owned DeliveryRow.id id rows = [row] ∨ row ∉ rows ∧ owned DeliveryRow.id id rows = [] := by
  obtain ⟨hMem, hID⟩ := hDb.dossier_row_iff.mp hRow
  rw [owned_eq_toList DeliveryRow.id hIDs]
  rcases hFound : lookup DeliveryRow.id id rows with _ | other
  · exact .inr ⟨fun hIn => (lookup_eq_none_iff DeliveryRow.id).mp hFound row hIn hID, rfl⟩
  · have hOther := mem_of_lookup DeliveryRow.id hFound
    obtain rfl := hDb.chosen_delivery hRows hMem hOther ((key_of_lookup DeliveryRow.id hFound).trans hID.symm)
    exact .inl ⟨hOther, rfl⟩

theorem chosen_event (hDb : Integrity db) {rows : List OutboxEventRow} {row other : OutboxEventRow}
    (hRows : ∀ row ∈ rows, row ∈ db.outboxEvents) (hRow : row ∈ db.outboxEvents) (hOther : other ∈ rows)
    (hID : other.id = row.id) : other = row :=
  List.inj_on_of_nodup_map hDb.eventIDs (hRows other hOther) hRow hID

theorem claimable_of_chosen (hDb : Integrity db) {r : Readings} {limit : Int} {locked : UUID → Bool}
    {row : OutboxEventRow} (hRow : row ∈ db.outboxEvents)
    (hChosen : ((outboxCandidates r limit locked db).any fun candidate => candidate.id = row.id) = true) :
    row.claimable r = true := by
  obtain ⟨other, hOther, hSame⟩ := List.any_eq_true.mp hChosen
  obtain rfl := hDb.chosen_event (fun row hIn => (mem_of_mem_batch _ hIn).1) hRow hOther (decide_eq_true_eq.mp hSame)
  exact (Bool.and_eq_true_iff.mp (mem_of_mem_batch _ hOther).2).1

end Integrity

namespace Database

theorem dossier_updateDeliveries {p : DeliveryRow → Bool} {f : DeliveryRow → DeliveryRow}
    (h : db.updateDeliveries p f = .ok db') (hf : ∀ row, (f row).id = row.id) (id : UUID) :
    db'.dossier id =
      { db.dossier id with row := (db.dossier id).row.map fun row => if p row then f row else row } := by
  obtain ⟨_, rfl⟩ := updateDeliveries_ok h
  simp only [dossier, lookup_updateWhere DeliveryRow.id hf]

theorem dossier_updateDeliveries_of_ne {p : DeliveryRow → Bool} {f : DeliveryRow → DeliveryRow}
    (h : db.updateDeliveries p f = .ok db') (hf : ∀ row, (f row).id = row.id)
    (hp : ∀ row, row.id = id → p row ≠ true) : db'.dossier id = db.dossier id := by
  rw [dossier_updateDeliveries h hf]
  rcases hRow : (db.dossier id).row with _ | row
  · rw [Option.map_none, ← hRow]
  · rw [Option.map_some, if_neg (hp row (key_of_lookup DeliveryRow.id hRow)), ← hRow]

theorem dossier_updateEvents {p : OutboxEventRow → Bool} {f : OutboxEventRow → OutboxEventRow}
    (h : db.updateEvents p f = .ok db') (hf : ∀ row, (f row).deliveryID = row.deliveryID) (id : UUID) :
    db'.dossier id = { db.dossier id with events := updateWhere p f (db.dossier id).events } := by
  obtain ⟨_, rfl⟩ := updateEvents_ok h
  simp only [dossier, owned_updateWhere OutboxEventRow.deliveryID hf]

theorem dossier_insertEvent {row : OutboxEventRow} (h : db.insertEvent row = .ok db') (id : UUID) :
    db'.dossier id =
      { db.dossier id with
        events := (db.dossier id).events ++ owned OutboxEventRow.deliveryID id [row] } := by
  obtain ⟨_, _, _, _, rfl⟩ := insertEvent_ok h
  simp only [dossier, owned_append]

theorem dossier_insertAttempts {rows : List AttemptRow} (h : db.insertAttempts rows = .ok db') (id : UUID) :
    db'.dossier id =
      { db.dossier id with
        attempts := (db.dossier id).attempts ++ owned AttemptRow.deliveryID id rows } := by
  obtain ⟨_, rfl⟩ := insertAttempts_ok h
  simp only [dossier, owned_append]

theorem dossier_insertAudit {row : ReplayAuditRow} (h : db.insertAudit row = .ok db') (id : UUID) :
    db'.dossier id =
      { db.dossier id with
        audits := (db.dossier id).audits ++ owned ReplayAuditRow.deliveryID id [row] } := by
  obtain ⟨_, _, rfl⟩ := insertAudit_ok h
  simp only [dossier, owned_append]

theorem dossier_insertMissingEvents {rows : List OutboxEventRow} (h : db.insertMissingEvents rows = .ok db')
    (id : UUID) :
    db'.dossier id =
      { db.dossier id with
        events := (owned OutboxEventRow.deliveryID id rows).foldl addMissing (db.dossier id).events } := by
  induction rows generalizing db with
  | nil =>
    cases h
    rfl
  | cons row rest ih =>
    rw [insertMissingEvents] at h
    by_cases hOwner : row.deliveryID = id
    · have hCons : owned OutboxEventRow.deliveryID id (row :: rest) =
          row :: owned OutboxEventRow.deliveryID id rest := by
        simp [owned, hOwner]
      have hSlot : db.outboxEvents.any row.sameSlot = true ↔
          ¬∀ event ∈ (db.dossier id).events, event.generation ≠ row.generation := by
        simp only [List.any_eq_true, dossier, mem_owned, OutboxEventRow.sameSlot, Bool.and_eq_true,
          decide_eq_true_eq, hOwner]
        grind
      rw [hCons, List.foldl_cons, addMissing]
      split at h
      · rw [ih h, if_neg (hSlot.mp ‹_›)]
      · obtain ⟨middle, hRow, hMore⟩ := bind_ok_iff.mp h
        rw [ih hMore, dossier_insertEvent hRow, if_pos (not_not.mp (mt hSlot.mpr ‹_›))]
        simp [owned, hOwner]
    · have hCons : owned OutboxEventRow.deliveryID id (row :: rest) = owned OutboxEventRow.deliveryID id rest := by
        simp [owned, hOwner]
      rw [hCons]
      split at h
      · exact ih h
      · obtain ⟨middle, hRow, hMore⟩ := bind_ok_iff.mp h
        have hSame : middle.dossier id = db.dossier id := by
          rw [dossier_insertEvent hRow]
          simp [owned, hOwner]
        rw [ih hMore, hSame]

/-- A deletion takes the whole dossier of a deleted row and leaves every other dossier. -/
theorem dossier_deleteDeliveries {p : DeliveryRow → Bool} (hDb : Integrity db) (id : UUID) :
    (db.deleteDeliveries p).dossier id = if (db.dossier id).row.any p = true then .absent else db.dossier id := by
  rcases hRow : (db.dossier id).row with _ | row
  · have hNone : ((db.deleteDeliveries p).dossier id).row = none := by
      refine (lookup_eq_none_iff DeliveryRow.id).mpr ?_
      intro row hIn
      exact (lookup_eq_none_iff DeliveryRow.id).mp hRow row (List.mem_filter.mp hIn).1
    rw [hDb.dossier_absent hRow, (hDb.deleteDeliveries p).dossier_absent hNone, ite_self]
  · obtain ⟨hMem, hID⟩ := hDb.dossier_row_iff.mp hRow
    rw [Option.any_some]
    split
    · rename_i hDeleted
      refine (hDb.deleteDeliveries p).dossier_absent ((lookup_eq_none_iff DeliveryRow.id).mpr ?_)
      intro other hOther hSame
      obtain ⟨hOther, hKept⟩ := List.mem_filter.mp hOther
      obtain rfl := List.inj_on_of_nodup_map hDb.deliveryIDs hOther hMem (hSame.trans hID.symm)
      simp [hDeleted] at hKept
    · rename_i hKept
      have hKeep : (!(db.deliveries.any fun other => other.id = id && p other)) = true := by
        rw [Bool.not_eq_true', List.any_eq_false]
        intro other hOther hBoth
        simp only [Bool.and_eq_true, decide_eq_true_eq] at hBoth
        obtain rfl := List.inj_on_of_nodup_map hDb.deliveryIDs hOther hMem (hBoth.1.trans hID.symm)
        exact hKept hBoth.2
      have hRows {α : Type} {key : α → UUID} {rows : List α} :
          owned key id (rows.filter fun row => !(db.deliveries.any fun other => other.id = key row && p other)) =
            owned key id rows := by
        rw [owned_filter, List.filter_eq_self]
        intro row hIn
        rw [((mem_owned key).mp hIn).2]
        exact hKeep
      have hLookup : ((db.deleteDeliveries p).dossier id).row = (db.dossier id).row := by
        rw [hRow]
        exact (hDb.deleteDeliveries p).dossier_row_iff.mpr
          ⟨List.mem_filter.mpr ⟨hMem, by simpa using hKept⟩, hID⟩
      simp only [dossier] at hLookup
      simp only [dossier, hLookup]
      simp only [deleteDeliveries, hRows]

end Database

namespace Dossier

theorem eta_of_row {d : Dossier} {row : DeliveryRow} (h : d.row = some row) :
    d = ⟨some row, d.events, d.attempts, d.audits⟩ := by
  rw [← h]

theorem follows_events {op : Op} {p : OutboxEventRow → Bool} {f : OutboxEventRow → OutboxEventRow}
    (hDb : Integrity db) (h : db.updateEvents p f = .ok db') (hf : ∀ row, (f row).deliveryID = row.deliveryID)
    (hMove : ∀ row ∈ db.deliveries, ∀ event ∈ db.outboxEvents, event.deliveryID = row.id → p event = true →
      EventMove r row op event (f event)) : Follows r op (db.dossier id) (db'.dossier id) := by
  rw [Database.dossier_updateEvents h hf]
  rcases hRow : (db.dossier id).row with _ | row
  · rw [hDb.dossier_absent hRow]
    exact .inl rfl
  · rw [eta_of_row hRow]
    refine .inr (.events ?_)
    intro event hEvent
    obtain ⟨hEvent, hOwner⟩ := (mem_owned _).mp hEvent
    obtain ⟨hMem, hID⟩ := hDb.dossier_row_iff.mp hRow
    split
    · exact hMove row hMem event hEvent (hOwner.trans hID.symm) ‹_›
    · exact .keep op event

theorem follows_submit {backlogLimit : Int} {submission : Submission} {deliveryID outboxID traceID : UUID}
    {reply : Delivery} (hDb : Integrity db)
    (h : submit r backlogLimit submission deliveryID outboxID traceID db = .ok (reply, db')) :
    Follows r (.submit backlogLimit submission deliveryID outboxID traceID) (db.dossier id)
      (db'.dossier id) := by
  rcases submit_ok h with ⟨_, _, _, _, rfl⟩ | ⟨_, _, _, hInsert⟩
  · exact .inl rfl
  · obtain ⟨middle, hDelivery, hEvent⟩ := insertSubmission_ok hInsert
    obtain ⟨hID, _, _, _, rfl⟩ := Database.insertDelivery_ok hDelivery
    rw [Database.dossier_insertEvent hEvent]
    by_cases hNew : deliveryID = id
    · subst hNew
      have hNone : (db.dossier deliveryID).row = none := (lookup_eq_none_iff DeliveryRow.id).mpr hID
      have hAbsent := hDb.dossier_absent hNone
      rw [hAbsent]
      simp only [Database.dossier, absent, Dossier.mk.injEq] at hAbsent
      obtain ⟨hRow, hEvents, hAttempts, hAudits⟩ := hAbsent
      refine .inr ?_
      convert Move.submit using 1
      simp only [Database.dossier, lookup_append, hRow, hEvents, hAttempts, hAudits]
      simp [lookup, owned, Submission.row, Submission.event]
    · left
      simp only [Database.dossier, lookup_append]
      simp [lookup, owned, Submission.row, Submission.event, hNew]

/-- A successful claim takes the due row of its delivery and touches nothing else. -/
theorem claimDelivery_spec {deliveryID : UUID} {generation : Nat} {owner : String} {leaseDuration : Duration}
    {token : UUID} {reply : Delivery × DestinationVersion} (hDb : Integrity db)
    (h : claimDelivery r deliveryID generation owner leaseDuration token db = .ok (reply, db')) :
    ∃ row, (db.dossier deliveryID).row = some row ∧ row.due r row.id deliveryID generation = true ∧
      db'.dossier deliveryID =
        { db.dossier deliveryID with row := some (row.claim r owner leaseDuration token) } ∧
      (∀ id, id ≠ deliveryID → db'.dossier id = db.dossier id) ∧
      reply.1 = (row.claim r owner leaseDuration token).loadClaimed ∧
      db.queryDestinationVersion row.destinationID row.destinationVersion = .ok reply.2 := by
  obtain ⟨row, hFind, hUpdate, hTask, hDestination⟩ := claimDelivery_ok h
  have hDue := List.find?_some hFind
  have hRow : (db.dossier deliveryID).row = some row :=
    hDb.dossier_row_iff.mpr ⟨List.mem_of_find?_eq_some hFind, (DeliveryRow.due_iff.mp hDue).1⟩
  refine ⟨row, hRow, hDue, ?_, fun id hOther => ?_, hTask, hDestination⟩
  · rw [Database.dossier_updateDeliveries hUpdate fun _ => rfl, hRow, Option.map_some, if_pos hDue]
  · apply Database.dossier_updateDeliveries_of_ne hUpdate fun _ => rfl
    intro other hID hDue
    exact hOther (hID.symm.trans (DeliveryRow.due_iff.mp hDue).1)

theorem follows_claimDelivery {deliveryID : UUID} {generation : Nat} {owner : String} {leaseDuration : Duration}
    {token : UUID} {reply : Delivery × DestinationVersion} (hDb : Integrity db)
    (h : claimDelivery r deliveryID generation owner leaseDuration token db = .ok (reply, db')) :
    Follows r (.claimDelivery deliveryID generation owner leaseDuration token) (db.dossier id)
      (db'.dossier id) := by
  obtain ⟨row, hRow, hDue, hClaimed, hOthers, _⟩ := claimDelivery_spec hDb h
  by_cases hOwner : id = deliveryID
  · subst hOwner
    obtain ⟨rfl, rfl, _⟩ := DeliveryRow.due_iff.mp hDue
    rw [hClaimed, eta_of_row hRow]
    exact .inr (.claim hDue)
  · exact .inl (hOthers id hOwner)

/-- A committed result replaces the row its lease fences and records one attempt. -/
theorem complete_spec {completion : Completion} {result : AttemptResult} {attemptID : UUID}
    (hDb : Integrity db) (h : (Op.complete completion result attemptID).apply r db = .ok db') :
    ∃ row, (db.dossier result.deliveryID).row = some row ∧
      row.fenced r result completion.resultClass completion.nextAttemptAt = true ∧
      db'.dossier result.deliveryID =
        { db.dossier result.deliveryID with
          row := some (row.complete r completion.resultClass (completion.nextAttemptAt.map microseconds))
          attempts := (db.dossier result.deliveryID).attempts ++ [result.row completion.resultClass attemptID] } ∧
      ∀ id, id ≠ result.deliveryID → db'.dossier id = db.dossier id := by
  obtain ⟨completed, hUpdate, hCount, hInsert⟩ := completeResult_ok (Op.apply_complete h)
  have hAttempts : completed.insertAttempts [result.row completion.resultClass attemptID] = .ok db' :=
    bind_ok_iff.mpr ⟨db', hInsert, rfl⟩
  obtain ⟨row, hMem, hFenced⟩ := List.countP_pos_iff.mp (hCount ▸ Nat.one_pos)
  have hRow : (db.dossier result.deliveryID).row = some row :=
    hDb.dossier_row_iff.mpr ⟨hMem, (DeliveryRow.fenced_iff.mp hFenced).1⟩
  refine ⟨row, hRow, hFenced, ?_, fun id hOther => ?_⟩
  · rw [Database.dossier_insertAttempts hAttempts, Database.dossier_updateDeliveries hUpdate fun _ => rfl, hRow,
      Option.map_some, if_pos hFenced]
    simp [owned, AttemptResult.row]
  · rw [Database.dossier_insertAttempts hAttempts, Database.dossier_updateDeliveries_of_ne hUpdate fun _ => rfl]
    · simp [owned, AttemptResult.row, hOther.symm]
    · intro other hID hFenced
      exact hOther (hID.symm.trans (DeliveryRow.fenced_iff.mp hFenced).1)

theorem follows_complete {completion : Completion} {result : AttemptResult} {attemptID : UUID}
    (hDb : Integrity db) (h : (Op.complete completion result attemptID).apply r db = .ok db') :
    Follows r (.complete completion result attemptID) (db.dossier id) (db'.dossier id) := by
  obtain ⟨row, hRow, hFenced, hCompleted, hOthers⟩ := complete_spec hDb h
  by_cases hOwner : id = result.deliveryID
  · subst hOwner
    rw [hCompleted, eta_of_row hRow]
    exact .inr (.complete hFenced)
  · exact .inl (hOthers id hOwner)

theorem follows_scheduleDueRetries {limit : Int} {locked : UUID → Bool} {eventIDs traceIDs : UUID → UUID}
    (hDb : Integrity db) (h : scheduleDueRetries r limit locked eventIDs traceIDs db = .ok db') :
    Follows r (.scheduleDueRetries limit locked eventIDs traceIDs) (db.dossier id) (db'.dossier id) := by
  obtain ⟨expired, hUpdate, hInsert⟩ := scheduleDueRetries_ok h
  have hDue (row : DeliveryRow) (hRow : row ∈ dueDeliveries r limit locked db) :
      row ∈ db.deliveries ∧ row.unsignalled r db = true := by
    obtain ⟨hMem, hp⟩ := mem_of_mem_batch _ hRow
    exact ⟨hMem, (Bool.and_eq_true_iff.mp hp).1⟩
  have hIDs : ((dueDeliveries r limit locked db).map DeliveryRow.id).Nodup :=
    batch_map_nodup _ DeliveryRow.id hDb.deliveryIDs
  rw [Database.dossier_insertMissingEvents hInsert,
    owned_map DeliveryRow.id (g := fun row => row.signal r (eventIDs row.id) (traceIDs row.id) row.nextAttemptAt)
      fun _ => rfl,
    Database.dossier_updateDeliveries hUpdate fun _ => rfl]
  rcases hRow : (db.dossier id).row with _ | row
  · have hNone : owned DeliveryRow.id id (dueDeliveries r limit locked db) = [] := by
      rw [owned_eq_nil_iff]
      intro row hIn
      exact (lookup_eq_none_iff DeliveryRow.id).mp hRow row (hDue row hIn).1
    rw [hNone, hDb.dossier_absent hRow]
    exact .inl rfl
  · obtain ⟨hMem, hID⟩ := hDb.dossier_row_iff.mp hRow
    rcases hDb.owned_chosen (fun row hIn => (hDue row hIn).1) hIDs hRow with ⟨hIn, hOwned⟩ | ⟨_, hOwned⟩
    · have hUnsignalled := (hDue row hIn).2
      obtain ⟨hPending, _, hTime, hDeadline, hMissing⟩ := DeliveryRow.unsignalled_iff.mp hUnsignalled
      have hNotPast : ¬row.pastDeadline r = true := by
        simp [DeliveryRow.pastDeadline, hDeadline]
      have hSlot : ∀ event ∈ (db.dossier id).events, event.generation ≠ row.generation := by
        intro event hEvent hSame
        obtain ⟨hEvent, hOwner⟩ := (mem_owned _).mp hEvent
        exact hMissing event hEvent ⟨hOwner.trans hID.symm, hSame⟩
      have hAdd : addMissing (db.dossier id).events
          (row.signal r (eventIDs row.id) (traceIDs row.id) row.nextAttemptAt) = _ := if_pos hSlot
      rw [hOwned, eta_of_row hRow, Option.map_some, if_neg hNotPast]
      dsimp only [List.map_singleton, List.foldl_cons, List.foldl_nil]
      rw [hAdd]
      exact .inr (.schedule hPending hTime hSlot)
    · rw [hOwned, List.map_nil, List.foldl_nil, Option.map_some]
      by_cases hPast : row.pastDeadline r = true
      · rw [if_pos hPast, eta_of_row hRow]
        exact .inr (.expire hPast)
      · left
        rw [if_neg hPast, ← hRow]

theorem scheduleDueRetries_row {limit : Int} {locked : UUID → Bool} {eventIDs traceIDs : UUID → UUID}
    (h : scheduleDueRetries r limit locked eventIDs traceIDs db = .ok db') (id : UUID) :
    (db'.dossier id).row = (db.dossier id).row.map fun row =>
      if row.pastDeadline r = true then row.fail r else row := by
  obtain ⟨expired, hUpdate, hInsert⟩ := scheduleDueRetries_ok h
  rw [Database.dossier_insertMissingEvents hInsert, Database.dossier_updateDeliveries hUpdate fun _ => rfl]

theorem recoverExpiredDeliveries_row {limit : Int} {locked : UUID → Bool}
    {attemptIDs eventIDs traceIDs : UUID → UUID}
    (h : recoverExpiredDeliveries r limit locked attemptIDs eventIDs traceIDs db = .ok db') (id : UUID) :
    (db'.dossier id).row = (db.dossier id).row.map fun row =>
      if row.recoverable r limit locked db = true then row.recover r else row := by
  obtain ⟨updated, recorded, hUpdate, hRecord, hInsert⟩ := recoverExpiredDeliveries_ok h
  rw [Database.dossier_insertMissingEvents hInsert, Database.dossier_insertAttempts hRecord,
    Database.dossier_updateDeliveries hUpdate fun _ => rfl]

theorem leaseExpired_of_recoverable {limit : Int} {locked : UUID → Bool} {row : DeliveryRow}
    (hDb : Integrity db) (hMem : row ∈ db.deliveries) (hRow : row.recoverable r limit locked db = true) :
    row.leaseExpired r = true := by
  obtain ⟨other, hOther, hSame⟩ := row.expired_of_recoverable hRow
  obtain rfl := hDb.chosen_delivery (fun row hIn => (mem_of_mem_batch _ hIn).1) hMem hOther hSame
  exact (Bool.and_eq_true_iff.mp (mem_of_mem_batch _ hOther).2).1

theorem follows_recoverExpiredDeliveries {limit : Int} {locked : UUID → Bool}
    {attemptIDs eventIDs traceIDs : UUID → UUID} (hDb : Integrity db)
    (h : recoverExpiredDeliveries r limit locked attemptIDs eventIDs traceIDs db = .ok db') :
    Follows r (.recoverExpiredDeliveries limit locked attemptIDs eventIDs traceIDs) (db.dossier id)
      (db'.dossier id) := by
  obtain ⟨updated, recorded, hUpdate, hRecord, hInsert⟩ := recoverExpiredDeliveries_ok h
  have hIDs : ((db.deliveries.filter (DeliveryRow.recoverable r limit locked db)).map DeliveryRow.id).Nodup :=
    (List.filter_sublist.map _).nodup hDb.deliveryIDs
  rw [Database.dossier_insertMissingEvents hInsert, Database.dossier_insertAttempts hRecord,
    Database.dossier_updateDeliveries hUpdate fun _ => rfl,
    owned_map DeliveryRow.id (g := fun row => row.signal r (eventIDs row.id) (traceIDs row.id) row.updatedAt)
      fun _ => rfl,
    owned_filter, owned_map DeliveryRow.id (g := DeliveryRow.recover r) fun _ => rfl,
    owned_map DeliveryRow.id (g := fun row => row.recoveryAttempt r (attemptIDs row.id)) fun _ => rfl]
  rcases hRow : (db.dossier id).row with _ | row
  · have hNone : owned DeliveryRow.id id (db.deliveries.filter (DeliveryRow.recoverable r limit locked db)) = [] := by
      rw [owned_eq_nil_iff]
      intro row hIn
      exact (lookup_eq_none_iff DeliveryRow.id).mp hRow row (List.mem_filter.mp hIn).1
    rw [hNone, hDb.dossier_absent hRow]
    exact .inl rfl
  · rcases hDb.owned_chosen (fun row hIn => (List.mem_filter.mp hIn).1) hIDs hRow with
      ⟨hIn, hOwned⟩ | ⟨hOut, hOwned⟩
    · obtain ⟨hMem, hRecoverable⟩ := List.mem_filter.mp hIn
      have hExpired := leaseExpired_of_recoverable hDb hMem hRecoverable
      rw [hOwned, eta_of_row hRow, Option.map_some, if_pos hRecoverable, List.map_singleton, List.map_singleton]
      by_cases hDeadline : row.retryDeadline ≤ r.statement
      · rw [List.filter_cons_of_neg (by simp [DeliveryRow.recover, hDeadline]), List.filter_nil, List.map_nil]
        exact .inr (.abandon hExpired hDeadline)
      · rw [List.filter_cons_of_pos (by simp [DeliveryRow.recover, hDeadline]), List.filter_nil,
          List.map_singleton]
        exact .inr (.recover hExpired (not_le.mp hDeadline))
    · left
      have hKept : row.recoverable r limit locked db ≠ true := fun hRecoverable =>
        hOut (List.mem_filter.mpr ⟨(hDb.dossier_row_iff.mp hRow).1, hRecoverable⟩)
      rw [hOwned, Option.map_some, if_neg hKept, ← hRow]
      simp

theorem follows_replay {replayedAt : Time} {deliveryID : UUID} {operatorID reason : String}
    {auditID outboxID traceID : UUID} {reply : Delivery} (hDb : Integrity db)
    (h : replay replayedAt r deliveryID operatorID reason auditID outboxID traceID db = .ok (reply, db')) :
    Follows r (.replay replayedAt deliveryID operatorID reason auditID outboxID traceID) (db.dossier id)
      (db'.dossier id) := by
  obtain ⟨row, updated, audited, hFind, hUpdate, hAudit, hInsert, _⟩ := replay_ok h
  have hMem := List.mem_of_find?_eq_some hFind
  have hMatch := List.find?_some hFind
  obtain ⟨rfl, hFailed⟩ : row.id = deliveryID ∧ row.status = .failedPermanent := by simpa using hMatch
  rw [Database.dossier_insertEvent hInsert, Database.dossier_insertAudit hAudit]
  by_cases hOwner : row.id = id
  · have hRow : (db.dossier id).row = some row := hDb.dossier_row_iff.mpr ⟨hMem, hOwner⟩
    rw [Database.dossier_updateDeliveries hUpdate fun _ => rfl, eta_of_row hRow, Option.map_some, if_pos hMatch]
    have hEvent : owned OutboxEventRow.deliveryID id [(row.replay replayedAt).signal r outboxID traceID replayedAt] =
        [(row.replay replayedAt).signal r outboxID traceID replayedAt] := by
      simp [owned, DeliveryRow.signal, DeliveryRow.replay, hOwner]
    have hEntry : owned ReplayAuditRow.deliveryID id
        [⟨auditID, row.id, row.generation, row.generation + 1, operatorID, reason, replayedAt⟩] =
        [⟨auditID, row.id, row.generation, row.generation + 1, operatorID, reason, replayedAt⟩] := by
      simp [owned, hOwner]
    rw [hEvent, hEntry]
    exact .inr (.replay hFailed)
  · left
    have hOther : updated.dossier id = db.dossier id := by
      apply Database.dossier_updateDeliveries_of_ne hUpdate fun _ => rfl
      intro other hID hMatch
      simp only [Bool.and_eq_true, decide_eq_true_eq] at hMatch
      exact hOwner (hMatch.1.symm.trans hID)
    rw [hOther]
    simp [owned, DeliveryRow.signal, DeliveryRow.replay, hOwner]

theorem mem_expiredTerminal {successRetention failureRetention : Duration} {limit : Int} {locked : UUID → Bool}
    {row : DeliveryRow} (h : row ∈ expiredTerminal r successRetention failureRetention limit locked db) :
    row ∈ db.deliveries ∧ row.retained r successRetention failureRetention = false := by
  obtain ⟨hMem, hp⟩ := mem_of_mem_batch _ h
  exact ⟨hMem, by simpa using (Bool.and_eq_true_iff.mp hp).1⟩

/-- The rows that retention deletes are those it selected. -/
theorem matches_expiredTerminal_iff {successRetention failureRetention : Duration} {limit : Int}
    {locked : UUID → Bool} {row : DeliveryRow} (hDb : Integrity db) (hRow : row ∈ db.deliveries) :
    ((row.status = .succeeded || row.status = .failedPermanent) &&
      (expiredTerminal r successRetention failureRetention limit locked db).any fun other => other.id = row.id) = true ↔
      row ∈ expiredTerminal r successRetention failureRetention limit locked db := by
  simp only [Bool.and_eq_true, Bool.or_eq_true, decide_eq_true_eq, List.any_eq_true]
  constructor
  · rintro ⟨_, other, hOther, hSame⟩
    exact hDb.chosen_delivery (fun _ hIn => (mem_expiredTerminal hIn).1) hRow hOther hSame ▸ hOther
  · intro hIn
    exact ⟨DeliveryRow.terminal_of_not_retained (mem_expiredTerminal hIn).2, row, hIn, rfl⟩

/-- Retention empties the dossiers of the rows it selected and leaves the others. -/
theorem deleteExpiredTerminal_dossier {successRetention failureRetention : Duration} {limit : Int}
    {locked : UUID → Bool} {deleted : Nat} (hDb : Integrity db)
    (h : deleteExpiredTerminal r successRetention failureRetention limit locked db = .ok (deleted, db')) (id : UUID) :
    db'.dossier id =
      if (db.dossier id).row.any (· ∈ expiredTerminal r successRetention failureRetention limit locked db) = true then
        .absent else db.dossier id := by
  rw [deleteExpiredTerminal_ok h, Database.dossier_deleteDeliveries hDb]
  rcases hRow : (db.dossier id).row with _ | row
  · rfl
  · simp only [Option.any_some, matches_expiredTerminal_iff hDb (hDb.dossier_row_iff.mp hRow).1, decide_eq_true_eq]

theorem follows_deleteExpiredTerminal {successRetention failureRetention : Duration} {limit : Int}
    {locked : UUID → Bool} {deleted : Nat} (hDb : Integrity db)
    (h : deleteExpiredTerminal r successRetention failureRetention limit locked db = .ok (deleted, db')) :
    Follows r (.deleteExpiredTerminal successRetention failureRetention limit locked) (db.dossier id)
      (db'.dossier id) := by
  rw [deleteExpiredTerminal_dossier hDb h]
  split
  · rename_i hDeleted
    obtain ⟨row, hRow, hIn⟩ := (Option.any_eq_true _ _).mp hDeleted
    rw [eta_of_row hRow]
    exact .inr (.delete (DeliveryRow.terminal_of_not_retained (mem_expiredTerminal (of_decide_eq_true hIn)).2))
  · exact .inl rfl

end Dossier

/-- Each operation of the store is, for each delivery, at most one move. -/
theorem Database.dossier_moves {op : Op} (hDb : Integrity db) (h : op.apply r db = .ok db') (id : UUID) :
    Dossier.Follows r op (db.dossier id) (db'.dossier id) := by
  cases op with
  | bootstrap apiKeyHash config =>
    obtain ⟨hDeliveries, hEvents, hAttempts, hAudits, _⟩ := bootstrap_ok h
    left
    simp only [Database.dossier, hDeliveries, hEvents, hAttempts, hAudits]
  | submit backlogLimit submission deliveryID outboxID traceID =>
    obtain ⟨⟨reply, final⟩, hSubmit, rfl⟩ := map_ok_iff.mp h
    exact Dossier.follows_submit hDb hSubmit
  | claimOutbox owner leaseDuration limit locked token =>
    obtain ⟨⟨reply, final⟩, hClaim, rfl⟩ := map_ok_iff.mp h
    refine Dossier.follows_events hDb (claimOutbox_ok hClaim).2.1 (fun _ => rfl) ?_
    intro row _ event hEvent _ hChosen
    exact .claim (hDb.claimable_of_chosen hEvent hChosen)
  | markOutboxPublished event =>
    refine Dossier.follows_events hDb (markOutboxPublished_ok h).1 (fun _ => rfl) ?_
    intro row _ other _ _ hMatch
    obtain ⟨hHeld, hLease⟩ := Bool.and_eq_true_iff.mp hMatch
    exact .mark hHeld hLease
  | releaseOutbox event =>
    refine Dossier.follows_events hDb (releaseOutbox_ok h) (fun _ => rfl) ?_
    intro row _ other _ _ hHeld
    exact .release hHeld
  | observeSignal deliveryID generation =>
    refine Dossier.follows_events hDb h (fun _ => rfl) ?_
    intro row hRow event _ hOwner hMatch
    simp only [Bool.and_eq_true, decide_eq_true_eq, List.any_eq_true] at hMatch
    obtain ⟨⟨rfl, rfl⟩, other, hOther, hDue⟩ := hMatch
    have hID : other.id = row.id := by
      simp only [DeliveryRow.due, Bool.and_eq_true, decide_eq_true_eq] at hDue
      exact hDue.1.1.1.1.trans hOwner
    obtain rfl := List.inj_on_of_nodup_map hDb.deliveryIDs hOther hRow hID
    exact .observe hDue
  | claimDelivery deliveryID generation owner leaseDuration token =>
    obtain ⟨⟨reply, final⟩, hClaim, rfl⟩ := map_ok_iff.mp h
    exact Dossier.follows_claimDelivery hDb hClaim
  | complete completion result attemptID => exact Dossier.follows_complete hDb h
  | scheduleDueRetries limit locked eventIDs traceIDs => exact Dossier.follows_scheduleDueRetries hDb h
  | recoverExpiredDeliveries limit locked attemptIDs eventIDs traceIDs =>
    exact Dossier.follows_recoverExpiredDeliveries hDb h
  | reconcileStalledSignals watchdog limit locked traceIDs =>
    refine Dossier.follows_events hDb (reconcileStalledSignals_ok h) (fun _ => rfl) ?_
    intro row hRow event hEvent hOwner hMatch
    simp only [Bool.and_eq_true, List.any_eq_true, decide_eq_true_eq] at hMatch
    obtain ⟨hPublished, other, hOther, hSame⟩ := hMatch
    obtain rfl := hDb.chosen_event (fun row hIn => (mem_of_mem_batch _ hIn).1) hEvent hOther hSame
    have hStalled := (Bool.and_eq_true_iff.mp (mem_of_mem_batch _ hOther).2).1
    simp only [OutboxEventRow.stalled, Bool.and_eq_true, List.any_eq_true, decide_eq_true_eq] at hStalled
    obtain ⟨⟨⟨⟨⟨⟨delivery, hDelivery, ⟨⟨⟨hID, hGeneration⟩, hPending⟩, hDue⟩, _⟩, _⟩, _⟩, _⟩, hToken⟩, _⟩ :=
      hStalled
    obtain rfl := List.inj_on_of_nodup_map hDb.deliveryIDs hDelivery hRow (hID.trans hOwner)
    exact .reset hGeneration hPending hDue hPublished hToken
  | replay replayedAt deliveryID operatorID reason auditID outboxID traceID =>
    obtain ⟨⟨reply, final⟩, hReplay, rfl⟩ := map_ok_iff.mp h
    exact Dossier.follows_replay hDb hReplay
  | deleteExpiredTerminal successRetention failureRetention limit locked =>
    obtain ⟨⟨deleted, final⟩, hDelete, rfl⟩ := map_ok_iff.mp h
    exact Dossier.follows_deleteExpiredTerminal hDb hDelete

theorem Database.dossier_row_id {row : DeliveryRow} (h : (db.dossier id).row = some row) : row.id = id :=
  key_of_lookup DeliveryRow.id h

/-- What a step of the store does to the dossier of `id`. -/
inductive Store.Advance (s t : Store) (id : UUID) : Store.Action → Prop
  | stay {action : Store.Action} (hNow : s.now ≤ t.now) (hIssued : s.issued ⊆ t.issued)
      (hSame : t.db.dossier id = s.db.dossier id) : Advance s t id action
  | move {r : Readings} {op : Op} (hClock : s.now ≤ r.statement) (hNow : t.now = r.finish)
      (hTimely : op.Timely r) (hFresh : ∀ x ∈ op.generated r s.db, x ∉ s.issued)
      (hIssued : t.issued = op.generated r s.db ++ s.issued)
      (hMove : Dossier.Move r op (s.db.dossier id) (t.db.dossier id)) : Advance s t id (.commit r op)

theorem Store.Step.advance {s t : Store} {action : Store.Action} (hs : Integrity s.db)
    (h : Store.Step s action t) (id : UUID) : Store.Advance s t id action := by
  cases h with
  | wait hClock => exact .stay hClock (List.Subset.refl _) rfl
  | @commit r op db hClock hTimely hFresh hApply =>
    rcases Database.dossier_moves hs hApply id with hSame | hMove
    · exact .stay (hClock.trans r.statement_le_finish) (List.subset_append_right _ _) hSame
    · exact .move hClock rfl hTimely hFresh.2 rfl hMove

/-- No move assigns the columns of `identity`. -/
theorem Dossier.Move.identity_eq {op : Op} {d d' : Dossier} {row row' : DeliveryRow} (h : Move r op d d')
    (hRow : d.row = some row) (hRow' : d'.row = some row') : row'.identity = row.identity := by
  cases h <;> cases hRow <;> cases hRow' <;> rfl

theorem Database.queryDestinationVersion_stable {op : Op} {destinationID : String} {version : Int}
    {destination : DestinationVersion} (h : op.apply r db = .ok db')
    (hQuery : db.queryDestinationVersion destinationID version = .ok destination) :
    db'.queryDestinationVersion destinationID version = .ok destination := by
  obtain ⟨more, hMore⟩ := (kept_versions db.destinationVersions).apply h (fun _ _ => trivial) ⟨[], by simp⟩
  unfold Database.queryDestinationVersion at hQuery ⊢
  split at hQuery
  · rename_i row hRow
    rw [hMore, List.find?_append, hRow]
    exact hQuery
  · cases hQuery

/-- An assertion about single dossiers that survives the passing of time and every move
holds of every delivery in every reachable state. -/
theorem Store.Reachable.dossier_invariant {I : Time → Dossier → Prop} (hAbsent : ∀ t, I t .absent)
    (hWait : ∀ {t t' d}, t ≤ t' → I t d → I t' d)
    (hMove : ∀ {t r op d d'}, t ≤ r.statement → op.Timely r → Dossier.Move r op d d' → I t d → I r.finish d')
    {s : Store} (hs : s.Reachable) (id : UUID) : I s.now (s.db.dossier id) := by
  obtain ⟨first, hRun⟩ := hs
  refine Store.Later.invariant (I := fun s => I s.now (s.db.dossier id)) ⟨first, .refl⟩ (hAbsent first) ?_ hRun
  intro s action t hs hI hStep
  cases hStep.advance hs.integrity id with
  | stay hNow _ hSame =>
    rw [hSame]
    exact hWait hNow hI
  | move hClock hNow hTimely _ _ hMoves =>
    rw [hNow]
    exact hMove hClock hTimely hMoves hI

end ReliableNotifier
