import ReliableNotifier.Progress.Cycle

/-! # Phases of a repair

At an instant `T` when the lease or the watchdog of a delivery has run out, the
maintenance loops bring it to where a publisher can signal it, and the publishers then
get to its event. Each loop is repeated until the batches have reached the delivery.
-/

namespace ReliableNotifier

open Checked RowTable LabelledRun

/-- A recovered delivery has an event for its new generation. -/
theorem Dossier.Move.recovered_event {r : Readings} {d d' : Dossier} {row : DeliveryRow} {limit : Int}
    {locked : UUID → Bool} {attemptIDs eventIDs traceIDs : UUID → UUID}
    (h : Move r (.recoverExpiredDeliveries limit locked attemptIDs eventIDs traceIDs) d d') (hRow : d.row = some row)
    (hRow' : d'.row = some (row.recover r)) (hDeadline : ¬row.retryDeadline ≤ r.statement) :
    ∃ event ∈ d'.events, event.generation = (row.recover r).generation := by
  cases h with
  | events =>
    cases hRow
    have hGeneration := congrArg DeliveryRow.generation (Option.some.inj hRow')
    simp [DeliveryRow.recover, hDeadline] at hGeneration
  | recover =>
    cases hRow
    exact exists_mem_addMissing
  | abandon _ hPast =>
    cases hRow
    exact absurd hPast hDeadline

namespace Store

variable {tuning : Tuning} {first s t : Store} {history : List (List Signal)} {T : Time} {id : UUID}
  {row : DeliveryRow}

/-- A pending delivery inside its window, with an event that can be claimed. -/
def Ready (T : Time) (id : UUID) (s : Store) : Prop :=
  ∃ row event, (s.db.dossier id).row = some row ∧ row.status = .pending ∧ row.nextAttemptAt ≤ T ∧
    T < row.retryDeadline ∧ event ∈ (s.db.dossier id).events ∧ event.generation = row.generation ∧
    event.claimable (.instant T) = true

/-- A signal with the current generation was published, and a claim for it succeeds now. -/
def Dispatched (published : List (List Signal)) (id : UUID) (s : Store) : Prop :=
  ∃ row, (s.db.dossier id).row = some row ∧
    (∃ signals ∈ published, ∃ signal ∈ signals, signal.deliveryID = id ∧ signal.generation = row.generation) ∧
    ∀ owner leaseDuration token, owner ≠ "" → 0 < leaseDuration → token ∉ s.issued →
      ∃ t, Step s (.commit (.instant s.now) (.claimDelivery id row.generation owner leaseDuration token)) t

/-- The delivery failed, and its retry deadline has passed. -/
def Expired (id : UUID) (s : Store) : Prop :=
  ∃ row, (s.db.dossier id).row = some row ∧ row.status = .failedPermanent ∧ row.retryDeadline ≤ s.now

theorem Reachable.queryDestinationVersion (hs : s.Reachable) (hRow : row ∈ s.db.deliveries) :
    ∃ destination, s.db.queryDestinationVersion row.destinationID row.destinationVersion = .ok destination := by
  obtain ⟨version, hVersion, hID, hNumber⟩ := hs.integrity.destinations row hRow
  unfold Database.queryDestinationVersion
  split
  · exact ⟨_, rfl⟩
  · rename_i hNone
    have hOther := List.find?_eq_none.mp hNone version hVersion
    simp [hID, hNumber] at hOther

theorem Reachable.claimDelivery_step {owner : String} {leaseDuration : Duration} {token : UUID} (hs : s.Reachable)
    (hRow : (s.db.dossier id).row = some row) (hPending : row.status = .pending) (hDue : row.nextAttemptAt ≤ s.now)
    (hDeadline : s.now < row.retryDeadline) (hOwner : owner ≠ "") (hLease : 0 < leaseDuration)
    (hToken : token ∉ s.issued) :
    ∃ t, Step s (.commit (.instant s.now) (.claimDelivery id row.generation owner leaseDuration token)) t := by
  obtain ⟨hMem, hID⟩ := hs.integrity.dossier_row_iff.mp hRow
  have hMatch : row.due (.instant s.now) row.id id row.generation = true :=
    DeliveryRow.due_iff.mpr ⟨hID, rfl, hPending, hDue, hDeadline⟩
  obtain ⟨found, hFound⟩ : ∃ found, s.db.deliveries.find?
      (fun row' => row'.due (.instant s.now) row'.id id row.generation) = some found := by
    rw [← Option.isSome_iff_exists, List.find?_isSome]
    exact ⟨row, hMem, hMatch⟩
  obtain ⟨destination, hDestination⟩ := hs.queryDestinationVersion (List.mem_of_find?_eq_some hFound)
  have hClaim : claimDelivery (.instant s.now) id row.generation owner leaseDuration token s.db =
      .ok (((found.claim (.instant s.now) owner leaseDuration token).loadClaimed, destination), { s.db with
        deliveries := updateWhere (fun row' => row'.due (.instant s.now) row'.id id row.generation)
          (DeliveryRow.claim (.instant s.now) owner leaseDuration token) s.db.deliveries }) := by
    refine bind_ok_iff.mpr ⟨(), by simp [ensure_ok_iff, hOwner, hLease], ?_⟩
    rw [hFound]
    exact bind_ok_iff.mpr ⟨_, Database.updateDeliveries_eq fun _ _ _ => rfl,
      bind_ok_iff.mpr ⟨destination, hDestination, rfl⟩⟩
  refine ⟨_, .commit le_rfl trivial ⟨List.nodup_singleton token, fun other hOther => ?_⟩
    (map_ok_iff.mpr ⟨_, hClaim, rfl⟩)⟩
  rwa [List.mem_singleton.mp hOther]

theorem row_of_deliveries (h : t.db.deliveries = s.db.deliveries) (id : UUID) :
    (t.db.dossier id).row = (s.db.dossier id).row :=
  congrArg (lookup DeliveryRow.id id) h

/-- The publishers get to the event of a ready delivery. -/
theorem Ready.dispatch (hReady : s.Ready T id) (hRun : Run (Repair tuning) first history s) (hs : s.Reachable)
    (hNow : s.now = T) :
    ∃ history' t, Run (Repair tuning) first history' t ∧ t.now = T ∧ t.Dispatched history' id := by
  obtain ⟨row, event, hRow, hPending, hDue, hDeadline, hEvent, hGeneration, hClaimable⟩ := hReady
  obtain ⟨hEvent, hOwner⟩ := (mem_owned _).mp hEvent
  obtain ⟨history', t, hMore, ht, hNow', hRow', signals, hSignals, hSignal⟩ := hRun.reach
    (I := fun _ s => s.Reachable ∧ s.now = T ∧ (s.db.dossier id).row = some row ∧ event ∈ s.db.outboxEvents)
    (G := fun history s => s.Reachable ∧ s.now = T ∧ (s.db.dossier id).row = some row ∧
      ∃ signals ∈ history, event.signal ∈ signals)
    (fun s => s.db.outboxEvents.countP (OutboxEventRow.claimable (.instant T)))
    (fun history s ⟨hs, hNow, hRow, hEvent⟩ => by
      obtain ⟨published, u, hRepair, hu, hDeliveries, hProgress⟩ := hs.cycle tuning hNow hEvent hClaimable
      have hRow' := (row_of_deliveries hDeliveries id).trans hRow
      have hReachable := hs.later hRepair.later
      refine ⟨published, u, hRepair, hProgress.imp (fun hSignal => ?_) fun ⟨hKept, hLess⟩ => ?_⟩
      · exact ⟨hReachable, hu, hRow', published, List.mem_cons_self, hSignal⟩
      · exact ⟨⟨hReachable, hu, hRow', hKept⟩, hLess⟩)
    ⟨hs, hNow, hRow, hEvent⟩
  refine ⟨history', t, hMore, hNow', row, hRow', ⟨signals, hSignals, event.signal, hSignal, hOwner, hGeneration⟩, ?_⟩
  intro owner leaseDuration token hOwner hLease hToken
  exact ht.claimDelivery_step hRow' hPending (hNow' ▸ hDue) (hNow' ▸ hDeadline) hOwner hLease hToken

section Recover

variable {limit : Int} {attemptIDs eventIDs traceIDs : UUID → UUID}

theorem recoverExpiredDeliveries_fewer (hRow : row ∈ s.db.deliveries)
    (hExpired : row.leaseExpired (.instant T) = true) (hLimit : 0 < limit)
    (h : Step s (.commit (.instant T)
      (.recoverExpiredDeliveries limit (fun _ => false) attemptIDs eventIDs traceIDs)) t) :
    t.db.deliveries.countP (DeliveryRow.leaseExpired (.instant T)) <
      s.db.deliveries.countP (DeliveryRow.leaseExpired (.instant T)) := by
  obtain ⟨updated, recorded, hUpdate, hRecord, hInsert⟩ := recoverExpiredDeliveries_ok h.applied.1
  have hDeliveries : t.db.deliveries = updateWhere (DeliveryRow.recoverable (.instant T) limit (fun _ => false) s.db)
      (DeliveryRow.recover (.instant T)) s.db.deliveries := by
    rw [(Database.insertMissingEvents_ok hInsert).1, (Database.insertAttempts_ok hRecord).2,
      (Database.updateDeliveries_ok hUpdate).2]
  have hSome : expiredDeliveries (.instant T) limit (fun _ => false) s.db ≠ [] :=
    batch_ne_nil _ (by omega) hRow (by simpa using hExpired)
  obtain ⟨other, hOther⟩ := List.exists_mem_of_ne_nil _ hSome
  obtain ⟨hMem, hMatch⟩ := mem_of_mem_batch _ hOther
  have hOtherExpired := (Bool.and_eq_true_iff.mp hMatch).1
  have hRecoverable : other.recoverable (.instant T) limit (fun _ => false) s.db = true := by
    simp only [DeliveryRow.recoverable, Bool.and_eq_true, decide_eq_true_eq, List.any_eq_true]
    exact ⟨(DeliveryRow.leaseExpired_iff.mp hOtherExpired).1, other, hOther, rfl, rfl⟩
  have hAfter (row : DeliveryRow) : (row.recover (.instant T)).leaseExpired (.instant T) = false := by
    simp only [DeliveryRow.leaseExpired, DeliveryRow.recover]
    split <;> rfl
  rw [hDeliveries]
  refine countP_map_lt (fun row _ hStill => ?_) hMem hOtherExpired ?_
  · split at hStill
    · rw [hAfter] at hStill
      cases hStill
    · exact hStill
  · rw [if_pos hRecoverable]
    exact hAfter other

/-- A recovery leaves the delivery as it is, makes it ready, or ends it after its deadline. -/
theorem recoverExpiredDeliveries_ready (hs : s.Reachable) (hRow : (s.db.dossier id).row = some row)
    (h : Step s (.commit (.instant T)
      (.recoverExpiredDeliveries limit (fun _ => false) attemptIDs eventIDs traceIDs)) t) :
    (t.db.dossier id).row = some row ∨
      T < row.retryDeadline ∧ t.Ready T id ∨ row.retryDeadline ≤ T ∧ t.Expired id := by
  obtain ⟨hApply, _, hNow⟩ := h.applied
  have hAfter := Dossier.recoverExpiredDeliveries_row hApply id
  rw [hRow, Option.map_some] at hAfter
  by_cases hRecoverable : row.recoverable (.instant T) limit (fun _ => false) s.db = true
  · rw [if_pos hRecoverable] at hAfter
    right
    by_cases hDeadline : row.retryDeadline ≤ T
    · exact .inr ⟨hDeadline, _, hAfter, if_pos hDeadline, hNow ▸ hDeadline⟩
    · have hGeneration : (row.recover (.instant T)).generation = row.generation + 1 := if_neg hDeadline
      have hNew : ∀ before, (s.db.dossier id).row = some before →
          before.generation ≠ (row.recover (.instant T)).generation := by
        intro before hBefore
        obtain rfl := Option.some.inj (hRow.symm.trans hBefore)
        omega
      rcases Database.dossier_moves hs.integrity hApply id with hSame | hMove
      · rw [hSame] at hAfter
        exact absurd rfl (hNew _ hAfter)
      · obtain ⟨event, hEvent, hSlot⟩ := hMove.recovered_event hRow hAfter hDeadline
        have hLaunches := hMove.launches trivial (hs.paced id) hAfter hNew hEvent hSlot
        exact .inl ⟨not_le.mp hDeadline, _, event, hAfter, if_neg hDeadline, le_rfl, not_le.mp hDeadline, hEvent, hSlot,
          hLaunches.claimable (by omega)⟩
  · rw [if_neg hRecoverable] at hAfter
    exact .inl hAfter

/-- Recoveries reach a delivery whose lease has expired. -/
theorem Reachable.recover_phase (tuning : Tuning) (hs : s.Reachable) (hRun : Run (Repair tuning) first history s)
    (hNow : s.now = T) (hRow : (s.db.dossier id).row = some row) (hExpired : row.leaseExpired (.instant T) = true) :
    ∃ history' t, Run (Repair tuning) first history' t ∧ t.Reachable ∧ t.now = T ∧
      (T < row.retryDeadline ∧ t.Ready T id ∨ row.retryDeadline ≤ T ∧ t.Expired id) := by
  refine hRun.reach (I := fun _ s => s.Reachable ∧ s.now = T ∧ (s.db.dossier id).row = some row)
    (fun s => s.db.deliveries.countP (DeliveryRow.leaseExpired (.instant T))) ?_ ⟨hs, hNow, hRow⟩
  rintro history s ⟨hs, hNow, hRow⟩
  obtain ⟨attemptIDs, eventIDs, traceIDs, t, hStep⟩ := hs.recover_step hNow.le tuning.recover_pos
  have hNow' : t.now = T := hStep.applied.2.2
  refine ⟨[], t, .recover hStep, ?_⟩
  rcases recoverExpiredDeliveries_ready hs hRow hStep with hSame | hDone
  · have hMem := (hs.integrity.dossier_row_iff.mp hRow).1
    exact .inr ⟨⟨hs.step hStep, hNow', hSame⟩,
      recoverExpiredDeliveries_fewer hMem hExpired tuning.recover_pos hStep⟩
  · exact .inl ⟨hs.step hStep, hNow', hDone⟩

end Recover

section Schedule

variable {limit : Int} {eventIDs traceIDs : UUID → UUID}

theorem scheduleDueRetries_fewer (hRow : row ∈ s.db.deliveries) (hDue : row.unsignalled (.instant T) s.db = true)
    (hLimit : 0 < limit)
    (h : Step s (.commit (.instant T) (.scheduleDueRetries limit (fun _ => false) eventIDs traceIDs)) t) :
    t.db.deliveries.countP (DeliveryRow.unsignalled (.instant T) t.db) <
      s.db.deliveries.countP (DeliveryRow.unsignalled (.instant T) s.db) := by
  obtain ⟨expired, hUpdate, hInsert⟩ := scheduleDueRetries_ok h.applied.1
  obtain ⟨_, rfl⟩ := Database.updateDeliveries_ok hUpdate
  obtain ⟨hDeliveries, hEvents, hCovered⟩ := Database.insertMissingEvents_ok hInsert
  have hSome : dueDeliveries (.instant T) limit (fun _ => false) s.db ≠ [] :=
    batch_ne_nil _ (by omega) hRow (by simpa using hDue)
  obtain ⟨other, hOther⟩ := List.exists_mem_of_ne_nil _ hSome
  obtain ⟨hMem, hMatch⟩ := mem_of_mem_batch _ hOther
  have hOtherDue := (Bool.and_eq_true_iff.mp hMatch).1
  obtain ⟨_, _, _, hInside, _⟩ := DeliveryRow.unsignalled_iff.mp hOtherDue
  have hNotPast : ¬other.pastDeadline (.instant T) = true := fun hPast =>
    not_lt.mpr (DeliveryRow.pastDeadline_iff.mp hPast).2 hInside
  rw [hDeliveries]
  refine countP_map_lt (fun row _ hStill => ?_) hMem hOtherDue ?_
  · split at hStill
    · cases (DeliveryRow.unsignalled_iff.mp hStill).1
    · obtain ⟨hPending, hGeneration, hNext, hDeadline, hMissing⟩ := DeliveryRow.unsignalled_iff.mp hStill
      exact DeliveryRow.unsignalled_iff.mpr
        ⟨hPending, hGeneration, hNext, hDeadline, fun event hEvent => hMissing event (hEvents hEvent)⟩
  · rw [if_neg hNotPast, Bool.eq_false_iff]
    intro hStill
    obtain ⟨event, hEvent, hSlot⟩ := hCovered _ (List.mem_map_of_mem hOther)
    simp only [OutboxEventRow.sameSlot, Bool.and_eq_true, decide_eq_true_eq] at hSlot
    exact (DeliveryRow.unsignalled_iff.mp hStill).2.2.2.2 event hEvent ⟨hSlot.1.symm, hSlot.2.symm⟩

/-- Scheduling leaves a delivery without an event as it is, or makes it ready. -/
theorem scheduleDueRetries_ready (hs : s.Reachable) (hRow : (s.db.dossier id).row = some row)
    (hPending : row.status = .pending) (hGeneration : 0 < row.generation) (hDue : row.nextAttemptAt ≤ T)
    (hDeadline : T < row.retryDeadline)
    (hMissing : ∀ event ∈ (s.db.dossier id).events, event.generation ≠ row.generation)
    (h : Step s (.commit (.instant T) (.scheduleDueRetries limit (fun _ => false) eventIDs traceIDs)) t) :
    (t.db.dossier id).row = some row ∧
      ((∀ event ∈ (t.db.dossier id).events, event.generation ≠ row.generation) ∨ t.Ready T id) := by
  have hApply := h.applied.1
  have hAfter := Dossier.scheduleDueRetries_row hApply id
  have hNotPast : ¬row.pastDeadline (.instant T) = true := fun hPast =>
    not_lt.mpr (DeliveryRow.pastDeadline_iff.mp hPast).2 hDeadline
  rw [hRow, Option.map_some, if_neg hNotPast] at hAfter
  refine ⟨hAfter, ?_⟩
  by_cases hNone : ∀ event ∈ (t.db.dossier id).events, event.generation ≠ row.generation
  · exact .inl hNone
  · push Not at hNone
    obtain ⟨event, hEvent, hSlot⟩ := hNone
    rcases Database.dossier_moves hs.integrity hApply id with hSame | hMove
    · rw [hSame] at hEvent
      exact absurd hSlot (hMissing event hEvent)
    · rcases hMove.event_cases trivial hAfter hEvent with ⟨_, old, _, hOld, hEventMove, _⟩ | hLaunches
      · exact absurd (hEventMove.generation_eq.symm.trans hSlot) (hMissing old hOld)
      · exact .inr ⟨row, event, hAfter, hPending, hDue, hDeadline, hEvent, hSlot, hLaunches.claimable hGeneration⟩

/-- Scheduling reaches a due delivery that has no event yet. -/
theorem Reachable.schedule_phase (tuning : Tuning) (hs : s.Reachable) (hRun : Run (Repair tuning) first history s)
    (hNow : s.now = T) (hRow : (s.db.dossier id).row = some row) (hPending : row.status = .pending)
    (hGeneration : 0 < row.generation) (hDue : row.nextAttemptAt ≤ T) (hDeadline : T < row.retryDeadline)
    (hMissing : ∀ event ∈ (s.db.dossier id).events, event.generation ≠ row.generation) :
    ∃ history' t, Run (Repair tuning) first history' t ∧ t.Reachable ∧ t.now = T ∧ t.Ready T id := by
  refine hRun.reach (I := fun _ s => s.Reachable ∧ s.now = T ∧ (s.db.dossier id).row = some row ∧
      ∀ event ∈ (s.db.dossier id).events, event.generation ≠ row.generation)
    (fun s => s.db.deliveries.countP (DeliveryRow.unsignalled (.instant T) s.db)) ?_ ⟨hs, hNow, hRow, hMissing⟩
  rintro history s ⟨hs, hNow, hRow, hMissing⟩
  obtain ⟨eventIDs, traceIDs, t, hStep⟩ := hs.schedule_step hNow.le tuning.schedule_pos
  have hNow' : t.now = T := hStep.applied.2.2
  refine ⟨[], t, .schedule hStep, ?_⟩
  obtain ⟨hSame, hStill | hReady⟩ :=
    scheduleDueRetries_ready hs hRow hPending hGeneration hDue hDeadline hMissing hStep
  · obtain ⟨hMem, hID⟩ := hs.integrity.dossier_row_iff.mp hRow
    refine .inr ⟨⟨hs.step hStep, hNow', hSame, hStill⟩, scheduleDueRetries_fewer hMem ?_ tuning.schedule_pos hStep⟩
    refine DeliveryRow.unsignalled_iff.mpr ⟨hPending, hGeneration, hDue, hDeadline, fun event hEvent hSlot => ?_⟩
    exact hMissing event ((mem_owned _).mpr ⟨hEvent, hSlot.1.trans hID⟩) hSlot.2
  · exact .inl ⟨hs.step hStep, hNow', hReady⟩

end Schedule

section Reconcile

variable {limit : Int} {watchdog : Duration} {traceIDs : UUID → UUID} {event : OutboxEventRow}

/-- What one reconciliation at `T` does to the two tables. -/
theorem reconcileStalledSignals_tables
    (h : Step s (.commit (.instant T) (.reconcileStalledSignals watchdog limit (fun _ => false) traceIDs)) t) :
    t.db.deliveries = s.db.deliveries ∧
      t.db.outboxEvents = updateWhere
        (fun row => row.publishedAt.isSome &&
          (stalledEvents (.instant T) watchdog limit (fun _ => false) s.db).any fun candidate => candidate.id = row.id)
        (fun row => row.reset (.instant T) (traceIDs row.id)) s.db.outboxEvents := by
  rw [(Database.updateEvents_ok (reconcileStalledSignals_ok h.applied.1)).2]
  exact ⟨rfl, rfl⟩

theorem reconcileStalledSignals_fewer (hEvent : event ∈ s.db.outboxEvents)
    (hStalled : event.stalled (.instant T) watchdog s.db = true) (hLimit : 0 < limit)
    (h : Step s (.commit (.instant T) (.reconcileStalledSignals watchdog limit (fun _ => false) traceIDs)) t) :
    t.db.outboxEvents.countP (OutboxEventRow.stalled (.instant T) watchdog t.db) <
      s.db.outboxEvents.countP (OutboxEventRow.stalled (.instant T) watchdog s.db) := by
  obtain ⟨hDeliveries, hEvents⟩ := reconcileStalledSignals_tables h
  have hSame : OutboxEventRow.stalled (.instant T) watchdog t.db =
      OutboxEventRow.stalled (.instant T) watchdog s.db := by
    funext row
    rw [OutboxEventRow.stalled, OutboxEventRow.stalled, hDeliveries]
  have hSome : stalledEvents (.instant T) watchdog limit (fun _ => false) s.db ≠ [] :=
    batch_ne_nil _ (by omega) hEvent (by simpa using hStalled)
  obtain ⟨other, hOther⟩ := List.exists_mem_of_ne_nil _ hSome
  obtain ⟨hMem, hMatch⟩ := mem_of_mem_batch _ hOther
  have hOtherStalled := (Bool.and_eq_true_iff.mp hMatch).1
  have hAfter (row : OutboxEventRow) :
      (row.reset (.instant T) (traceIDs row.id)).stalled (.instant T) watchdog s.db = false := by
    rw [Bool.eq_false_iff]
    intro hStill
    obtain ⟨_, ⟨_, hPublished, _⟩, _⟩ := OutboxEventRow.stalled_iff.mp hStill
    cases hPublished
  rw [hEvents, hSame]
  refine countP_map_lt (fun row _ hStill => ?_) hMem hOtherStalled ?_
  · split at hStill
    · rw [hAfter] at hStill
      cases hStill
    · exact hStill
  · obtain ⟨_, ⟨_, hPublished, _⟩, _⟩ := OutboxEventRow.stalled_iff.mp hOtherStalled
    rw [if_pos]
    · exact hAfter other
    · refine Bool.and_eq_true_iff.mpr ⟨by simp [hPublished], ?_⟩
      exact List.any_eq_true.mpr ⟨other, hOther, decide_eq_true rfl⟩

/-- Reconciliation reaches a due delivery whose signal is overdue. -/
theorem Reachable.reconcile_phase (tuning : Tuning) (hs : s.Reachable) (hRun : Run (Repair tuning) first history s)
    (hNow : s.now = T) (hRow : (s.db.dossier id).row = some row) (hPending : row.status = .pending)
    (hDue : row.nextAttemptAt ≤ T) (hDeadline : T < row.retryDeadline) (hEvent : event ∈ (s.db.dossier id).events)
    (hGeneration : event.generation = row.generation)
    (hOverdue : ∃ t, event.publishedAt = some t ∧ t + wholeMilliseconds tuning.watchdog ≤ T)
    (hUnobserved : ∀ t, event.observedAt = some t → t + wholeMilliseconds tuning.watchdog ≤ T) :
    ∃ history' t, Run (Repair tuning) first history' t ∧ t.Reachable ∧ t.now = T ∧ t.Ready T id := by
  obtain ⟨hEvent, hOwner⟩ := (mem_owned _).mp hEvent
  obtain ⟨published, hPublished, hWatchdog⟩ := hOverdue
  have hUnleased := hs.published_unleased hEvent (by simp [hPublished])
  refine hRun.reach (I := fun _ s => s.Reachable ∧ s.now = T ∧ (s.db.dossier id).row = some row ∧
      event ∈ s.db.outboxEvents)
    (fun s => s.db.outboxEvents.countP (OutboxEventRow.stalled (.instant T) tuning.watchdog s.db)) ?_
    ⟨hs, hNow, hRow, hEvent⟩
  rintro history s ⟨hs, hNow, hRow, hEvent⟩
  obtain ⟨hMem, hID⟩ := hs.integrity.dossier_row_iff.mp hRow
  obtain ⟨traceIDs, t, hStep⟩ := hs.reconcile_step hNow.le tuning.watchdog_pos tuning.reconcile_pos
  obtain ⟨hDeliveries, hEvents⟩ := reconcileStalledSignals_tables hStep
  have hNow' : t.now = T := hStep.applied.2.2
  have hRow' := (row_of_deliveries hDeliveries id).trans hRow
  have hStalled : event.stalled (.instant T) tuning.watchdog s.db = true := by
    refine OutboxEventRow.stalled_iff.mpr ⟨⟨row, hMem, hID.trans hOwner.symm, hGeneration.symm, hPending, hDue,
      hDeadline⟩, ⟨published, hPublished, Int.le_sub_right_of_add_le hWatchdog⟩, ?_, hUnleased⟩
    rcases hObserved : event.observedAt with _ | observed
    · exact .inl rfl
    · exact .inr ⟨observed, rfl, Int.le_sub_right_of_add_le (hUnobserved observed hObserved)⟩
  refine ⟨[], t, .reconcile hStep, ?_⟩
  by_cases hChosen : (event.publishedAt.isSome && (stalledEvents (.instant T) tuning.watchdog tuning.reconcileLimit
      (fun _ => false) s.db).any fun candidate => candidate.id = event.id) = true
  · refine .inl ⟨hs.step hStep, hNow', row, event.reset (.instant T) (traceIDs event.id), hRow', hPending, hDue,
      hDeadline, (mem_owned _).mpr ⟨?_, hOwner⟩, hGeneration, ?_⟩
    · rw [hEvents]
      exact mem_updateWhere.mpr ⟨event, hEvent, if_pos hChosen⟩
    · exact OutboxEventRow.claimable_iff.mpr ⟨rfl, le_rfl, .inl hUnleased.2.2⟩
  · refine .inr ⟨⟨hs.step hStep, hNow', hRow', ?_⟩,
      reconcileStalledSignals_fewer hEvent hStalled tuning.reconcile_pos hStep⟩
    rw [hEvents]
    exact mem_updateWhere.mpr ⟨event, hEvent, if_neg hChosen⟩

end Reconcile

end Store

end ReliableNotifier
