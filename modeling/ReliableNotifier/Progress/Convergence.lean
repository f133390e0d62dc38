import ReliableNotifier.Progress.Repair

/-! # Maintenance statements at one instant

Schedulers and reconcilers that run at the same instant leave the same store in whatever
order they run and however often. A dossier has at most one repair due, and once it is
made no statement has anything left to do there.
-/

namespace ReliableNotifier

open Checked RowTable

/-- A call of one of the maintenance loops. -/
inductive Maintenance where
  | scheduleDueRetries
  | recoverExpiredDeliveries
  | reconcileStalledSignals (watchdog : Duration)
  | deleteExpiredTerminal (successRetention failureRetention : Duration)
  deriving DecidableEq

/-- The identifiers that the statements of a call draw for each row. -/
structure Draws where
  attemptIDs : UUID → UUID
  eventIDs : UUID → UUID
  traceIDs : UUID → UUID

namespace Maintenance

def op (limit : Int) (draws : Draws) : Maintenance → Op
  | scheduleDueRetries => .scheduleDueRetries limit (fun _ => false) draws.eventIDs draws.traceIDs
  | recoverExpiredDeliveries =>
    .recoverExpiredDeliveries limit (fun _ => false) draws.attemptIDs draws.eventIDs draws.traceIDs
  | reconcileStalledSignals watchdog => .reconcileStalledSignals watchdog limit (fun _ => false) draws.traceIDs
  | deleteExpiredTerminal successRetention failureRetention =>
    .deleteExpiredTerminal successRetention failureRetention limit (fun _ => false)

/-- The number of rows that the call selects when nothing limits it. -/
def qualifying (t : Time) (db : Database) : Maintenance → Nat
  | scheduleDueRetries => db.deliveries.countP (·.unsignalled (.instant t) db)
  | recoverExpiredDeliveries => db.deliveries.countP (·.leaseExpired (.instant t))
  | reconcileStalledSignals watchdog => db.outboxEvents.countP (·.stalled (.instant t) watchdog db)
  | deleteExpiredTerminal successRetention failureRetention =>
    db.deliveries.countP fun row => !row.retained (.instant t) successRetention failureRetention

def Proper : Maintenance → Prop
  | scheduleDueRetries | recoverExpiredDeliveries => True
  | reconcileStalledSignals watchdog => 0 < watchdog
  | deleteExpiredTerminal successRetention failureRetention => 0 < successRetention ∧ 0 < failureRetention

/-- What the first call fails at an instant the second does not delete at that instant. -/
def Spares : Maintenance → Maintenance → Prop
  | scheduleDueRetries, deleteExpiredTerminal _ failureRetention
  | recoverExpiredDeliveries, deleteExpiredTerminal _ failureRetention => 1000000 ≤ failureRetention
  | _, _ => True

end Maintenance

/-- The event was published, and seen by a worker if at all, before the watchdog's time. -/
def OutboxEventRow.Overdue (t : Time) (watchdog : Duration) (event : OutboxEventRow) : Prop :=
  (∃ at_, event.publishedAt = some at_ ∧ at_ ≤ t - wholeMilliseconds watchdog) ∧
  (event.observedAt = none ∨ ∃ at_, event.observedAt = some at_ ∧ at_ ≤ t - wholeMilliseconds watchdog) ∧
  event.leaseOwner = none ∧ event.leaseToken = none ∧ event.leaseUntil = none

/-- The dossier needs what the call does. -/
inductive Maintenance.Due (t : Time) (d : Dossier) : Maintenance → Prop
  | expire {row : DeliveryRow} (hRow : d.row = some row) (hPending : row.status = .pending)
      (hPast : row.retryDeadline ≤ t) : Due t d .scheduleDueRetries
  | schedule {row : DeliveryRow} (hRow : d.row = some row) (hPending : row.status = .pending)
      (hRetry : 0 < row.generation) (hNext : row.nextAttemptAt ≤ t) (hDeadline : t < row.retryDeadline)
      (hMissing : ∀ event ∈ d.events, event.generation ≠ row.generation) : Due t d .scheduleDueRetries
  | recover {row : DeliveryRow} (hRow : d.row = some row) (hExpired : row.leaseExpired (.instant t) = true) :
      Due t d .recoverExpiredDeliveries
  | reconcile {row : DeliveryRow} {event : OutboxEventRow} {watchdog : Duration} (hRow : d.row = some row)
      (hPending : row.status = .pending) (hNext : row.nextAttemptAt ≤ t) (hDeadline : t < row.retryDeadline)
      (hEvent : event ∈ d.events) (hGeneration : event.generation = row.generation)
      (hOverdue : event.Overdue t watchdog) : Due t d (.reconcileStalledSignals watchdog)
  | delete {row : DeliveryRow} {successRetention failureRetention : Duration} (hRow : d.row = some row)
      (hExpired : row.retained (.instant t) successRetention failureRetention = false) :
      Due t d (.deleteExpiredTerminal successRetention failureRetention)

/-- The repair of a dossier for which some maintenance is due. -/
def Dossier.settle (t : Time) (attemptID eventID traceID : UUID) (d : Dossier) : Dossier :=
  match d.row with
  | none => d
  | some row =>
    match row.status with
    | .pending =>
      if row.retryDeadline ≤ t then { d with row := some (row.fail (.instant t)) }
      else if ∀ event ∈ d.events, event.generation ≠ row.generation then
        { d with events := d.events ++ [row.signal (.instant t) eventID traceID row.nextAttemptAt] }
      else
        { d with
          events := updateWhere (·.generation = row.generation) (·.reset (.instant t) traceID) d.events }
    | .delivering =>
      { d with
        row := some (row.recover (.instant t))
        events := d.events ++
          if t < row.retryDeadline then [row.repair (.instant t) (fun _ => eventID) fun _ => traceID] else []
        attempts := d.attempts ++ [row.recoveryAttempt (.instant t) attemptID] }
    | .succeeded | .failedPermanent => .absent

section Settled

variable {t : Time} {d : Dossier} {row : DeliveryRow} {attemptID eventID traceID : UUID} {call : Maintenance}

theorem Maintenance.Due.exists_row (h : call.Due t d) : ∃ row, d.row = some row := by
  cases h with
  | expire hRow | schedule hRow | recover hRow | reconcile hRow | delete hRow => exact ⟨_, hRow⟩

/-- A delivery that failed at `t` needs nothing else at `t`. -/
theorem Maintenance.not_due_of_failed (hRow : d.row = some row) (hFailed : row.status = .failedPermanent)
    (hUpdated : row.updatedAt = t) (hSpares : Maintenance.recoverExpiredDeliveries.Spares call) : ¬call.Due t d := by
  intro hDue
  cases hDue with
  | expire hSame hOther | schedule hSame hOther | reconcile hSame hOther =>
    cases hRow.symm.trans hSame
    cases hFailed.symm.trans hOther
  | recover hSame hExpired =>
    cases hRow.symm.trans hSame
    cases hFailed.symm.trans (DeliveryRow.leaseExpired_iff.mp hExpired).1
  | @delete _ _ failureRetention hSame hExpired =>
    cases hRow.symm.trans hSame
    have hPast : t ≤ t - wholeMilliseconds failureRetention := by
      simpa [DeliveryRow.retained, hFailed, hUpdated, Readings.instant] using hExpired
    exact absurd hPast (not_le.mpr (sub_lt_self t (wholeMilliseconds_pos hSpares)))

/-- A delivery with an unpublished event for its generation needs nothing. -/
theorem Maintenance.not_due_of_signalled (hRow : d.row = some row) (hPending : row.status = .pending)
    (hDeadline : t < row.retryDeadline) (hSignalled : ∃ event ∈ d.events, event.generation = row.generation)
    (hUnpublished : ∀ event ∈ d.events, event.generation = row.generation → event.publishedAt = none) :
    ¬call.Due t d := by
  intro hDue
  cases hDue with
  | expire hSame _ hPast =>
    cases hRow.symm.trans hSame
    exact absurd hDeadline (not_lt.mpr hPast)
  | schedule hSame _ _ _ _ hMissing =>
    cases hRow.symm.trans hSame
    obtain ⟨event, hEvent, hGeneration⟩ := hSignalled
    exact hMissing event hEvent hGeneration
  | recover hSame hExpired =>
    cases hRow.symm.trans hSame
    cases hPending.symm.trans (DeliveryRow.leaseExpired_iff.mp hExpired).1
  | reconcile hSame _ _ _ hEvent hGeneration hOverdue =>
    cases hRow.symm.trans hSame
    obtain ⟨at_, hPublished, _⟩ := hOverdue.1
    cases (hUnpublished _ hEvent hGeneration).symm.trans hPublished
  | delete hSame hExpired =>
    cases hRow.symm.trans hSame
    rcases DeliveryRow.terminal_of_not_retained hExpired with hOther | hOther <;> cases hPending.symm.trans hOther

namespace Dossier

theorem settle_expire (hRow : d.row = some row) (hPending : row.status = .pending) (hPast : row.retryDeadline ≤ t) :
    d.settle t attemptID eventID traceID = { d with row := some (row.fail (.instant t)) } := by
  simp only [settle, hRow, hPending, if_pos hPast]

theorem settle_schedule (hRow : d.row = some row) (hPending : row.status = .pending)
    (hDeadline : t < row.retryDeadline) (hMissing : ∀ event ∈ d.events, event.generation ≠ row.generation) :
    d.settle t attemptID eventID traceID =
      { d with events := d.events ++ [row.signal (.instant t) eventID traceID row.nextAttemptAt] } := by
  simp only [settle, hRow, hPending, if_neg (not_le.mpr hDeadline), if_pos hMissing]

theorem settle_reconcile {event : OutboxEventRow} (hRow : d.row = some row) (hPending : row.status = .pending)
    (hDeadline : t < row.retryDeadline) (hEvent : event ∈ d.events) (hGeneration : event.generation = row.generation) :
    d.settle t attemptID eventID traceID =
      { d with events := updateWhere (·.generation = row.generation) (·.reset (.instant t) traceID) d.events } := by
  have hTaken : ¬∀ event ∈ d.events, event.generation ≠ row.generation := fun h => h event hEvent hGeneration
  simp only [settle, hRow, hPending, if_neg (not_le.mpr hDeadline), if_neg hTaken]

theorem settle_recover (hRow : d.row = some row) (hDelivering : row.status = .delivering) :
    d.settle t attemptID eventID traceID =
      { d with
        row := some (row.recover (.instant t))
        events := d.events ++
          if t < row.retryDeadline then [row.repair (.instant t) (fun _ => eventID) fun _ => traceID] else []
        attempts := d.attempts ++ [row.recoveryAttempt (.instant t) attemptID] } := by
  simp only [settle, hRow, hDelivering]

theorem settle_delete (hRow : d.row = some row)
    (hTerminal : row.status = .succeeded ∨ row.status = .failedPermanent) :
    d.settle t attemptID eventID traceID = .absent := by
  rcases hTerminal with hStatus | hStatus <;> simp only [settle, hRow, hStatus]

end Dossier

/-- After its repair a dossier needs nothing more at the same instant. -/
theorem Maintenance.Due.settled {other : Maintenance} (hDue : call.Due t d) (hSpares : call.Spares other)
    (hBound : ∀ row, d.row = some row → ∀ event ∈ d.events, event.generation ≤ row.generation) :
    ¬other.Due t (d.settle t attemptID eventID traceID) := by
  cases hDue with
  | expire hRow hPending hPast =>
    rw [Dossier.settle_expire hRow hPending hPast]
    exact not_due_of_failed rfl rfl rfl (by cases other <;> exact hSpares)
  | @schedule row hRow hPending _ _ hDeadline hMissing =>
    rw [Dossier.settle_schedule hRow hPending hDeadline hMissing]
    refine not_due_of_signalled hRow hPending hDeadline
      ⟨_, List.mem_append_right _ (List.mem_singleton_self _), rfl⟩ fun event hEvent hGeneration => ?_
    rcases List.mem_append.mp hEvent with hOld | hNew
    · exact absurd hGeneration (hMissing event hOld)
    · rw [List.mem_singleton.mp hNew]
      rfl
  | @recover row hRow hExpired =>
    rw [Dossier.settle_recover hRow (DeliveryRow.leaseExpired_iff.mp hExpired).1]
    by_cases hDeadline : t < row.retryDeadline
    · have hNext : (row.recover (.instant t)).generation = row.generation + 1 :=
        if_neg (not_le.mpr hDeadline)
      refine not_due_of_signalled rfl (DeliveryRow.recover_pending_iff.mpr hDeadline) hDeadline
        ⟨row.repair (.instant t) (fun _ => eventID) fun _ => traceID, ?_, rfl⟩ fun event hEvent hGeneration => ?_
      · rw [if_pos hDeadline]
        exact List.mem_append_right _ (List.mem_singleton_self _)
      · rw [if_pos hDeadline] at hEvent
        rcases List.mem_append.mp hEvent with hOld | hNew
        · have hOlder := hBound row hRow event hOld
          omega
        · rw [List.mem_singleton.mp hNew]
          rfl
    · exact not_due_of_failed rfl (if_pos (not_lt.mp hDeadline)) rfl hSpares
  | @reconcile row event _ hRow hPending _ hDeadline hEvent hGeneration _ =>
    rw [Dossier.settle_reconcile hRow hPending hDeadline hEvent hGeneration]
    refine not_due_of_signalled hRow hPending hDeadline ?_ fun other hOther hSame => ?_
    · obtain ⟨new, hNew, hSame⟩ := exists_mem_updateWhere (p := fun event => event.generation = row.generation)
        (f := fun event => event.reset (.instant t) traceID) OutboxEventRow.generation (fun _ => rfl) hEvent
      exact ⟨new, hNew, hSame.trans hGeneration⟩
    · obtain ⟨old, _, rfl⟩ := mem_updateWhere.mp hOther
      split
      · rfl
      · rename_i hApart
        rw [if_neg hApart] at hSame
        exact absurd (decide_eq_true hSame) hApart
  | delete hRow hExpired =>
    rw [Dossier.settle_delete hRow (DeliveryRow.terminal_of_not_retained hExpired)]
    intro hDue
    obtain ⟨_, hNone⟩ := hDue.exists_row
    cases hNone

end Settled

/-- `d'` is the repaired `d`, with identifiers that were not drawn before. -/
def Dossier.Settled (issued : List UUID) (t : Time) (d d' : Dossier) : Prop :=
  ∃ attemptID eventID traceID, attemptID ∉ issued ∧ eventID ∉ issued ∧ traceID ∉ issued ∧
    d' = d.settle t attemptID eventID traceID

/-- The call makes the repair of a dossier that needs it and leaves any other. -/
def Maintenance.Serves (call : Maintenance) (issued : List UUID) (t : Time) (d d' : Dossier) : Prop :=
  call.Due t d ∧ d.Settled issued t d' ∨ ¬call.Due t d ∧ d' = d

theorem Dossier.Move.exists_row {r : Readings} {op : Op} {d d' : Dossier} (h : Move r op d d')
    (hInternal : op.isInternal = true) : ∃ row, d.row = some row := by
  cases h with
  | submit => cases hInternal
  | events | claim | complete | expire | schedule | recover | abandon | replay | delete => exact ⟨_, rfl⟩

theorem mem_batch_unlocked {α : Type*} {le : α → α → Prop} [DecidableRel le] {limit : Int} {p : α → Bool}
    {rows : List α} {row : α} (hEnough : (rows.countP p : Int) ≤ limit) (hRow : row ∈ rows) :
    row ∈ batch le limit.toNat (fun row => p row && !false) rows ↔ p row = true := by
  have hAll : (fun row => p row && !false) = p := by
    funext row
    exact Bool.and_true _
  rw [hAll, mem_batch_iff le ((Int.le_toNat (le_trans (Int.natCast_nonneg _) hEnough)).mpr hEnough)]
  exact and_iff_right hRow

namespace Store

variable {s u : Store} {t : Time} {limit : Int} {draws : Draws} {id : UUID} {row : DeliveryRow}

theorem Step.fresh {r : Readings} {op : Op} (h : Step s (.commit r op) u) : op.Fresh s r := by
  cases h with
  | commit _ _ hFresh _ => exact hFresh

theorem exists_not_issued (s : Store) : ∃ id, id ∉ s.issued :=
  let ⟨n, hn⟩ := exists_above s.issued
  ⟨n, fun h => absurd (hn n h) (lt_irrefl n)⟩

theorem Reachable.unsignalled_iff (hs : s.Reachable) (hRow : (s.db.dossier id).row = some row) :
    row.unsignalled (.instant t) s.db = true ↔ row.status = .pending ∧ 0 < row.generation ∧ row.nextAttemptAt ≤ t ∧
      t < row.retryDeadline ∧ ∀ event ∈ (s.db.dossier id).events, event.generation ≠ row.generation := by
  obtain ⟨_, rfl⟩ := hs.integrity.dossier_row_iff.mp hRow
  rw [DeliveryRow.unsignalled_iff]
  simp only [Readings.instant, Database.dossier, mem_owned, not_and, and_imp]

theorem owned_chosen_eq {rows : List DeliveryRow} {p : Bool} (hDb : Integrity s.db)
    (hRows : ∀ row ∈ rows, row ∈ s.db.deliveries) (hIDs : (rows.map DeliveryRow.id).Nodup)
    (hRow : (s.db.dossier id).row = some row) (hChosen : row ∈ rows ↔ p = true) :
    owned DeliveryRow.id id rows = if p = true then [row] else [] := by
  rcases hDb.owned_chosen hRows hIDs hRow with ⟨hIn, hOwned⟩ | ⟨hOut, hOwned⟩
  · rw [hOwned, if_pos (hChosen.mp hIn)]
  · rw [hOwned, if_neg (mt hChosen.mpr hOut)]

theorem Reachable.schedule_dossier (hs : s.Reachable)
    (hEnough : (Maintenance.scheduleDueRetries.qualifying t s.db : Int) ≤ limit)
    (hStep : Step s (.commit (.instant t) (Maintenance.scheduleDueRetries.op limit draws)) u)
    (hRow : (s.db.dossier id).row = some row) :
    u.db.dossier id =
      { s.db.dossier id with
        row := some (if row.pastDeadline (.instant t) = true then row.fail (.instant t) else row)
        events := (s.db.dossier id).events ++ (if row.unsignalled (.instant t) s.db = true then [row] else []).map
          fun row => row.signal (.instant t) (draws.eventIDs row.id) (draws.traceIDs row.id) row.nextAttemptAt } := by
  have hApply := hStep.applied.1
  obtain ⟨_, hOk, _⟩ := bind_ok_iff.mp hApply
  have hDb := Except.ok.inj (hApply.symm.trans
    (hs.schedule_eq (of_decide_eq_true (ensure_ok_iff.mp hOk)) hStep.fresh))
  have hOwned : owned DeliveryRow.id id (dueDeliveries (.instant t) limit (fun _ => false) s.db) = _ :=
    owned_chosen_eq hs.integrity (fun row hIn => (mem_of_mem_batch _ hIn).1)
      (batch_map_nodup _ DeliveryRow.id hs.integrity.deliveryIDs) hRow
      (mem_batch_unlocked hEnough (hs.integrity.dossier_row_iff.mp hRow).1)
  simp only [Database.dossier] at hRow
  simp only [hDb, Database.dossier, lookup_updateWhere DeliveryRow.id (f := DeliveryRow.fail _) fun _ => rfl, hRow,
    owned_append, hOwned, Option.map_some,
    @owned_map _ _ _ _ DeliveryRow.id OutboxEventRow.deliveryID (fun row => row.signal _ _ _ _) fun _ => rfl]

theorem Reachable.recover_dossier (hs : s.Reachable)
    (hEnough : (Maintenance.recoverExpiredDeliveries.qualifying t s.db : Int) ≤ limit)
    (hStep : Step s (.commit (.instant t) (Maintenance.recoverExpiredDeliveries.op limit draws)) u)
    (hRow : (s.db.dossier id).row = some row) :
    u.db.dossier id =
      { s.db.dossier id with
        row := some (if row.leaseExpired (.instant t) = true then row.recover (.instant t) else row)
        attempts := (s.db.dossier id).attempts ++ (if row.leaseExpired (.instant t) = true then [row] else []).map
          fun row => row.recoveryAttempt (.instant t) (draws.attemptIDs row.id)
        events := (s.db.dossier id).events ++ ((if row.leaseExpired (.instant t) = true then [row] else []).filter
          (t < ·.retryDeadline)).map (DeliveryRow.repair (.instant t) draws.eventIDs draws.traceIDs) } := by
  obtain ⟨hApply, hClock, _⟩ := hStep.applied
  obtain ⟨_, hOk, _⟩ := bind_ok_iff.mp hApply
  have hDb := Except.ok.inj (hApply.symm.trans
    (hs.recover_eq hClock (of_decide_eq_true (ensure_ok_iff.mp hOk)) hStep.fresh))
  have hMem := (hs.integrity.dossier_row_iff.mp hRow).1
  have hRecoverable : row.recoverable (.instant t) limit (fun _ => false) s.db = row.leaseExpired (.instant t) := by
    rw [Bool.eq_iff_iff, DeliveryRow.recoverable_iff hs.integrity hMem]
    exact mem_batch_unlocked hEnough hMem
  have hOwned : owned DeliveryRow.id id (recoveredDeliveries (.instant t) limit (fun _ => false) s.db) = _ :=
    owned_chosen_eq hs.integrity (fun row hIn => (List.mem_filter.mp hIn).1)
      (recoveredDeliveries_nodup hs.integrity) hRow
      ⟨fun hIn => hRecoverable ▸ (List.mem_filter.mp hIn).2, fun h => List.mem_filter.mpr ⟨hMem, hRecoverable ▸ h⟩⟩
  simp only [Database.dossier] at hRow
  simp only [hDb, Database.dossier, lookup_updateWhere DeliveryRow.id (f := DeliveryRow.recover _) fun _ => rfl, hRow,
    owned_append, owned_filter, hOwned, hRecoverable, Option.map_some,
    @owned_map _ _ _ _ DeliveryRow.id AttemptRow.deliveryID (fun row => row.recoveryAttempt _ _) fun _ => rfl,
    @owned_map _ _ _ _ DeliveryRow.id OutboxEventRow.deliveryID (DeliveryRow.repair _ _ _) fun _ => rfl]
  rfl

theorem Reachable.stalled_iff {watchdog : Duration} (hs : s.Reachable) (hRow : (s.db.dossier id).row = some row)
    {event : OutboxEventRow} (hEvent : event ∈ (s.db.dossier id).events) :
    event.stalled (.instant t) watchdog s.db = true ↔ row.generation = event.generation ∧ row.status = .pending ∧
      row.nextAttemptAt ≤ t ∧ t < row.retryDeadline ∧ event.Overdue t watchdog := by
  obtain ⟨hMem, hID⟩ := hs.integrity.dossier_row_iff.mp hRow
  obtain ⟨_, hOwner⟩ := (mem_owned _).mp hEvent
  rw [OutboxEventRow.stalled_iff]
  constructor
  · rintro ⟨⟨delivery, hDelivery, hSame, hGeneration, hPending, hNext, hDeadline⟩, hOverdue⟩
    obtain rfl := List.inj_on_of_nodup_map hs.integrity.deliveryIDs hDelivery hMem
      (hSame.trans (hOwner.trans hID.symm))
    exact ⟨hGeneration, hPending, hNext, hDeadline, hOverdue⟩
  · rintro ⟨hGeneration, hPending, hNext, hDeadline, hOverdue⟩
    exact ⟨⟨row, hMem, hID.trans hOwner.symm, hGeneration, hPending, hNext, hDeadline⟩, hOverdue⟩

theorem Reachable.reconcile_dossier {watchdog : Duration} (hs : s.Reachable)
    (hEnough : ((Maintenance.reconcileStalledSignals watchdog).qualifying t s.db : Int) ≤ limit)
    (hStep : Step s (.commit (.instant t) ((Maintenance.reconcileStalledSignals watchdog).op limit draws)) u) :
    u.db.dossier id =
      { s.db.dossier id with
        events := updateWhere (·.stalled (.instant t) watchdog s.db)
          (fun event => event.reset (.instant t) (draws.traceIDs event.id)) (s.db.dossier id).events } := by
  rw [Database.dossier_updateEvents (reconcileStalledSignals_ok hStep.applied.1) fun _ => rfl]
  refine congrArg (fun events => { s.db.dossier id with events }) (List.map_congr_left fun event hEvent => ?_)
  have hMem := ((mem_owned _).mp hEvent).1
  have hStalled : event ∈ stalledEvents (.instant t) watchdog limit (fun _ => false) s.db ↔
      event.stalled (.instant t) watchdog s.db = true := mem_batch_unlocked hEnough hMem
  have hCondition : (event.publishedAt.isSome && (stalledEvents (.instant t) watchdog limit (fun _ => false) s.db).any
      fun candidate => candidate.id = event.id) = event.stalled (.instant t) watchdog s.db := by
    rw [Bool.eq_iff_iff, ← hStalled, Bool.and_eq_true, List.any_eq_true]
    constructor
    · rintro ⟨_, other, hOther, hSame⟩
      exact hs.integrity.chosen_event (fun _ hIn => (mem_of_mem_batch _ hIn).1) hMem hOther
        (of_decide_eq_true hSame) ▸ hOther
    · intro hIn
      obtain ⟨_, ⟨at_, hPublished, _⟩, _⟩ := OutboxEventRow.stalled_iff.mp (hStalled.mp hIn)
      exact ⟨by simp [hPublished], event, hIn, decide_eq_true rfl⟩
  simp only [hCondition]

theorem Reachable.delete_dossier {successRetention failureRetention : Duration} (hs : s.Reachable)
    (hEnough : ((Maintenance.deleteExpiredTerminal successRetention failureRetention).qualifying t s.db : Int) ≤ limit)
    (hStep : Step s (.commit (.instant t)
      ((Maintenance.deleteExpiredTerminal successRetention failureRetention).op limit draws)) u)
    (hRow : (s.db.dossier id).row = some row) :
    u.db.dossier id = if row.retained (.instant t) successRetention failureRetention = true then s.db.dossier id
      else .absent := by
  obtain ⟨⟨deleted, final⟩, hDelete, rfl⟩ := map_ok_iff.mp hStep.applied.1
  have hExpired : row ∈ expiredTerminal (.instant t) successRetention failureRetention limit (fun _ => false) s.db ↔
      (!row.retained (.instant t) successRetention failureRetention) = true :=
    mem_batch_unlocked hEnough (hs.integrity.dossier_row_iff.mp hRow).1
  rw [Dossier.deleteExpiredTerminal_dossier hs.integrity hDelete, hRow, Option.any_some]
  simp only [decide_eq_true_eq, hExpired]
  cases row.retained (.instant t) successRetention failureRetention <;> rfl

theorem Reachable.schedule_serves (hs : s.Reachable)
    (hEnough : (Maintenance.scheduleDueRetries.qualifying t s.db : Int) ≤ limit)
    (hStep : Step s (.commit (.instant t) (Maintenance.scheduleDueRetries.op limit draws)) u)
    (hRow : (s.db.dossier id).row = some row) :
    Maintenance.scheduleDueRetries.Serves s.issued t (s.db.dossier id) (u.db.dossier id) := by
  rw [hs.schedule_dossier hEnough hStep hRow]
  by_cases hPast : row.pastDeadline (.instant t) = true
  · obtain ⟨hPending, hDeadline⟩ : row.status = .pending ∧ row.retryDeadline ≤ t :=
      DeliveryRow.pastDeadline_iff.mp hPast
    have hSignalled : ¬row.unsignalled (.instant t) s.db = true := fun h =>
      absurd (DeliveryRow.unsignalled_iff.mp h).2.2.2.1 (not_lt.mpr hDeadline)
    obtain ⟨new, hNew⟩ := s.exists_not_issued
    refine .inl ⟨.expire hRow hPending hDeadline, new, new, new, hNew, hNew, hNew, ?_⟩
    rw [Dossier.settle_expire hRow hPending hDeadline, if_pos hPast, if_neg hSignalled, List.map_nil, List.append_nil]
  · rw [if_neg hPast]
    by_cases hUnsignalled : row.unsignalled (.instant t) s.db = true
    · obtain ⟨hPending, hRetry, hNext, hDeadline, hMissing⟩ := (hs.unsignalled_iff hRow).mp hUnsignalled
      have hIn : row ∈ dueDeliveries (.instant t) limit (fun _ => false) s.db :=
        (mem_batch_unlocked hEnough (hs.integrity.dossier_row_iff.mp hRow).1).mpr hUnsignalled
      have hEvent := (hStep.drawn (List.mem_append_left _ (List.mem_map.mpr ⟨row, hIn, rfl⟩))).1
      have hTrace := (hStep.drawn (List.mem_append_right _ (List.mem_map.mpr ⟨row, hIn, rfl⟩))).1
      refine .inl ⟨.schedule hRow hPending hRetry hNext hDeadline hMissing, _, _, _, hEvent, hEvent, hTrace, ?_⟩
      rw [Dossier.settle_schedule hRow hPending hDeadline hMissing, if_pos hUnsignalled, List.map_singleton, hRow]
    · refine .inr ⟨fun hDue => ?_, ?_⟩
      · cases hDue with
        | expire hSame hPending hDeadline =>
          cases hRow.symm.trans hSame
          exact hPast (DeliveryRow.pastDeadline_iff.mpr ⟨hPending, hDeadline⟩)
        | schedule hSame hPending hRetry hNext hDeadline hMissing =>
          cases hRow.symm.trans hSame
          exact hUnsignalled ((hs.unsignalled_iff hRow).mpr ⟨hPending, hRetry, hNext, hDeadline, hMissing⟩)
      · rw [if_neg hUnsignalled, List.map_nil, List.append_nil, ← hRow]

theorem Reachable.recover_serves (hs : s.Reachable)
    (hEnough : (Maintenance.recoverExpiredDeliveries.qualifying t s.db : Int) ≤ limit)
    (hStep : Step s (.commit (.instant t) (Maintenance.recoverExpiredDeliveries.op limit draws)) u)
    (hRow : (s.db.dossier id).row = some row) :
    Maintenance.recoverExpiredDeliveries.Serves s.issued t (s.db.dossier id) (u.db.dossier id) := by
  rw [hs.recover_dossier hEnough hStep hRow]
  by_cases hExpired : row.leaseExpired (.instant t) = true
  · have hIn : row ∈ expiredDeliveries (.instant t) limit (fun _ => false) s.db :=
      (mem_batch_unlocked hEnough (hs.integrity.dossier_row_iff.mp hRow).1).mpr hExpired
    have hAttempt := (hStep.drawn (List.mem_append_left _ (List.mem_map.mpr ⟨row, hIn, rfl⟩))).1
    have hEvent := (hStep.drawn
      (List.mem_append_right _ (List.mem_append_left _ (List.mem_map.mpr ⟨row, hIn, rfl⟩)))).1
    have hTrace := (hStep.drawn
      (List.mem_append_right _ (List.mem_append_right _ (List.mem_map.mpr ⟨row, hIn, rfl⟩)))).1
    refine .inl ⟨.recover hRow hExpired, _, _, _, hAttempt, hEvent, hTrace, ?_⟩
    rw [Dossier.settle_recover hRow (DeliveryRow.leaseExpired_iff.mp hExpired).1]
    by_cases hDeadline : t < row.retryDeadline
    · simp only [hExpired, hDeadline, if_true, List.map_singleton, List.filter_singleton, decide_true]
      rfl
    · simp only [hExpired, hDeadline, if_true, if_false, List.map_singleton, List.filter_singleton, decide_false]
      rfl
  · refine .inr ⟨fun hDue => ?_, ?_⟩
    · cases hDue with
      | recover hSame hDue =>
        cases hRow.symm.trans hSame
        exact hExpired hDue
    · simp only [if_neg hExpired, List.filter_nil, List.map_nil, List.append_nil, ← hRow]

theorem Reachable.reconcile_serves {watchdog : Duration} (hs : s.Reachable)
    (hEnough : ((Maintenance.reconcileStalledSignals watchdog).qualifying t s.db : Int) ≤ limit)
    (hStep : Step s (.commit (.instant t) ((Maintenance.reconcileStalledSignals watchdog).op limit draws)) u)
    (hRow : (s.db.dossier id).row = some row) :
    (Maintenance.reconcileStalledSignals watchdog).Serves s.issued t (s.db.dossier id) (u.db.dossier id) := by
  rw [hs.reconcile_dossier hEnough hStep]
  by_cases hStalled : ∃ event ∈ (s.db.dossier id).events, event.stalled (.instant t) watchdog s.db = true
  · obtain ⟨event, hEvent, hStalled⟩ := hStalled
    obtain ⟨hGeneration, hPending, hNext, hDeadline, hOverdue⟩ := (hs.stalled_iff hRow hEvent).mp hStalled
    obtain ⟨hMem, hOwner⟩ := (mem_owned _).mp hEvent
    have hIn : event ∈ stalledEvents (.instant t) watchdog limit (fun _ => false) s.db :=
      (mem_batch_unlocked hEnough hMem).mpr hStalled
    have hTrace := (hStep.drawn (List.mem_map.mpr ⟨event, hIn, rfl⟩)).1
    refine .inl ⟨.reconcile hRow hPending hNext hDeadline hEvent hGeneration.symm hOverdue, _, _, _, hTrace, hTrace,
      hTrace, ?_⟩
    rw [Dossier.settle_reconcile hRow hPending hDeadline hEvent hGeneration.symm]
    refine congrArg (fun events => { s.db.dossier id with events }) (List.map_congr_left fun other hOther => ?_)
    by_cases hSame : other.generation = row.generation
    · obtain ⟨hOther, hOwner'⟩ := (mem_owned _).mp hOther
      have hOnly : other = event := List.inj_on_of_nodup_map hs.integrity.eventSlots hOther hMem
        (Prod.ext (hOwner'.trans hOwner.symm) (hSame.trans hGeneration))
      simp only [hOnly, hStalled, hGeneration, if_true, decide_true]
    · have hOut : ¬other.stalled (.instant t) watchdog s.db = true := fun h =>
        hSame ((hs.stalled_iff hRow hOther).mp h).1.symm
      simp only [hOut, hSame, if_false, decide_false, Bool.false_eq_true]
  · refine .inr ⟨fun hDue => ?_, ?_⟩
    · cases hDue with
      | reconcile hSame hPending hNext hDeadline hEvent hGeneration hOverdue =>
        cases hRow.symm.trans hSame
        exact hStalled ⟨_, hEvent, (hs.stalled_iff hRow hEvent).mpr
          ⟨hGeneration.symm, hPending, hNext, hDeadline, hOverdue⟩⟩
    · rw [updateWhere_of_forall_not fun event hEvent h => hStalled ⟨event, hEvent, h⟩]

theorem Reachable.delete_serves {successRetention failureRetention : Duration} (hs : s.Reachable)
    (hEnough : ((Maintenance.deleteExpiredTerminal successRetention failureRetention).qualifying t s.db : Int) ≤ limit)
    (hStep : Step s (.commit (.instant t)
      ((Maintenance.deleteExpiredTerminal successRetention failureRetention).op limit draws)) u)
    (hRow : (s.db.dossier id).row = some row) :
    (Maintenance.deleteExpiredTerminal successRetention failureRetention).Serves s.issued t (s.db.dossier id)
      (u.db.dossier id) := by
  rw [hs.delete_dossier hEnough hStep hRow]
  by_cases hRetained : row.retained (.instant t) successRetention failureRetention = true
  · refine .inr ⟨fun hDue => ?_, if_pos hRetained⟩
    cases hDue with
    | delete hSame hExpired =>
      cases hRow.symm.trans hSame
      cases hRetained.symm.trans hExpired
  · have hExpired := Bool.eq_false_iff.mpr hRetained
    obtain ⟨new, hNew⟩ := s.exists_not_issued
    refine .inl ⟨.delete hRow hExpired, new, new, new, hNew, hNew, hNew, ?_⟩
    rw [if_neg hRetained, Dossier.settle_delete hRow (DeliveryRow.terminal_of_not_retained hExpired)]

theorem Reachable.serves {call : Maintenance} (hs : s.Reachable) (hEnough : (call.qualifying t s.db : Int) ≤ limit)
    (hStep : Step s (.commit (.instant t) (call.op limit draws)) u) (id : UUID) :
    call.Serves s.issued t (s.db.dossier id) (u.db.dossier id) := by
  rcases hRow : (s.db.dossier id).row with _ | row
  · refine .inr ⟨fun hDue => ?_, ?_⟩
    · obtain ⟨row, hSome⟩ := hDue.exists_row
      cases hRow.symm.trans hSome
    · rcases Database.dossier_moves hs.integrity hStep.applied.1 id with hSame | hMove
      · exact hSame
      · obtain ⟨row, hSome⟩ := hMove.exists_row (by cases call <;> rfl)
        cases hRow.symm.trans hSome
  · cases call with
    | scheduleDueRetries => exact hs.schedule_serves hEnough hStep hRow
    | recoverExpiredDeliveries => exact hs.recover_serves hEnough hStep hRow
    | reconcileStalledSignals => exact hs.reconcile_serves hEnough hStep hRow
    | deleteExpiredTerminal => exact hs.delete_serves hEnough hStep hRow

/-- Calls that run one after the other at `t`, each with room for all the rows it finds. -/
inductive Maintains (t : Time) : List Maintenance → Store → Store → Prop
  | nil (s : Store) : Maintains t [] s s
  | cons {call : Maintenance} {rest : List Maintenance} {limit : Int} {draws : Draws} {s u v : Store}
      (hEnough : (call.qualifying t s.db : Int) ≤ limit)
      (hStep : Step s (.commit (.instant t) (call.op limit draws)) u) (hRest : Maintains t rest u v) :
      Maintains t (call :: rest) s v

variable {calls : List Maintenance}

/-- A dossier is repaired once if one of the calls is due, and is left alone otherwise. -/
theorem Maintains.served (h : Maintains t calls s u) (hs : s.Reachable)
    (hSpares : ∀ a ∈ calls, ∀ b ∈ calls, a.Spares b) (id : UUID) :
    (∃ call ∈ calls, call.Due t (s.db.dossier id)) ∧ (s.db.dossier id).Settled s.issued t (u.db.dossier id) ∨
      (∀ call ∈ calls, ¬call.Due t (s.db.dossier id)) ∧ u.db.dossier id = s.db.dossier id := by
  induction h with
  | nil s => exact .inr ⟨List.forall_mem_nil _, rfl⟩
  | @cons call rest _ _ s u v hEnough hStep _ ih =>
    have hLater := ih (hs.step hStep) fun a ha b hb =>
      hSpares a (List.mem_cons_of_mem _ ha) b (List.mem_cons_of_mem _ hb)
    rcases hs.serves hEnough hStep id with ⟨hDue, hSettled⟩ | ⟨hIdle, hSame⟩
    · refine .inl ⟨⟨call, List.mem_cons_self, hDue⟩, ?_⟩
      have hDone (other : Maintenance) (hOther : other ∈ rest) : ¬other.Due t (u.db.dossier id) := by
        obtain ⟨attemptID, eventID, traceID, _, _, _, hRepaired⟩ := hSettled
        rw [hRepaired]
        exact hDue.settled (hSpares call List.mem_cons_self other (List.mem_cons_of_mem _ hOther))
          (hs.paced id).bounded
      rcases hLater with ⟨⟨other, hOther, hAgain⟩, _⟩ | ⟨_, hSame⟩
      · exact absurd hAgain (hDone other hOther)
      · rw [hSame]
        exact hSettled
    · rw [hSame] at hLater
      rcases hLater with ⟨⟨other, hOther, hDue⟩, attemptID, eventID, traceID, hAttempt, hEvent, hTrace, hRepaired⟩ |
        ⟨hNone, hKept⟩
      · have hOld {x : UUID} (hx : x ∉ u.issued) : x ∉ s.issued := fun h => hx (hStep.issued_subset h)
        exact .inl ⟨⟨other, List.mem_cons_of_mem _ hOther, hDue⟩, attemptID, eventID, traceID, hOld hAttempt,
          hOld hEvent, hOld hTrace, hRepaired⟩
      · exact .inr ⟨List.forall_mem_cons.mpr ⟨hIdle, hNone⟩, hKept⟩

end Store

end ReliableNotifier
