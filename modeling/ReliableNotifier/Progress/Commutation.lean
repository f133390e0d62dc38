import ReliableNotifier.Progress.Convergence

/-! # The order of maintenance calls

Two runs of the same maintenance calls at one instant end in the same tables, apart from
the order of their rows and the identifiers drawn on the way. Retention is the one call
with a condition: a `failureRetention` below a millisecond is rounded down to nothing.
-/

namespace ReliableNotifier

open Checked RowTable

/-- Equal, or both drawn when `issued` were drawn already. -/
def SameID (issued : List UUID) (a b : UUID) : Prop := a = b ∨ a ∉ issued ∧ b ∉ issued

def OutboxEventRow.Alike (issued : List UUID) (a b : OutboxEventRow) : Prop :=
  SameID issued a.id b.id ∧ SameID issued a.traceID b.traceID ∧ { a with id := b.id, traceID := b.traceID } = b

def AttemptRow.Alike (issued : List UUID) (a b : AttemptRow) : Prop :=
  SameID issued a.id b.id ∧ { a with id := b.id } = b

structure Dossier.Alike (issued : List UUID) (a b : Dossier) : Prop where
  row : a.row = b.row
  events : List.Forall₂ (OutboxEventRow.Alike issued) a.events b.events
  attempts : List.Forall₂ (AttemptRow.Alike issued) a.attempts b.attempts
  audits : a.audits = b.audits

/-- The same rows in some order, with the same identifiers up to those drawn after `issued`. -/
structure Database.Alike (issued : List UUID) (a b : Database) : Prop where
  registry : a.registry = b.registry
  deliveries : a.deliveries.Perm b.deliveries
  events : ∃ arranged, arranged.Perm b.outboxEvents ∧
    List.Forall₂ (OutboxEventRow.Alike issued) a.outboxEvents arranged
  attempts : ∃ arranged, arranged.Perm b.deliveryAttempts ∧
    List.Forall₂ (AttemptRow.Alike issued) a.deliveryAttempts arranged
  audits : a.replayAudits.Perm b.replayAudits

section Alike

variable {issued : List UUID} {t : Time} {d : Dossier} {a b : Database}

theorem OutboxEventRow.alike_self (event : OutboxEventRow) : event.Alike issued event :=
  ⟨.inl rfl, .inl rfl, rfl⟩

theorem Dossier.alike_self (d : Dossier) : d.Alike issued d :=
  ⟨rfl, List.forall₂_same.mpr fun event _ => event.alike_self, List.forall₂_same.mpr fun _ _ => ⟨.inl rfl, rfl⟩, rfl⟩

/-- Repairs of one dossier differ in the identifiers they draw and in nothing else. -/
theorem Dossier.Settled.alike {d' d'' : Dossier} (h' : d.Settled issued t d') (h'' : d.Settled issued t d'') :
    d'.Alike issued d'' := by
  obtain ⟨attemptID, eventID, traceID, hAttempt, hEvent, hTrace, rfl⟩ := h'
  obtain ⟨attemptID', eventID', traceID', hAttempt', hEvent', hTrace', rfl⟩ := h''
  have hEvents : List.Forall₂ (OutboxEventRow.Alike issued) d.events d.events := d.alike_self.events
  unfold settle
  split
  · exact d.alike_self
  · rename_i row _
    split
    · split
      · exact ⟨rfl, hEvents, d.alike_self.attempts, rfl⟩
      · split
        · exact ⟨rfl, List.rel_append hEvents (.cons ⟨.inr ⟨hEvent, hEvent'⟩, .inr ⟨hTrace, hTrace'⟩, rfl⟩ .nil),
            d.alike_self.attempts, rfl⟩
        · refine ⟨rfl, ?_, d.alike_self.attempts, rfl⟩
          rw [updateWhere, updateWhere, List.forall₂_map_left_iff, List.forall₂_map_right_iff, List.forall₂_same]
          intro event _
          split
          · exact ⟨.inl rfl, .inr ⟨hTrace, hTrace'⟩, rfl⟩
          · exact event.alike_self
    · refine ⟨rfl, List.rel_append hEvents ?_,
        List.rel_append d.alike_self.attempts (.cons ⟨.inr ⟨hAttempt, hAttempt'⟩, rfl⟩ .nil), rfl⟩
      split
      · exact .cons ⟨.inr ⟨hEvent, hEvent'⟩, .inr ⟨hTrace, hTrace'⟩, rfl⟩ .nil
      · exact .nil
    · exact alike_self _
    · exact alike_self _

theorem Database.alike_of_dossiers (ha : Integrity a) (hb : Integrity b) (hRegistry : a.registry = b.registry)
    (h : ∀ id, (a.dossier id).Alike issued (b.dossier id)) : a.Alike issued b where
  registry := hRegistry
  deliveries := perm_of_owned DeliveryRow.id fun id => by
    rw [owned_eq_toList DeliveryRow.id ha.deliveryIDs, owned_eq_toList DeliveryRow.id hb.deliveryIDs]
    exact congrArg Option.toList (h id).row
  events := exists_perm_of_owned OutboxEventRow.deliveryID fun id => (h id).events
  attempts := exists_perm_of_owned AttemptRow.deliveryID fun id => (h id).attempts
  audits := perm_of_owned ReplayAuditRow.deliveryID fun id => (h id).audits

end Alike

namespace Store

variable {s u v : Store} {t : Time} {limit : Int} {draws : Draws} {call : Maintenance} {calls calls' : List Maintenance}

theorem Reachable.registry_eq (hs : s.Reachable) (hStep : Step s (.commit (.instant t) (call.op limit draws)) u) :
    u.db.registry = s.db.registry := by
  obtain ⟨hApply, hClock, _⟩ := hStep.applied
  have hDb {db : Database} (h : (call.op limit draws).apply (.instant t) s.db = .ok db) : u.db = db :=
    Except.ok.inj (hApply.symm.trans h)
  cases call with
  | scheduleDueRetries =>
    obtain ⟨_, hOk, _⟩ := bind_ok_iff.mp hApply
    rw [hDb (hs.schedule_eq (of_decide_eq_true (ensure_ok_iff.mp hOk)) hStep.fresh)]
    rfl
  | recoverExpiredDeliveries =>
    obtain ⟨_, hOk, _⟩ := bind_ok_iff.mp hApply
    rw [hDb (hs.recover_eq hClock (of_decide_eq_true (ensure_ok_iff.mp hOk)) hStep.fresh)]
    rfl
  | reconcileStalledSignals watchdog =>
    rw [(Database.updateEvents_ok (reconcileStalledSignals_ok hApply)).2]
    rfl
  | deleteExpiredTerminal =>
    obtain ⟨⟨deleted, final⟩, hDelete, rfl⟩ := map_ok_iff.mp hApply
    rw [deleteExpiredTerminal_ok hDelete]
    rfl

theorem Maintains.kept (h : Maintains t calls s u) (hs : s.Reachable) :
    u.Reachable ∧ u.db.registry = s.db.registry := by
  induction h with
  | nil s => exact ⟨hs, rfl⟩
  | cons _ hStep _ ih =>
    obtain ⟨hReachable, hRegistry⟩ := ih (hs.step hStep)
    exact ⟨hReachable, hRegistry.trans (hs.registry_eq hStep)⟩

theorem Reachable.maintain_step (hs : s.Reachable) (hClock : s.now ≤ t) (hProper : call.Proper) (hLimit : 0 < limit) :
    ∃ draws u, Step s (.commit (.instant t) (call.op limit draws)) u := by
  cases call with
  | scheduleDueRetries =>
    obtain ⟨eventIDs, traceIDs, u, hStep⟩ := hs.schedule_step hClock hLimit
    exact ⟨⟨eventIDs, eventIDs, traceIDs⟩, u, hStep⟩
  | recoverExpiredDeliveries =>
    obtain ⟨attemptIDs, eventIDs, traceIDs, u, hStep⟩ := hs.recover_step hClock hLimit
    exact ⟨⟨attemptIDs, eventIDs, traceIDs⟩, u, hStep⟩
  | reconcileStalledSignals watchdog =>
    obtain ⟨traceIDs, u, hStep⟩ := hs.reconcile_step hClock hProper hLimit
    exact ⟨⟨traceIDs, traceIDs, traceIDs⟩, u, hStep⟩
  | deleteExpiredTerminal successRetention failureRetention =>
    refine ⟨⟨id, id, id⟩, _, .commit hClock trivial ⟨List.nodup_nil, List.forall_mem_nil _⟩
      (map_ok_iff.mpr ⟨_, bind_ok_iff.mpr ⟨(), ?_, rfl⟩, rfl⟩)⟩
    simp [ensure_ok_iff, hProper.1, hProper.2, hLimit]

theorem Reachable.maintains (hs : s.Reachable) (hClock : s.now ≤ t) (hProper : ∀ call ∈ calls, call.Proper) :
    ∃ u, Maintains t calls s u := by
  induction calls generalizing s with
  | nil => exact ⟨s, .nil s⟩
  | cons call rest ih =>
    obtain ⟨hFirst, hOthers⟩ := List.forall_mem_cons.mp hProper
    have hEnough : (call.qualifying t s.db : Int) ≤ call.qualifying t s.db + 1 := by omega
    have hLimit : (0 : Int) < call.qualifying t s.db + 1 := by omega
    obtain ⟨draws, u, hStep⟩ := hs.maintain_step hClock hFirst hLimit
    obtain ⟨v, hRest⟩ := ih (hs.step hStep) hStep.applied.2.2.le hOthers
    exact ⟨v, .cons hEnough hStep hRest⟩

theorem Maintains.alike (hs : s.Reachable) (hSpares : ∀ a ∈ calls, ∀ b ∈ calls, a.Spares b)
    (hSame : ∀ call, call ∈ calls ↔ call ∈ calls') (hu : Maintains t calls s u) (hv : Maintains t calls' s v) :
    u.db.Alike s.issued v.db := by
  obtain ⟨huReachable, huRegistry⟩ := hu.kept hs
  obtain ⟨hvReachable, hvRegistry⟩ := hv.kept hs
  have hSpares' : ∀ a ∈ calls', ∀ b ∈ calls', a.Spares b := fun a ha b hb =>
    hSpares a ((hSame a).mpr ha) b ((hSame b).mpr hb)
  refine Database.alike_of_dossiers huReachable.integrity hvReachable.integrity (huRegistry.trans hvRegistry.symm)
    fun id => ?_
  rcases hu.served hs hSpares id with ⟨⟨call, hCall, hDue⟩, hSettled⟩ | ⟨hIdle, hKept⟩
  · rcases hv.served hs hSpares' id with ⟨_, hSettled'⟩ | ⟨hIdle, _⟩
    · exact hSettled.alike hSettled'
    · exact absurd hDue (hIdle call ((hSame call).mp hCall))
  · rcases hv.served hs hSpares' id with ⟨⟨call, hCall, hDue⟩, _⟩ | ⟨_, hKept'⟩
    · exact absurd hDue (hIdle call ((hSame call).mpr hCall))
    · rw [hKept, hKept']
      exact Dossier.alike_self _

/-- What a due call leaves is the repaired dossier. -/
theorem Maintains.settled (h : Maintains t calls s u) (hs : s.Reachable)
    (hSpares : ∀ a ∈ calls, ∀ b ∈ calls, a.Spares b) (hCall : call ∈ calls) {id : UUID}
    (hDue : call.Due t (s.db.dossier id)) : (s.db.dossier id).Settled s.issued t (u.db.dossier id) := by
  rcases h.served hs hSpares id with ⟨_, hSettled⟩ | ⟨hIdle, _⟩
  · exact hSettled
  · exact absurd hDue (hIdle call hCall)

/-- A call that has run finds nothing left to do at the same instant. -/
theorem Maintains.done (h : Maintains t calls s u) (hs : s.Reachable)
    (hSpares : ∀ a ∈ calls, ∀ b ∈ calls, a.Spares b) (hCall : call ∈ calls) (id : UUID) :
    ¬call.Due t (u.db.dossier id) := by
  rcases h.served hs hSpares id with ⟨⟨first, hFirst, hDue⟩, _, _, _, _, _, _, hSettled⟩ | ⟨hIdle, hKept⟩
  · rw [hSettled]
    exact hDue.settled (hSpares first hFirst call hCall) (hs.paced id).bounded
  · rw [hKept]
    exact hIdle call hCall

theorem Maintains.repeated (h : Maintains t calls s u) (hs : s.Reachable)
    (hSpares : ∀ a ∈ calls, ∀ b ∈ calls, a.Spares b) (hCall : call ∈ calls) (hAgain : Maintains t [call] u v)
    (id : UUID) : v.db.dossier id = u.db.dossier id := by
  have hSingle : ∀ a ∈ [call], ∀ b ∈ [call], a.Spares b := by
    simpa using hSpares call hCall call hCall
  rcases hAgain.served (h.kept hs).1 hSingle id with ⟨⟨other, hOther, hDue⟩, _⟩ | ⟨_, hKept⟩
  · rw [List.mem_singleton.mp hOther] at hDue
    exact absurd hDue (h.done hs hSpares hCall id)
  · exact hKept

theorem countP_slot {db : Database} {id : UUID} {event : OutboxEventRow} (hDb : Integrity db)
    (hEvent : event ∈ (db.dossier id).events) :
    (db.outboxEvents.countP fun other => other.deliveryID = id && other.generation = event.generation) = 1 := by
  obtain ⟨hMem, hOwner⟩ := (mem_owned _).mp hEvent
  refine countP_eq_one hDb.eventSlots hMem (by simp [hOwner]) fun other _ hOther => ?_
  simp only [Bool.and_eq_true, decide_eq_true_eq] at hOther
  exact Prod.ext (hOther.1.trans hOwner.symm) hOther.2

theorem Maintains.scheduled_once {row : DeliveryRow} (h : Maintains t calls s u) (hs : s.Reachable)
    (hSpares : ∀ a ∈ calls, ∀ b ∈ calls, a.Spares b) (hCall : .scheduleDueRetries ∈ calls)
    (hRow : row ∈ s.db.deliveries) (hDue : row.unsignalled (.instant t) s.db = true) :
    row ∈ u.db.deliveries ∧ (u.db.outboxEvents.countP fun event =>
      event.deliveryID = row.id && event.generation = row.generation) = 1 := by
  have hDb := (h.kept hs).1.integrity
  have hSome := hs.integrity.dossier_row_iff.mpr ⟨hRow, rfl⟩
  obtain ⟨hPending, hRetry, hNext, hDeadline, hMissing⟩ := (hs.unsignalled_iff hSome).mp hDue
  obtain ⟨_, eventID, traceID, _, _, _, hSettled⟩ :=
    h.settled hs hSpares hCall (.schedule hSome hPending hRetry hNext hDeadline hMissing)
  rw [Dossier.settle_schedule hSome hPending hDeadline hMissing] at hSettled
  have hEvent : row.signal (.instant t) eventID traceID row.nextAttemptAt ∈ (u.db.dossier row.id).events := by
    rw [hSettled]
    exact List.mem_append_right _ (List.mem_singleton_self _)
  have hKept : (u.db.dossier row.id).row = some row := by
    rw [hSettled]
    exact hSome
  exact ⟨(hDb.dossier_row_iff.mp hKept).1, countP_slot hDb hEvent⟩

theorem Maintains.recovered_once {row : DeliveryRow} (h : Maintains t calls s u) (hs : s.Reachable)
    (hSpares : ∀ a ∈ calls, ∀ b ∈ calls, a.Spares b) (hCall : .recoverExpiredDeliveries ∈ calls)
    (hRow : row ∈ s.db.deliveries) (hExpired : row.leaseExpired (.instant t) = true) :
    row.recover (.instant t) ∈ u.db.deliveries ∧
      (∃ attemptID, attemptID ∉ s.issued ∧ (u.db.dossier row.id).attempts =
        (s.db.dossier row.id).attempts ++ [row.recoveryAttempt (.instant t) attemptID]) ∧
      (t < row.retryDeadline → (u.db.outboxEvents.countP fun event =>
        event.deliveryID = row.id && event.generation = row.generation + 1) = 1) := by
  have hDb := (h.kept hs).1.integrity
  have hSome := hs.integrity.dossier_row_iff.mpr ⟨hRow, rfl⟩
  obtain ⟨attemptID, eventID, traceID, hAttempt, _, _, hSettled⟩ :=
    h.settled hs hSpares hCall (.recover hSome hExpired)
  rw [Dossier.settle_recover hSome (DeliveryRow.leaseExpired_iff.mp hExpired).1] at hSettled
  refine ⟨(hDb.dossier_row_iff.mp (congrArg Dossier.row hSettled)).1,
    ⟨attemptID, hAttempt, congrArg Dossier.attempts hSettled⟩, fun hDeadline => ?_⟩
  have hEvent : row.repair (.instant t) (fun _ => eventID) (fun _ => traceID) ∈ (u.db.dossier row.id).events := by
    rw [hSettled, if_pos hDeadline]
    exact List.mem_append_right _ (List.mem_singleton_self _)
  have hNext : (row.repair (.instant t) (fun _ => eventID) fun _ => traceID).generation = row.generation + 1 :=
    if_neg (not_le.mpr hDeadline)
  rw [← hNext]
  exact countP_slot hDb hEvent

/-- Maintenance calls at one instant, in any order and any number: they can be made, they lead to one state, a call
made again changes no row, every due generation without an event gets one, and every expired lease is recovered once.
Only a retention that rounds to nothing has to be kept apart from what fails deliveries. -/
theorem maintenance_commutes (hs : s.Reachable) (hClock : s.now ≤ t) :
    (∀ calls : List Maintenance, (∀ call ∈ calls, call.Proper) → ∃ u, Maintains t calls s u) ∧
    (∀ (calls calls' : List Maintenance) (u v : Store), (∀ a ∈ calls, ∀ b ∈ calls, a.Spares b) →
      (∀ call, call ∈ calls ↔ call ∈ calls') → Maintains t calls s u → Maintains t calls' s v →
      u.db.Alike s.issued v.db) ∧
    (∀ (calls : List Maintenance) (call : Maintenance) (u v : Store), (∀ a ∈ calls, ∀ b ∈ calls, a.Spares b) →
      call ∈ calls → Maintains t calls s u → Maintains t [call] u v → ∀ id, v.db.dossier id = u.db.dossier id) ∧
    ∀ (calls : List Maintenance) (u : Store), (∀ a ∈ calls, ∀ b ∈ calls, a.Spares b) → Maintains t calls s u →
      (.scheduleDueRetries ∈ calls → ∀ row ∈ s.db.deliveries, row.unsignalled (.instant t) s.db = true →
        row ∈ u.db.deliveries ∧ (u.db.outboxEvents.countP fun event =>
          event.deliveryID = row.id && event.generation = row.generation) = 1) ∧
      (.recoverExpiredDeliveries ∈ calls → ∀ row ∈ s.db.deliveries, row.leaseExpired (.instant t) = true →
        row.recover (.instant t) ∈ u.db.deliveries ∧
        (∃ attemptID, attemptID ∉ s.issued ∧ (u.db.dossier row.id).attempts =
          (s.db.dossier row.id).attempts ++ [row.recoveryAttempt (.instant t) attemptID]) ∧
        (t < row.retryDeadline → (u.db.outboxEvents.countP fun event =>
          event.deliveryID = row.id && event.generation = row.generation + 1) = 1)) := by
  refine ⟨fun calls hProper => hs.maintains hClock hProper, ?_, ?_, ?_⟩
  · intro calls calls' u v hSpares hSame hu hv
    exact Maintains.alike hs hSpares hSame hu hv
  · intro calls call u v hSpares hCall h hAgain
    exact h.repeated hs hSpares hCall hAgain
  · intro calls u hSpares h
    exact ⟨fun hCall row hRow hDue => h.scheduled_once hs hSpares hCall hRow hDue,
      fun hCall row hRow hExpired => h.recovered_once hs hSpares hCall hRow hExpired⟩

theorem maintenance_commutes_expired :
    ∃ s u v : Store, s.Reachable ∧ s.now ≤ 100000000 ∧
      Maintains 100000000 [.recoverExpiredDeliveries, .scheduleDueRetries, .recoverExpiredDeliveries] s u ∧
      Maintains 100000000 [.scheduleDueRetries, .recoverExpiredDeliveries] s v ∧ u.db.Alike s.issued v.db ∧
      ∃ row ∈ s.db.deliveries, row.leaseExpired (.instant 100000000) = true ∧ (u.db.outboxEvents.countP fun event =>
        event.deliveryID = row.id && event.generation = row.generation + 1) = 1 := by
  have hRun : ((start 0).play (Sample.accepted ++ [(8, .claimDelivery 100 0 "worker" 90000000000 104)])).any
      (fun s => s.now ≤ 100000000 && s.db.deliveries.any fun row =>
        row.leaseExpired (.instant 100000000) && 100000000 < row.retryDeadline) = true := by
    decide +kernel
  obtain ⟨s, hPlay, hState⟩ := (Option.any_eq_true _ _).mp hRun
  obtain ⟨hNow, hRows⟩ := Bool.and_eq_true_iff.mp hState
  obtain ⟨row, hRow, hBoth⟩ := List.any_eq_true.mp hRows
  obtain ⟨hExpired, hDeadline⟩ := Bool.and_eq_true_iff.mp hBoth
  have hs := reachable_of_play hPlay
  obtain ⟨hRuns, hAlike, _, hOnce⟩ := @maintenance_commutes s 100000000 hs (of_decide_eq_true hNow)
  have hSpares : ∀ a ∈ [.recoverExpiredDeliveries, .scheduleDueRetries, .recoverExpiredDeliveries],
      ∀ b ∈ [.recoverExpiredDeliveries, .scheduleDueRetries, .recoverExpiredDeliveries],
        Maintenance.Spares a b := by
    simp [Maintenance.Spares]
  obtain ⟨u, hu⟩ := hRuns [.recoverExpiredDeliveries, .scheduleDueRetries, .recoverExpiredDeliveries]
    (by simp [Maintenance.Proper])
  obtain ⟨v, hv⟩ := hRuns [.scheduleDueRetries, .recoverExpiredDeliveries] (by simp [Maintenance.Proper])
  have hSame (call : Maintenance) :
      call ∈ [.recoverExpiredDeliveries, .scheduleDueRetries, .recoverExpiredDeliveries] ↔
        call ∈ [.scheduleDueRetries, .recoverExpiredDeliveries] := by
    simp only [List.mem_cons, List.not_mem_nil, or_false]
    tauto
  exact ⟨s, u, v, hs, of_decide_eq_true hNow, hu, hv, hAlike _ _ u v hSpares hSame hu hv, row, hRow, hExpired,
    ((hOnce _ u hSpares hu).2 List.mem_cons_self row hRow hExpired).2.2 (of_decide_eq_true hDeadline)⟩

/-- Two calls, computed, with no identifiers to draw. -/
def maintainTwice (s : Store) (t : Time) (first second : Maintenance) : Option Store :=
  if (first.qualifying t s.db : Int) ≤ 1 then
    (s.perform t (first.op 1 ⟨id, id, id⟩)).bind fun u =>
      if (second.qualifying t u.db : Int) ≤ 1 then u.perform t (second.op 1 ⟨id, id, id⟩) else none
  else none

theorem maintains_of_maintainTwice {first second : Maintenance} (h : s.maintainTwice t first second = some u) :
    Maintains t [first, second] s u := by
  unfold maintainTwice at h
  split at h
  · rename_i hFirst
    obtain ⟨next, hPerform, h⟩ := Option.bind_eq_some_iff.mp h
    split at h
    · rename_i hSecond
      exact .cons hFirst (step_of_perform hPerform) (.cons hSecond (step_of_perform h) (.nil u))
    · cases h
  · cases h

/-- A `failureRetention` of a nanosecond counts as zero milliseconds: a delivery that has just failed is deleted. -/
theorem short_retention_deletes_failed :
    ∃ s u v : Store, s.Reachable ∧ s.now ≤ 86400000005 ∧
      Maintains 86400000005 [.scheduleDueRetries, .deleteExpiredTerminal 1 1] s u ∧
      Maintains 86400000005 [.deleteExpiredTerminal 1 1, .scheduleDueRetries] s v ∧ ¬u.db.Alike s.issued v.db := by
  have hRun : ((start 0).play Sample.accepted).any (fun s => s.now ≤ 86400000005 &&
      ((s.maintainTwice 86400000005 .scheduleDueRetries (.deleteExpiredTerminal 1 1)).any
        (·.db.deliveries.length = 0) &&
      (s.maintainTwice 86400000005 (.deleteExpiredTerminal 1 1) .scheduleDueRetries).any
        (·.db.deliveries.length = 1))) = true := by
    decide +kernel
  obtain ⟨s, hPlay, hState⟩ := (Option.any_eq_true _ _).mp hRun
  obtain ⟨hNow, hState⟩ := Bool.and_eq_true_iff.mp hState
  obtain ⟨hFirst, hSecond⟩ := Bool.and_eq_true_iff.mp hState
  obtain ⟨u, hu, hEmpty⟩ := (Option.any_eq_true _ _).mp hFirst
  obtain ⟨v, hv, hOne⟩ := (Option.any_eq_true _ _).mp hSecond
  refine ⟨s, u, v, reachable_of_play hPlay, of_decide_eq_true hNow, maintains_of_maintainTwice hu,
    maintains_of_maintainTwice hv, fun hAlike => ?_⟩
  have hLength := hAlike.deliveries.length_eq
  rw [of_decide_eq_true hEmpty, of_decide_eq_true hOne] at hLength
  cases hLength

end Store

end ReliableNotifier
