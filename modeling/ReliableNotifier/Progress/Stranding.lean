import ReliableNotifier.Progress.Phases

/-! # No delivery is stranded

Whatever happened before, waiting and repairing either gets a usable signal for a live
delivery into the broker or finds that its retry deadline has passed.
-/

namespace ReliableNotifier

open Checked RowTable LabelledRun

/-- The limits the service is started with. -/
def Tuning.deployed : Tuning where
  owner := "publisher"
  leaseDuration := 30000000000
  watchdog := 60000000000
  claimLimit := 100
  recoverLimit := 100
  scheduleLimit := 100
  reconcileLimit := 100
  owner_ne := by decide
  lease_ge := by decide
  watchdog_pos := by decide
  claim_pos := by decide
  recover_pos := by decide
  schedule_pos := by decide
  reconcile_pos := by decide

namespace Store

variable {tuning : Tuning} {first s t : Store} {history : List (List Signal)} {T : Time} {id : UUID}
  {row : DeliveryRow}

/-- By `T` nothing that concerns the delivery is still to be waited for: not its lease, not its next
attempt, and not the availability, the lease or the watchdog of its current event. -/
def RunsOutBy (s : Store) (watchdog : Duration) (id : UUID) (row : DeliveryRow) (T : Time) : Prop :=
  s.now ≤ T ∧ (∀ t, row.leaseUntil = some t → t ≤ T) ∧
    (row.status = .pending → row.nextAttemptAt ≤ T ∧
      ∀ event ∈ (s.db.dossier id).events, event.generation = row.generation →
        event.availableAt ≤ T ∧ (∀ t, event.leaseUntil = some t → t ≤ T) ∧
        (∀ t, event.publishedAt = some t → t + wholeMilliseconds watchdog ≤ T) ∧
        ∀ t, event.observedAt = some t → t + wholeMilliseconds watchdog ≤ T)

theorem Reachable.leased (hs : s.Reachable) (hRow : row ∈ s.db.deliveries) (hDelivering : row.status = .delivering) :
    ∃ t, row.leaseUntil = some t := by
  have hTuple := hs.integrity.leaseTuples row hRow
  simp only [DeliveryRow.leaseTupleConsistent, hDelivering] at hTuple
  have hHeld : (row.leaseOwner.isSome = true ∧ row.leaseToken.isSome = true) ∧ row.leaseUntil.isSome = true := by
    simpa using hTuple
  exact Option.isSome_iff_exists.mp hHeld.2

/-- A pending delivery inside its window becomes ready. -/
theorem Reachable.pending_ready (tuning : Tuning) (hs : s.Reachable) (hRun : Run (Repair tuning) first history s)
    (hNow : s.now = T) (hRow : (s.db.dossier id).row = some row) (hPending : row.status = .pending)
    (hBy : s.RunsOutBy tuning.watchdog id row T) (hDeadline : T < row.retryDeadline) :
    ∃ history' t, Run (Repair tuning) first history' t ∧ t.Reachable ∧ t.now = T ∧ t.Ready T id := by
  obtain ⟨hDue, hEvents⟩ := hBy.2.2 hPending
  by_cases hMissing : ∀ event ∈ (s.db.dossier id).events, event.generation ≠ row.generation
  · have hGeneration : 0 < row.generation := by
      obtain ⟨event, hEvent, hFirst⟩ := hs.first_event hRow
      have hOther := hMissing event hEvent
      omega
    exact hs.schedule_phase tuning hRun hNow hRow hPending hGeneration hDue hDeadline hMissing
  · push Not at hMissing
    obtain ⟨event, hEvent, hGeneration⟩ := hMissing
    obtain ⟨hAvailable, hLease, hPublished, hObserved⟩ := hEvents event hEvent hGeneration
    rcases hState : event.publishedAt with _ | published
    · refine ⟨history, s, hRun, hs, hNow, row, event, hRow, hPending, hDue, hDeadline, hEvent, hGeneration,
        OutboxEventRow.claimable_iff.mpr ⟨hState, hAvailable, ?_⟩⟩
      rcases hUntil : event.leaseUntil with _ | t
      · exact .inl rfl
      · exact .inr ⟨t, rfl, hLease t hUntil⟩
    · exact hs.reconcile_phase tuning hRun hNow hRow hPending hDue hDeadline hEvent hGeneration
        ⟨published, hState, hPublished published hState⟩ hObserved

/-- Scheduling ends a pending delivery whose deadline has passed. -/
theorem Reachable.pending_expired (tuning : Tuning) (hs : s.Reachable) (hRun : Run (Repair tuning) first history s)
    (hNow : s.now = T) (hRow : (s.db.dossier id).row = some row) (hPending : row.status = .pending)
    (hDeadline : row.retryDeadline ≤ T) :
    ∃ history' t, Run (Repair tuning) first history' t ∧ t.now = T ∧ t.Expired id := by
  obtain ⟨eventIDs, traceIDs, t, hStep⟩ := hs.schedule_step hNow.le tuning.schedule_pos
  have hNow' : t.now = T := hStep.applied.2.2
  have hPast : row.pastDeadline (.instant T) = true := DeliveryRow.pastDeadline_iff.mpr ⟨hPending, hDeadline⟩
  have hAfter := Dossier.scheduleDueRetries_row hStep.applied.1 id
  rw [hRow, Option.map_some, if_pos hPast] at hAfter
  exact ⟨[] :: history, t, hRun.next (.schedule hStep), hNow', _, hAfter, rfl, hNow' ▸ hDeadline⟩

/-- From `T` on the repair takes no time. It ends with a usable signal if the deadline is still ahead. -/
theorem Reachable.repaired (tuning : Tuning) (hs : s.Reachable) (hRow : (s.db.dossier id).row = some row)
    (hLive : row.status = .pending ∨ row.status = .delivering) (hBy : s.RunsOutBy tuning.watchdog id row T) :
    ∃ published t, Run (Repair tuning) s published t ∧ t.now = T ∧
      (T < row.retryDeadline ∧ t.Dispatched published id ∨ row.retryDeadline ≤ T ∧ t.Expired id) := by
  have hRun : Run (Repair tuning) s [[]] { s with now := T } := .next .refl (.wait hBy.1)
  have hs' : Reachable { s with now := T } := hs.step (.wait hBy.1)
  rcases hLive with hPending | hDelivering
  · rcases lt_or_ge T row.retryDeadline with hInside | hPast
    · obtain ⟨_, t, hReached, ht, hNow, hReady⟩ := hs'.pending_ready tuning hRun rfl hRow hPending
        ⟨le_rfl, hBy.2⟩ hInside
      obtain ⟨published, u, hDone, hNow', hDispatched⟩ := hReady.dispatch hReached ht hNow
      exact ⟨published, u, hDone, hNow', .inl ⟨hInside, hDispatched⟩⟩
    · obtain ⟨published, t, hDone, hNow, hExpired⟩ := hs'.pending_expired tuning hRun rfl hRow hPending hPast
      exact ⟨published, t, hDone, hNow, .inr ⟨hPast, hExpired⟩⟩
  · obtain ⟨expiry, hUntil⟩ := hs.leased (hs.integrity.dossier_row_iff.mp hRow).1 hDelivering
    have hExpired : row.leaseExpired (.instant T) = true :=
      DeliveryRow.leaseExpired_iff.mpr ⟨hDelivering, expiry, hUntil, hBy.2.1 expiry hUntil⟩
    obtain ⟨published, t, hReached, ht, hNow, ⟨hInside, hReady⟩ | ⟨hPast, hExpired⟩⟩ :=
      hs'.recover_phase tuning hRun rfl hRow hExpired
    · obtain ⟨published, u, hDone, hNow', hDispatched⟩ := hReady.dispatch hReached ht hNow
      exact ⟨published, u, hDone, hNow', .inl ⟨hInside, hDispatched⟩⟩
    · exact ⟨published, t, hReached, hNow, .inr ⟨hPast, hExpired⟩⟩

theorem exists_upper (times : List Time) : ∃ T, ∀ t ∈ times, t ≤ T := by
  induction times with
  | nil => exact ⟨0, fun _ h => by cases h⟩
  | cons head rest ih =>
    obtain ⟨T, hT⟩ := ih
    exact ⟨max head T, List.forall_mem_cons.mpr ⟨le_max_left _ _, fun t ht => (hT t ht).trans (le_max_right _ _)⟩⟩

theorem exists_runsOutBy (s : Store) (watchdog : Duration) (id : UUID) (row : DeliveryRow) :
    ∃ T, s.RunsOutBy watchdog id row T := by
  obtain ⟨T, hT⟩ := exists_upper ([s.now, row.nextAttemptAt] ++ row.leaseUntil.toList ++
    (s.db.dossier id).events.flatMap fun event => [event.availableAt] ++ event.leaseUntil.toList ++
      (event.publishedAt.map (· + wholeMilliseconds watchdog)).toList ++
      (event.observedAt.map (· + wholeMilliseconds watchdog)).toList)
  simp only [List.mem_append, List.mem_flatMap, Option.mem_toList] at hT
  refine ⟨T, hT _ (by simp), fun t ht => hT t (by simp [ht]), fun _ => ⟨hT _ (by simp), fun event hEvent _ => ?_⟩⟩
  have hOf (t : Time) (ht : ((t ∈ [event.availableAt] ∨ event.leaseUntil = some t) ∨
      event.publishedAt.map (· + wholeMilliseconds watchdog) = some t) ∨
      event.observedAt.map (· + wholeMilliseconds watchdog) = some t) : t ≤ T :=
    hT t (.inr ⟨event, hEvent, ht⟩)
  exact ⟨hOf _ (by simp), fun t ht => hOf t (by simp [ht]), fun t ht => hOf _ (by simp [ht]),
    fun t ht => hOf _ (by simp [ht])⟩

/-- In every state that operations in any order can leave, for every live delivery, there is a repair
that publishes a usable signal or ends past the deadline. It needs no longer than `RunsOutBy` says, and it
ends with the signal if that is before the deadline. -/
theorem no_delivery_stranded (tuning : Tuning) (hs : s.Reachable) (hRow : (s.db.dossier id).row = some row)
    (hLive : row.status = .pending ∨ row.status = .delivering) :
    (∃ published t, Run (Repair tuning) s published t ∧ (t.Dispatched published id ∨ t.Expired id)) ∧
    ∀ T, s.RunsOutBy tuning.watchdog id row T → T < row.retryDeadline →
      ∃ published t, Run (Repair tuning) s published t ∧ t.now = T ∧ t.Dispatched published id := by
  refine ⟨?_, fun T hBy hInside => ?_⟩
  · obtain ⟨T, hBy⟩ := exists_runsOutBy s tuning.watchdog id row
    obtain ⟨published, t, hDone, _, hEnd⟩ := hs.repaired tuning hRow hLive hBy
    exact ⟨published, t, hDone, hEnd.imp And.right And.right⟩
  · obtain ⟨published, t, hDone, hNow, hEnd⟩ := hs.repaired tuning hRow hLive hBy
    rcases hEnd with ⟨_, hDispatched⟩ | ⟨hPast, _⟩
    · exact ⟨published, t, hDone, hNow, hDispatched⟩
    · exact absurd hInside hPast.not_gt

/-- A worker that claimed and crashed holds its delivery up until its lease of ninety seconds ends. -/
theorem no_delivery_stranded_crash :
    ∃ (s : Store) (row : DeliveryRow), s.Reachable ∧ (s.db.dossier 100).row = some row ∧
      row.status = .delivering ∧ ∃ published t, Run (Repair Tuning.deployed) s published t ∧ t.now = 90000008 ∧
        t.Dispatched published 100 := by
  have hRun : ((start 0).play (Sample.accepted ++ [(8, .claimDelivery 100 0 "worker" 90000000000 104)])).any
      (fun s => s.now = 8 && (s.db.dossier 100).row.any fun row => row.status = .delivering &&
        row.leaseUntil = some 90000008 && 90000008 < row.retryDeadline) = true := by
    decide +kernel
  obtain ⟨s, hs, hState⟩ := (Option.any_eq_true _ _).mp hRun
  obtain ⟨hNow, hRows⟩ := Bool.and_eq_true_iff.mp hState
  obtain ⟨row, hRow, hFields⟩ := (Option.any_eq_true _ _).mp hRows
  simp only [Bool.and_eq_true, decide_eq_true_eq] at hFields hNow
  obtain ⟨⟨hDelivering, hLease⟩, hDeadline⟩ := hFields
  refine ⟨s, row, reachable_of_play hs, hRow, hDelivering,
    (no_delivery_stranded Tuning.deployed (reachable_of_play hs) hRow (.inr hDelivering)).2 90000008
      ⟨hNow ▸ (by decide), fun t ht => ?_, fun hPending => ?_⟩ hDeadline⟩
  · rw [hLease] at ht
    exact (Option.some.inj ht).ge
  · rw [hDelivering] at hPending
    cases hPending

end Store

end ReliableNotifier
