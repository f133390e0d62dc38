import ReliableNotifier.Lifecycle.Constraints
import ReliableNotifier.Worker.Process

/-! # Repair steps and that they succeed

The maintenance loops and the publishers, run one after the other at one instant with
fresh identifiers. None of their statements can break a constraint in a reachable
state, whatever the batch limits are, so that each of these steps is there to be taken.
-/

namespace ReliableNotifier

open Checked RowTable

/-- The configured limits and durations. A publisher lease lasts a millisecond at least. -/
structure Tuning where
  owner : String
  leaseDuration : Duration
  watchdog : Duration
  claimLimit : Int
  recoverLimit : Int
  scheduleLimit : Int
  reconcileLimit : Int
  owner_ne : owner ≠ ""
  lease_ge : 1000000 ≤ leaseDuration
  watchdog_pos : 0 < watchdog
  claim_pos : 0 < claimLimit
  recover_pos : 0 < recoverLimit
  schedule_pos : 0 < scheduleLimit
  reconcile_pos : 0 < reconcileLimit

theorem wholeMilliseconds_pos {d : Duration} (h : 1000000 ≤ d) : 0 < wholeMilliseconds d := by
  have hWhole (d : Int) (h : 1000000 ≤ d) : 0 < d / 1000000 * 1000 := by omega
  rw [wholeMilliseconds, Int.tdiv_eq_ediv_of_nonneg (le_trans (by decide) h)]
  exact hWhole d h

namespace Store

/-- A publisher marks the events it published, one after the other. -/
inductive Marks : List OutboxEvent → Store → Store → Prop
  | nil (s : Store) : Marks [] s s
  | cons {event : OutboxEvent} {rest : List OutboxEvent} {r : Readings} {s t u : Store}
      (hMark : Step s (.commit r (.markOutboxPublished event)) t) (hRest : Marks rest t u) :
      Marks (event :: rest) s u

/-- One step of clock, maintenance or a whole publisher cycle, with the signals it publishes. -/
inductive Repair (tuning : Tuning) : Store → List Signal → Store → Prop
  | wait {s : Store} {now : Time} (hClock : s.now ≤ now) : Repair tuning s [] { s with now := now }
  | recover {s t : Store} {r : Readings} {locked : UUID → Bool} {attemptIDs eventIDs traceIDs : UUID → UUID}
      (hStep : Step s (.commit r
        (.recoverExpiredDeliveries tuning.recoverLimit locked attemptIDs eventIDs traceIDs)) t) :
      Repair tuning s [] t
  | schedule {s t : Store} {r : Readings} {locked : UUID → Bool} {eventIDs traceIDs : UUID → UUID}
      (hStep : Step s (.commit r (.scheduleDueRetries tuning.scheduleLimit locked eventIDs traceIDs)) t) :
      Repair tuning s [] t
  | reconcile {s t : Store} {r : Readings} {locked : UUID → Bool} {traceIDs : UUID → UUID}
      (hStep : Step s (.commit r
        (.reconcileStalledSignals tuning.watchdog tuning.reconcileLimit locked traceIDs)) t) :
      Repair tuning s [] t
  | publish {s t u : Store} {r : Readings} {locked : UUID → Bool} {token : UUID} {events : List OutboxEvent}
      (hClaim : Step s (.commit r
        (.claimOutbox tuning.owner tuning.leaseDuration tuning.claimLimit locked token)) t)
      (hReply : Prod.fst <$> claimOutbox r tuning.owner tuning.leaseDuration tuning.claimLimit locked token s.db =
        .ok events)
      (hMarks : Marks events t u) : Repair tuning s (events.map OutboxEvent.signal) u

variable {tuning : Tuning} {s t u : Store} {published : List Signal}

theorem Marks.later {events : List OutboxEvent} (h : Marks events s t) : s.Later t := by
  induction h with
  | nil => exact .refl
  | cons hMark _ ih => exact (LabelledRun.Reachable.refl.next hMark).trans ih

theorem Repair.later (h : Repair tuning s published t) : s.Later t := by
  cases h with
  | wait hClock => exact LabelledRun.Reachable.refl.next (.wait hClock)
  | recover hStep | schedule hStep | reconcile hStep => exact LabelledRun.Reachable.refl.next hStep
  | publish hClaim _ hMarks => exact (LabelledRun.Reachable.refl.next hClaim).trans hMarks.later

end Store

/-! ## Fresh identifiers -/

theorem exists_above (ids : List Nat) : ∃ n, ∀ id ∈ ids, id < n := by
  induction ids with
  | nil => exact ⟨0, fun _ h => by cases h⟩
  | cons head rest ih =>
    obtain ⟨n, hn⟩ := ih
    refine ⟨max (head + 1) n, List.forall_mem_cons.mpr ⟨by omega, fun id hID => ?_⟩⟩
    exact (hn id hID).trans_le (le_max_right _ _)

/-- Three identifiers above `n` for each row. -/
def freshID (n k id : Nat) : Nat := n + 3 * id + k

theorem freshID_injective (n k : Nat) : Function.Injective (freshID n k) := by
  intro a b h
  simp only [freshID] at h
  omega

theorem nodup_fresh {α : Type} {rows : List α} {key : α → Nat} (h : (rows.map key).Nodup) (n k : Nat) :
    (rows.map fun row => freshID n k (key row)).Nodup := by
  have hMap := h.map (freshID_injective n k)
  rwa [List.map_map] at hMap

theorem nodup_fresh_append {α : Type} {rows : List α} {key : α → Nat} (h : (rows.map key).Nodup) (n : Nat) :
    (rows.map (fun row => freshID n 0 (key row)) ++
      (rows.map (fun row => freshID n 1 (key row)) ++ rows.map fun row => freshID n 2 (key row))).Nodup := by
  have hApart {j k : Nat} (hj : j < k) (hk : k < 3) :
      (rows.map fun row => freshID n j (key row)).Disjoint (rows.map fun row => freshID n k (key row)) := by
    intro x hx hx'
    obtain ⟨a, _, rfl⟩ := List.mem_map.mp hx
    obtain ⟨b, _, hSame⟩ := List.mem_map.mp hx'
    simp only [freshID] at hSame
    omega
  refine (nodup_fresh h n 0).append ((nodup_fresh h n 1).append (nodup_fresh h n 2)
    (hApart (by omega) (by omega))) ?_
  exact List.disjoint_append_right.mpr ⟨hApart (by omega) (by omega), hApart (by omega) (by omega)⟩

theorem le_freshID (n k id : Nat) : n ≤ freshID n k id := by
  simp only [freshID]
  omega

theorem claimOutbox_accepts {db : Database} {T : Time} {limit : Int} {owner : String} {leaseDuration : Duration}
    {token : UUID} (hOwner : owner ≠ "") (hLease : 0 < leaseDuration) (hLimit : 0 < limit) :
    ∃ reply, claimOutbox (.instant T) owner leaseDuration limit (fun _ => false) token db = .ok reply := by
  refine ⟨_, bind_ok_iff.mpr ⟨(), ?_, bind_ok_iff.mpr ⟨_, Database.updateEvents_eq fun row _ _ => rfl, rfl⟩⟩⟩
  simp [ensure_ok_iff, hOwner, hLease, hLimit]

namespace Store

variable {s : Store} {T : Time} {limit : Int}

theorem not_issued_freshID {n : Nat} (hn : ∀ id ∈ s.issued, id < n) (k id : Nat) : freshID n k id ∉ s.issued :=
  fun hOld => absurd (hn _ hOld) (Nat.not_lt.mpr (le_freshID n k id))

theorem Reachable.recover_step (hs : s.Reachable) (hNow : s.now ≤ T) (hLimit : 0 < limit) :
    ∃ attemptIDs eventIDs traceIDs t, Step s (.commit (.instant T)
      (.recoverExpiredDeliveries limit (fun _ => false) attemptIDs eventIDs traceIDs)) t := by
  obtain ⟨n, hn⟩ := exists_above s.issued
  have hFresh : (Op.recoverExpiredDeliveries limit (fun _ => false) (freshID n 0) (freshID n 1) (freshID n 2)).Fresh s
      (.instant T) := by
    refine ⟨nodup_fresh_append (batch_map_nodup _ DeliveryRow.id hs.integrity.deliveryIDs) n, fun id hID => ?_⟩
    simp only [Op.generated, List.mem_append, List.mem_map] at hID
    rcases hID with ⟨row, _, rfl⟩ | ⟨row, _, rfl⟩ | ⟨row, _, rfl⟩ <;> exact not_issued_freshID hn _ _
  exact ⟨_, _, _, _, .commit hNow trivial hFresh (hs.recover_eq hNow hLimit hFresh)⟩

theorem Reachable.schedule_step (hs : s.Reachable) (hNow : s.now ≤ T) (hLimit : 0 < limit) :
    ∃ eventIDs traceIDs t, Step s (.commit (.instant T)
      (.scheduleDueRetries limit (fun _ => false) eventIDs traceIDs)) t := by
  obtain ⟨n, hn⟩ := exists_above s.issued
  have hFresh : (Op.scheduleDueRetries limit (fun _ => false) (freshID n 1) (freshID n 2)).Fresh s (.instant T) := by
    refine ⟨(nodup_fresh_append (batch_map_nodup _ DeliveryRow.id hs.integrity.deliveryIDs) n).of_append_right,
      fun id hID => ?_⟩
    simp only [Op.generated, List.mem_append, List.mem_map] at hID
    rcases hID with ⟨row, _, rfl⟩ | ⟨row, _, rfl⟩ <;> exact not_issued_freshID hn _ _
  exact ⟨_, _, _, .commit hNow trivial hFresh (hs.schedule_eq hLimit hFresh)⟩

theorem Reachable.reconcile_step {watchdog : Duration} (hs : s.Reachable) (hNow : s.now ≤ T) (hWatchdog : 0 < watchdog)
    (hLimit : 0 < limit) : ∃ traceIDs t, Step s (.commit (.instant T)
      (.reconcileStalledSignals watchdog limit (fun _ => false) traceIDs)) t := by
  obtain ⟨n, hn⟩ := exists_above s.issued
  have hFresh : (Op.reconcileStalledSignals watchdog limit (fun _ => false) (freshID n 0)).Fresh s (.instant T) := by
    refine ⟨nodup_fresh (batch_map_nodup _ OutboxEventRow.id hs.integrity.eventIDs) n 0, fun id hID => ?_⟩
    obtain ⟨row, _, rfl⟩ := List.mem_map.mp hID
    exact not_issued_freshID hn _ _
  exact ⟨_, _, .commit hNow trivial hFresh (hs.reconcile_eq hWatchdog hLimit)⟩

end Store

end ReliableNotifier
