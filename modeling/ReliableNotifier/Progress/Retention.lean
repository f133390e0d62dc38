import ReliableNotifier.Lifecycle.Moves

/-! # Retention

One call of `DeleteExpiredTerminal` takes whole dossiers of old terminal deliveries and
nothing else. The loop `drainRetention` repeats it until a batch comes back short, while
the clock goes on.
-/

namespace ReliableNotifier

open Checked RowTable

/-- Terminal, and last updated at least the retention of its status before `t`. -/
def DeliveryRow.Expired (successRetention failureRetention : Duration) (t : Time) (row : DeliveryRow) : Prop :=
  row.status = .succeeded ∧ successRetention ≤ nanoseconds (t - row.updatedAt) ∨
  row.status = .failedPermanent ∧ failureRetention ≤ nanoseconds (t - row.updatedAt)

instance (successRetention failureRetention : Duration) (t : Time) (row : DeliveryRow) :
    Decidable (row.Expired successRetention failureRetention t) :=
  inferInstanceAs (Decidable (_ ∨ _))

/-- What the statement makes of a duration. -/
def truncated (d : Duration) : Duration := nanoseconds (wholeMilliseconds d)

theorem truncated_eq {d : Duration} (h : (1000000 : Int) ∣ d) : truncated d = d := by
  obtain ⟨k, rfl⟩ := h
  have hWhole (k : Int) : k * 1000 * 1000 = 1000000 * k := by omega
  rw [truncated, wholeMilliseconds, nanoseconds, Int.mul_tdiv_cancel_left k (by decide)]
  exact hWhole k

section Row

variable {row : DeliveryRow} {successRetention failureRetention : Duration} {t u : Time} {r : Readings}

theorem DeliveryRow.expired_iff :
    row.Expired (truncated successRetention) (truncated failureRetention) (r.scan row.id 0) ↔
      row.retained r successRetention failureRetention = false := by
  have hAge (d now updated : Int) : d * 1000 ≤ (now - updated) * 1000 ↔ updated ≤ now - d := by omega
  rw [retained_eq_false_iff, Expired, truncated, truncated, nanoseconds, nanoseconds, nanoseconds, hAge, hAge]

theorem DeliveryRow.Expired.mono (h : row.Expired successRetention failureRetention t) (hLater : t ≤ u) :
    row.Expired successRetention failureRetention u := by
  have hAge : nanoseconds (t - row.updatedAt) ≤ nanoseconds (u - row.updatedAt) :=
    Int.mul_le_mul_of_nonneg_right (Int.sub_le_sub_right hLater _) (by decide)
  exact h.imp (fun h => ⟨h.1, h.2.trans hAge⟩) fun h => ⟨h.1, h.2.trans hAge⟩

end Row

section Call

variable {db db' : Database} {r : Readings} {successRetention failureRetention : Duration} {limit : Int}
  {locked : UUID → Bool} {deleted : Nat}

/-- The dossiers that a call changes are emptied, and their deliveries have expired. -/
theorem deleteExpiredTerminal_spares (hDb : Integrity db)
    (h : deleteExpiredTerminal r successRetention failureRetention limit locked db = .ok (deleted, db')) (id : UUID) :
    db'.dossier id = db.dossier id ∨ db'.dossier id = .absent ∧ ∃ row, (db.dossier id).row = some row ∧
      row.Expired (truncated successRetention) (truncated failureRetention) (r.scan row.id 0) := by
  rw [Dossier.deleteExpiredTerminal_dossier hDb h]
  split
  · rename_i hSelected
    obtain ⟨row, hRow, hIn⟩ := (Option.any_eq_true _ _).mp hSelected
    exact .inr ⟨rfl, row, hRow, DeliveryRow.expired_iff.mpr (Dossier.mem_expiredTerminal (of_decide_eq_true hIn)).2⟩
  · exact .inl rfl

/-- The reported number is that of the deliveries that are gone, and of the rows selected. -/
theorem deleteExpiredTerminal_count (hDb : Integrity db)
    (h : deleteExpiredTerminal r successRetention failureRetention limit locked db = .ok (deleted, db')) :
    deleted + db'.deliveries.length = db.deliveries.length ∧
      deleted = (expiredTerminal r successRetention failureRetention limit locked db).length := by
  have hFinal := deleteExpiredTerminal_ok h
  simp only [deleteExpiredTerminal, bind_ok_iff, pure_ok_iff] at h
  obtain ⟨_, _, hReply⟩ := h
  obtain ⟨rfl, _⟩ := Prod.mk.inj hReply
  have hSplit (p : DeliveryRow → Bool) : db.deliveries.countP p + db.deliveries.countP (fun row => !p row) =
      db.deliveries.length := by
    simpa using (List.length_eq_countP_add_countP p (l := db.deliveries)).symm
  constructor
  · rw [hFinal, Database.deleteDeliveries, ← List.countP_eq_length_filter]
    exact hSplit _
  · rw [List.countP_eq_length_filter]
    apply List.Perm.length_eq
    have hSelected : (expiredTerminal r successRetention failureRetention limit locked db).Nodup :=
      (batch_map_nodup _ DeliveryRow.id hDb.deliveryIDs).of_map
    rw [List.perm_ext_iff_of_nodup (hDb.deliveryIDs.of_map.filter _) hSelected]
    intro row
    rw [List.mem_filter]
    constructor
    · rintro ⟨hRow, hMatch⟩
      exact (Dossier.matches_expiredTerminal_iff hDb hRow).mp hMatch
    · intro hIn
      have hRow := (Dossier.mem_expiredTerminal hIn).1
      exact ⟨hRow, (Dossier.matches_expiredTerminal_iff hDb hRow).mpr hIn⟩

end Call

/-! ## The draining loop -/

inductive DrainError where
  | store (error : StoreError)
  | cancelled
  deriving DecidableEq, Repr

/-- What one round of the loop meets: the clock, rows that others lock, a fault of the database, and whether the
context is cancelled at its end. -/
structure Round where
  readings : Readings
  locked : UUID → Bool
  fault : Option StoreError
  cancelled : Bool

namespace Round

def deleteExpiredTerminal (round : Round) (batchSize : Int) (db : Database) : Except StoreError (Nat × Database) :=
  match round.fault with
  | some error => .error error
  | none => ReliableNotifier.deleteExpiredTerminal round.readings (7 * day) (30 * day) batchSize round.locked db

/-- No other writer, no fault and no cancellation. -/
structure Quiet (round : Round) : Prop where
  unlocked : ∀ id, round.locked id = false
  sound : round.fault = none
  running : round.cancelled = false

end Round

/-- `total` has been deleted before the round `next`. Without fuel the loop is still running. -/
def drainRetention (rounds : Nat → Round) (batchSize : Int) :
    (fuel next total : Nat) → Database → Option ((Nat × Option DrainError) × Database)
  | 0, _, _, _ => none
  | fuel + 1, next, total, db =>
    match (rounds next).deleteExpiredTerminal batchSize db with
    | .error error => some ((total, some (.store error)), db)
    | .ok (deleted, db') =>
      if (deleted : Int) < batchSize then some ((total + deleted, none), db')
      else if (rounds next).cancelled then some ((total + deleted, some .cancelled), db')
      else drainRetention rounds batchSize fuel (next + 1) (total + deleted) db'

/-- From the round `first` to the round `last` the expired deliveries went, with all that belongs to them. -/
structure Drained (rounds : Nat → Round) (first last : Nat) (db db' : Database) : Prop where
  registry : db'.registry = db.registry
  kept_or_gone : ∀ id, db'.dossier id = db.dossier id ∨ db'.dossier id = .absent
  expired_gone : ∀ row ∈ db.deliveries, row.Expired (7 * day) (30 * day) (rounds first).readings.statement →
    db'.dossier row.id = .absent
  young_kept : ∀ row ∈ db.deliveries, ¬row.Expired (7 * day) (30 * day) (rounds last).readings.finish →
    db'.dossier row.id = db.dossier row.id

section Drain

variable {rounds : Nat → Round} {round : Round} {batchSize : Int} {db : Database} {deleted : Nat}

theorem Round.Quiet.deletes (hQuiet : round.Quiet) (hBatch : 0 < batchSize) (db : Database) :
    ∃ reply, round.deleteExpiredTerminal batchSize db = .ok reply := by
  rw [Round.deleteExpiredTerminal, hQuiet.sound]
  refine ⟨_, bind_ok_iff.mpr ⟨(), ?_, rfl⟩⟩
  have hDay : (0 : Int) < 7 * day ∧ (0 : Int) < 30 * day := by decide
  simp [ensure_ok_iff, hDay.1, hDay.2, hBatch]

theorem Round.Quiet.spares {db' : Database} (hQuiet : round.Quiet) (hDb : Integrity db)
    (h : round.deleteExpiredTerminal batchSize db = .ok (deleted, db')) (id : UUID) :
    db'.dossier id = db.dossier id ∨ db'.dossier id = .absent ∧ ∃ row, (db.dossier id).row = some row ∧
      row.Expired (7 * day) (30 * day) (round.readings.scan row.id 0) := by
  rw [Round.deleteExpiredTerminal, hQuiet.sound] at h
  have hSpares := deleteExpiredTerminal_spares hDb h id
  rwa [truncated_eq (by decide), truncated_eq (by decide)] at hSpares

theorem Round.Quiet.takes_all {db' : Database} {row : DeliveryRow} (hQuiet : round.Quiet) (hDb : Integrity db)
    (h : round.deleteExpiredTerminal batchSize db = .ok (deleted, db')) (hShort : (deleted : Int) < batchSize)
    (hRow : row ∈ db.deliveries) (hExpired : row.Expired (7 * day) (30 * day) (round.readings.scan row.id 0)) :
    db'.dossier row.id = .absent := by
  rw [Round.deleteExpiredTerminal, hQuiet.sound] at h
  have hCount := (deleteExpiredTerminal_count hDb h).2
  rw [expiredTerminal, length_batch] at hCount
  have hEnough : db.deliveries.countP (fun row => !row.retained round.readings (7 * day) (30 * day) &&
      !round.locked row.id) ≤ batchSize.toNat := by omega
  rw [← truncated_eq (d := 7 * day) (by decide), ← truncated_eq (d := 30 * day) (by decide),
    DeliveryRow.expired_iff] at hExpired
  have hIn : row ∈ expiredTerminal round.readings (7 * day) (30 * day) batchSize round.locked db :=
    (mem_batch_iff _ hEnough).mpr ⟨hRow, by simp [hExpired, hQuiet.unlocked]⟩
  rw [Dossier.deleteExpiredTerminal_dossier hDb h, hDb.dossier_row_iff.mpr ⟨hRow, rfl⟩, Option.any_some,
    if_pos (decide_eq_true hIn)]

theorem Round.Quiet.registry_eq {db' : Database} (hQuiet : round.Quiet)
    (h : round.deleteExpiredTerminal batchSize db = .ok (deleted, db')) : db'.registry = db.registry := by
  rw [Round.deleteExpiredTerminal, hQuiet.sound] at h
  rw [deleteExpiredTerminal_ok h]
  rfl

variable (hQuiet : ∀ i, (rounds i).Quiet)
  (hClock : ∀ i, (rounds i).readings.finish ≤ (rounds (i + 1)).readings.statement)

include hClock in
theorem finish_mono {i j : Nat} (h : i ≤ j) : (rounds i).readings.finish ≤ (rounds j).readings.finish := by
  induction j, h using Nat.le_induction with
  | base => exact le_rfl
  | succ j _ ih => exact ih.trans ((hClock j).trans (rounds (j + 1)).readings.statement_le_finish)

include hQuiet in
theorem Drained.last {db' : Database} {i : Nat} (hDb : Integrity db)
    (h : (rounds i).deleteExpiredTerminal batchSize db = .ok (deleted, db')) (hShort : (deleted : Int) < batchSize) :
    Drained rounds i i db db' where
  registry := (hQuiet i).registry_eq h
  kept_or_gone id := ((hQuiet i).spares hDb h id).imp_right And.left
  expired_gone row hRow hExpired :=
    (hQuiet i).takes_all hDb h hShort hRow (hExpired.mono ((rounds i).readings.statement_le_scan _ _))
  young_kept row hRow hYoung := by
    rcases (hQuiet i).spares hDb h row.id with hSame | ⟨_, other, hOther, hExpired⟩
    · exact hSame
    · cases (hDb.dossier_row_iff.mpr ⟨hRow, rfl⟩).symm.trans hOther
      exact absurd (hExpired.mono ((rounds i).readings.scan_le_finish _ _)) hYoung

include hQuiet hClock in
theorem Drained.cons {middle db' : Database} {i last : Nat} (hDb : Integrity db) (hMiddle : Integrity middle)
    (h : (rounds i).deleteExpiredTerminal batchSize db = .ok (deleted, middle)) (hLast : i ≤ last)
    (hRest : Drained rounds (i + 1) last middle db') : Drained rounds i last db db' where
  registry := hRest.registry.trans ((hQuiet i).registry_eq h)
  kept_or_gone id := by
    rcases hRest.kept_or_gone id with hSame | hGone
    · rw [hSame]
      exact ((hQuiet i).spares hDb h id).imp_right And.left
    · exact .inr hGone
  expired_gone row hRow hExpired := by
    rcases (hQuiet i).spares hDb h row.id with hSame | ⟨hGone, _⟩
    · have hKept := (hMiddle.dossier_row_iff.mp (hSame ▸ hDb.dossier_row_iff.mpr ⟨hRow, rfl⟩)).1
      exact hRest.expired_gone row hKept
        (hExpired.mono ((rounds i).readings.statement_le_finish.trans (hClock i)))
    · rcases hRest.kept_or_gone row.id with hSame | hStill
      · exact hSame.trans hGone
      · exact hStill
  young_kept row hRow hYoung := by
    have hSome := hDb.dossier_row_iff.mpr ⟨hRow, rfl⟩
    rcases (hQuiet i).spares hDb h row.id with hSame | ⟨_, other, hOther, hExpired⟩
    · have hKept := (hMiddle.dossier_row_iff.mp (hSame ▸ hSome)).1
      exact (hRest.young_kept row hKept hYoung).trans hSame
    · cases hSome.symm.trans hOther
      exact absurd (hExpired.mono (((rounds i).readings.scan_le_finish _ _).trans (finish_mono hClock hLast))) hYoung

include hQuiet hClock in
/-- Every full batch leaves fewer deliveries, so that a short one comes. -/
theorem drainRetention_returns (hBatch : 0 < batchSize) (hDb : Integrity db) (next total : Nat) :
    ∃ calls removed db', drainRetention rounds batchSize (calls + 1) next total db =
        some ((total + removed, none), db') ∧
      drainRetention rounds batchSize calls next total db = none ∧ Drained rounds next (next + calls) db db' ∧
      removed + db'.deliveries.length = db.deliveries.length := by
  induction hSize : db.deliveries.length using Nat.strong_induction_on generalizing db next total with
  | _ size ih =>
    obtain ⟨⟨deleted, middle⟩, hDelete⟩ := (hQuiet next).deletes hBatch db
    have hPlain := hDelete
    rw [Round.deleteExpiredTerminal, (hQuiet next).sound] at hPlain
    have hCount := (deleteExpiredTerminal_count hDb hPlain).1
    by_cases hShort : (deleted : Int) < batchSize
    · refine ⟨0, deleted, middle, ?_, rfl, Drained.last hQuiet hDb hDelete hShort, hCount.trans hSize⟩
      rw [drainRetention, hDelete]
      exact if_pos hShort
    · have hMiddle : Integrity middle := by
        rw [deleteExpiredTerminal_ok hPlain]
        exact hDb.deleteDeliveries _
      obtain ⟨calls, removed, db', hReturn, hRunning, hDrained, hRemoved⟩ :=
        ih middle.deliveries.length (by omega) hMiddle (next + 1) (total + deleted) rfl
      have hAgain (fuel : Nat) : drainRetention rounds batchSize (fuel + 1) next total db =
          drainRetention rounds batchSize fuel (next + 1) (total + deleted) middle := by
        rw [drainRetention, hDelete]
        simp only [if_neg hShort, (hQuiet next).running, Bool.false_eq_true, if_false]
      have hIndex : next + 1 + calls = next + (calls + 1) := by omega
      refine ⟨calls + 1, deleted + removed, db', ?_, (hAgain calls).trans hRunning, ?_, by omega⟩
      · rw [hAgain, hReturn, Nat.add_assoc]
      · exact Drained.cons hQuiet hClock hDb hMiddle hDelete (by omega) (hIndex ▸ hDrained)

end Drain

namespace Store

/-- A call of `DeleteExpiredTerminal` in any run takes expired deliveries only, each with its whole dossier, where
durations count in whole milliseconds. Left alone, `drainRetention` returns after finitely many calls, when what had
expired at the start is gone and what has not expired at the end is as it was. -/
theorem retention_spares_and_drains :
    (∀ (s u : Store) (r : Readings) (successRetention failureRetention : Duration) (limit : Int)
      (locked : UUID → Bool), s.Reachable →
      Step s (.commit r (.deleteExpiredTerminal successRetention failureRetention limit locked)) u →
      u.db.registry = s.db.registry ∧ ∀ id, u.db.dossier id = s.db.dossier id ∨
        u.db.dossier id = .absent ∧ ∃ row, (s.db.dossier id).row = some row ∧
          row.Expired (truncated successRetention) (truncated failureRetention) (r.scan row.id 0)) ∧
    (∀ d : Duration, (1000000 : Int) ∣ d → truncated d = d) ∧
    ∀ (db : Database) (rounds : Nat → Round) (batchSize : Int), Integrity db → 0 < batchSize →
      (∀ i, (rounds i).Quiet) → (∀ i, (rounds i).readings.finish ≤ (rounds (i + 1)).readings.statement) →
      ∃ calls total db', drainRetention rounds batchSize (calls + 1) 0 0 db = some ((total, none), db') ∧
        drainRetention rounds batchSize calls 0 0 db = none ∧ Drained rounds 0 calls db db' ∧
        total + db'.deliveries.length = db.deliveries.length := by
  refine ⟨?_, fun d hWhole => truncated_eq hWhole, ?_⟩
  · intro s u r successRetention failureRetention limit locked hs hStep
    obtain ⟨⟨deleted, final⟩, hDelete, hFinal⟩ := map_ok_iff.mp hStep.applied.1
    obtain rfl : final = u.db := hFinal
    refine ⟨?_, deleteExpiredTerminal_spares hs.integrity hDelete⟩
    rw [deleteExpiredTerminal_ok hDelete]
    rfl
  · intro db rounds batchSize hDb hBatch hQuiet hClock
    obtain ⟨calls, total, db', hReturn, hRunning, hDrained, hTotal⟩ :=
      drainRetention_returns hQuiet hClock hBatch hDb 0 0
    rw [Nat.zero_add] at hReturn hDrained
    exact ⟨calls, total, db', hReturn, hRunning, hDrained, hTotal⟩

/-- A delivery that succeeded at 9, and one round after the other a week later. -/
theorem retention_spares_and_drains_week :
    ∃ (s : Store) (row : DeliveryRow) (calls total : Nat) (db' : Database), s.Reachable ∧ row ∈ s.db.deliveries ∧
      row.status = .succeeded ∧
      drainRetention (fun _ => ⟨.instant 604800000009, fun _ => false, none, false⟩) 1 (calls + 1) 0 0 s.db =
        some ((total, none), db') ∧ db'.dossier row.id = .absent := by
  have hRun : ((start 0).play (Sample.accepted ++ [(8, .claimDelivery 100 0 "worker" 90000000000 104),
      (9, .complete .success Sample.result 105)])).any (fun s => s.db.deliveries.any fun row =>
        row.status = .succeeded && row.Expired (7 * day) (30 * day) 604800000009) = true := by
    decide +kernel
  obtain ⟨s, hPlay, hRows⟩ := (Option.any_eq_true _ _).mp hRun
  obtain ⟨row, hRow, hBoth⟩ := List.any_eq_true.mp hRows
  obtain ⟨hSucceeded, hExpired⟩ := Bool.and_eq_true_iff.mp hBoth
  have hs := reachable_of_play hPlay
  obtain ⟨calls, total, db', hReturn, _, hDrained, _⟩ := retention_spares_and_drains.2.2 s.db
    (fun _ => ⟨.instant 604800000009, fun _ => false, none, false⟩) 1 hs.integrity (by decide)
    (fun _ => ⟨fun _ => rfl, rfl, rfl⟩) fun _ => le_rfl
  exact ⟨s, row, calls, total, db', hs, hRow, of_decide_eq_true hSucceeded, hReturn,
    hDrained.expired_gone row hRow (of_decide_eq_true hExpired)⟩

/-- A retention of almost two milliseconds lets a delivery go after one. -/
theorem retention_cuts_milliseconds :
    ∃ (s u : Store) (row : DeliveryRow), s.Reachable ∧
      Step s (.commit (.instant 1009) (.deleteExpiredTerminal 1999999 1999999 1 fun _ => false)) u ∧
      row ∈ s.db.deliveries ∧ ¬row.Expired 1999999 1999999 1009 ∧ (u.db.dossier row.id).row = none := by
  have hRun : ((start 0).play (Sample.accepted ++ [(8, .claimDelivery 100 0 "worker" 90000000000 104),
      (9, .complete .success Sample.result 105)])).any (fun s => s.db.deliveries.any fun row =>
        ¬row.Expired 1999999 1999999 1009 &&
          (s.perform 1009 (.deleteExpiredTerminal 1999999 1999999 1 fun _ => false)).any fun u =>
            (u.db.dossier row.id).row = none) = true := by
    decide +kernel
  obtain ⟨s, hPlay, hRows⟩ := (Option.any_eq_true _ _).mp hRun
  obtain ⟨row, hRow, hBoth⟩ := List.any_eq_true.mp hRows
  obtain ⟨hYoung, hGone⟩ := Bool.and_eq_true_iff.mp hBoth
  obtain ⟨u, hPerform, hNone⟩ := (Option.any_eq_true _ _).mp hGone
  exact ⟨s, u, row, reachable_of_play hPlay, step_of_perform hPerform, hRow, of_decide_eq_true hYoung,
    of_decide_eq_true hNone⟩

end Store

end ReliableNotifier
