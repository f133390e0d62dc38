import ReliableNotifier.Progress.Repair

/-! # A publisher cycle makes progress

A cycle claims a batch of due events, publishes them and marks them. An event that is due
is in the batch, or fewer events are due after the cycle.
-/

namespace ReliableNotifier

open Checked RowTable

namespace OutboxEventRow

variable {T : Time} {row : OutboxEventRow}

/-- A row that can be marked at `T`. -/
def markable (T : Time) (held : OutboxEvent) (row : OutboxEventRow) : Bool :=
  row.held held && row.leaseUntil.any (T < ·)

theorem not_claimable_markPublished {r : Readings} : (row.markPublished r).claimable (.instant T) = false := by
  simp [claimable, markPublished]

theorem not_claimable_claim {owner : String} {token : UUID} {leaseDuration : Duration}
    (hLease : 0 < wholeMilliseconds leaseDuration) :
    (row.claim (.instant T) owner token leaseDuration).claimable (.instant T) = false := by
  have hLive : ¬T + wholeMilliseconds leaseDuration ≤ T := by
    intro h
    exact absurd (lt_of_lt_of_le (Int.lt_add_of_pos_right T hLease) h) (lt_irrefl T)
  simp [claimable, claim, Readings.instant, hLive]

/-- A row in the batch of a claim that finds no row locked. -/
def chosen (r : Readings) (limit : Int) (db : Database) (row : OutboxEventRow) : Bool :=
  (outboxCandidates r limit (fun _ => false) db).any fun candidate => candidate.id = row.id

theorem claimable_of_chosen {r : Readings} {limit : Int} {db : Database} (hDb : Integrity db)
    (hRow : row ∈ db.outboxEvents) (h : row.chosen r limit db = true) : row.claimable r = true := by
  obtain ⟨candidate, hCandidate, hSame⟩ := List.any_eq_true.mp h
  obtain ⟨hMem, hMatch⟩ := mem_of_mem_batch _ hCandidate
  obtain rfl : candidate = row := List.inj_on_of_nodup_map hDb.eventIDs hMem hRow (of_decide_eq_true hSame)
  exact (Bool.and_eq_true_iff.mp hMatch).1

theorem exists_chosen {r : Readings} {limit : Int} {db : Database} (hLimit : 0 < limit)
    (hRow : row ∈ db.outboxEvents) (hClaimable : row.claimable r = true) :
    ∃ first ∈ db.outboxEvents, first.chosen r limit db = true := by
  have hSome : outboxCandidates r limit (fun _ => false) db ≠ [] :=
    batch_ne_nil _ (by omega) hRow (by simpa using hClaimable)
  obtain ⟨first, hFirst⟩ := List.exists_mem_of_ne_nil _ hSome
  exact ⟨first, (mem_of_mem_batch _ hFirst).1, List.any_eq_true.mpr ⟨first, hFirst, decide_eq_true rfl⟩⟩

end OutboxEventRow

namespace Store

variable {s : Store} {T : Time}

theorem Reachable.mark_step {held : OutboxEvent} {row : OutboxEventRow} (hs : s.Reachable) (hNow : s.now ≤ T)
    (hRow : row ∈ s.db.outboxEvents) (hMarkable : row.markable T held = true) :
    ∃ t, Step s (.commit (.instant T) (.markOutboxPublished held)) t ∧ t.now = T ∧
      t.db.deliveries = s.db.deliveries ∧
      t.db.outboxEvents =
        updateWhere (OutboxEventRow.markable T held) (OutboxEventRow.markPublished (.instant T)) s.db.outboxEvents := by
  have hOne : s.db.outboxEvents.countP (OutboxEventRow.markable T held) = 1 := by
    refine countP_eq_one hs.integrity.eventIDs hRow hMarkable fun other _ hOther => ?_
    have hID (event : OutboxEventRow) (h : event.markable T held = true) : event.id = held.id :=
      (OutboxEventRow.held_iff.mp (Bool.and_eq_true_iff.mp h).1).1
    rw [hID other hOther, hID row hMarkable]
  have hApply : markOutboxPublished (.instant T) held s.db = .ok { s.db with
      outboxEvents := updateWhere (OutboxEventRow.markable T held) (OutboxEventRow.markPublished (.instant T))
        s.db.outboxEvents } := by
    simp only [markOutboxPublished, bind_ok_iff, ensure_ok_iff, pure_ok_iff, decide_eq_true_eq]
    exact ⟨_, Database.updateEvents_eq fun _ _ _ => rfl, (), hOne, rfl⟩
  exact ⟨_, .commit hNow trivial ⟨List.nodup_nil, fun _ h => by cases h⟩ hApply, rfl, rfl, rfl⟩

/-- Everything a publisher holds with a live lease can be marked. -/
theorem Reachable.marks {held : List OutboxEvent} (hs : s.Reachable) (hNow : s.now = T)
    (hIDs : (held.map OutboxEvent.id).Nodup)
    (hHeld : ∀ event ∈ held, ∃ row ∈ s.db.outboxEvents, row.markable T event = true) :
    ∃ u, Marks held s u ∧ u.now = T ∧ u.db.deliveries = s.db.deliveries ∧
      (∀ row ∈ s.db.outboxEvents, row.id ∉ held.map OutboxEvent.id → row ∈ u.db.outboxEvents) ∧
      u.db.outboxEvents.countP (OutboxEventRow.claimable (.instant T)) ≤
        s.db.outboxEvents.countP (OutboxEventRow.claimable (.instant T)) := by
  induction held generalizing s with
  | nil => exact ⟨s, .nil s, hNow, rfl, fun _ hRow _ => hRow, le_rfl⟩
  | cons event rest ih =>
    obtain ⟨row, hRow, hMarkable⟩ := hHeld event List.mem_cons_self
    obtain ⟨t, hStep, ht, hDeliveries, hEvents⟩ := hs.mark_step hNow.le hRow hMarkable
    obtain ⟨hFirst, hRest⟩ := List.nodup_cons.mp hIDs
    have hKept (other : OutboxEventRow) (hOther : other ∈ s.db.outboxEvents) (hID : other.id ≠ event.id) :
        other ∈ t.db.outboxEvents := by
      rw [hEvents]
      refine mem_updateWhere.mpr ⟨other, hOther, if_neg fun h => hID ?_⟩
      exact (OutboxEventRow.held_iff.mp (Bool.and_eq_true_iff.mp h).1).1
    obtain ⟨u, hMarks, hu, hSame, hOthers, hCount⟩ := ih (hs.step hStep) ht hRest fun other hOther => by
      obtain ⟨row, hRow, hMarkable⟩ := hHeld other (List.mem_cons_of_mem _ hOther)
      refine ⟨row, hKept row hRow fun hID => hFirst ?_, hMarkable⟩
      rw [← hID, (OutboxEventRow.held_iff.mp (Bool.and_eq_true_iff.mp hMarkable).1).1]
      exact List.mem_map_of_mem hOther
    refine ⟨u, .cons hStep hMarks, hu, hSame.trans hDeliveries, fun other hOther hID => ?_, hCount.trans ?_⟩
    · rw [List.map_cons, List.mem_cons, not_or] at hID
      exact hOthers other (hKept other hOther hID.1) hID.2
    · rw [hEvents]
      refine countP_map_le fun other _ hClaimable => ?_
      split at hClaimable
      · rw [OutboxEventRow.not_claimable_markPublished] at hClaimable
        cases hClaimable
      · exact hClaimable

theorem Reachable.claimOutbox_step (tuning : Tuning) (hNow : s.now ≤ T) :
    ∃ token t, Step s (.commit (.instant T) (.claimOutbox tuning.owner tuning.leaseDuration tuning.claimLimit
        (fun _ => false) token)) t ∧
      Prod.fst <$> claimOutbox (.instant T) tuning.owner tuning.leaseDuration tuning.claimLimit (fun _ => false) token
        s.db = .ok ((s.db.outboxEvents.filter (OutboxEventRow.chosen (.instant T) tuning.claimLimit s.db)).map
          (OutboxEventRow.load tuning.owner token)) ∧
      t.now = T ∧ t.db.deliveries = s.db.deliveries ∧
      t.db.outboxEvents = updateWhere (OutboxEventRow.chosen (.instant T) tuning.claimLimit s.db)
        (OutboxEventRow.claim (.instant T) tuning.owner token tuning.leaseDuration) s.db.outboxEvents := by
  obtain ⟨token, hToken⟩ := exists_above s.issued
  have hLease : 0 < tuning.leaseDuration := lt_of_lt_of_le (by decide) tuning.lease_ge
  obtain ⟨⟨reply, db⟩, hClaim⟩ : ∃ answer, claimOutbox (.instant T) tuning.owner tuning.leaseDuration tuning.claimLimit
      (fun _ => false) token s.db = .ok answer :=
    claimOutbox_accepts tuning.owner_ne hLease tuning.claim_pos
  obtain ⟨_, hUpdate, rfl⟩ := claimOutbox_ok hClaim
  obtain ⟨_, rfl⟩ := Database.updateEvents_ok hUpdate
  refine ⟨token, ⟨_, T, [token] ++ s.issued⟩, .commit hNow trivial ⟨List.nodup_singleton token, fun id hID hOld => ?_⟩
    (map_ok_iff.mpr ⟨_, hClaim, rfl⟩), map_ok_iff.mpr ⟨_, hClaim, rfl⟩, rfl, rfl, rfl⟩
  rw [List.mem_singleton.mp hID] at hOld
  exact lt_irrefl _ (hToken token hOld)

theorem Reachable.cycle {event : OutboxEventRow} (tuning : Tuning) (hs : s.Reachable) (hNow : s.now = T)
    (hEvent : event ∈ s.db.outboxEvents) (hClaimable : event.claimable (.instant T) = true) :
    ∃ published u, Repair tuning s published u ∧ u.now = T ∧ u.db.deliveries = s.db.deliveries ∧
      (event.signal ∈ published ∨ event ∈ u.db.outboxEvents ∧
        u.db.outboxEvents.countP (OutboxEventRow.claimable (.instant T)) <
          s.db.outboxEvents.countP (OutboxEventRow.claimable (.instant T))) := by
  obtain ⟨token, t, hStep, hReply, ht, hDeliveries, hEvents⟩ := Reachable.claimOutbox_step tuning hNow.le
  have hLease := wholeMilliseconds_pos tuning.lease_ge
  -- every row of the batch was claimed for this publisher and can be marked
  have hIDs : (((s.db.outboxEvents.filter (OutboxEventRow.chosen (.instant T) tuning.claimLimit s.db)).map
      (OutboxEventRow.load tuning.owner token)).map OutboxEvent.id).Nodup := by
    rw [List.map_map]
    exact (List.filter_sublist.map _).nodup hs.integrity.eventIDs
  have hHeld (held : OutboxEvent)
      (hMem : held ∈ (s.db.outboxEvents.filter (OutboxEventRow.chosen (.instant T) tuning.claimLimit s.db)).map
        (OutboxEventRow.load tuning.owner token)) : ∃ row ∈ t.db.outboxEvents, row.markable T held = true := by
    obtain ⟨row, hRow, rfl⟩ := List.mem_map.mp hMem
    obtain ⟨hRow, hChosen⟩ := List.mem_filter.mp hRow
    have hFree := (OutboxEventRow.claimable_iff.mp (row.claimable_of_chosen hs.integrity hRow hChosen)).1
    refine ⟨row.claim (.instant T) tuning.owner token tuning.leaseDuration, ?_, ?_⟩
    · rw [hEvents]
      exact mem_updateWhere.mpr ⟨row, hRow, if_pos hChosen⟩
    · have hLive : T < T + wholeMilliseconds tuning.leaseDuration := Int.lt_add_of_pos_right T hLease
      simp [OutboxEventRow.markable, OutboxEventRow.held, OutboxEventRow.claim, OutboxEventRow.load, hFree,
        Readings.instant, hLive]
  obtain ⟨u, hMarks, hu, hSame, hOthers, hCount⟩ := (hs.step hStep).marks ht hIDs hHeld
  refine ⟨_, u, .publish hStep hReply hMarks, hu, hSame.trans hDeliveries, ?_⟩
  by_cases hChosen : event.chosen (.instant T) tuning.claimLimit s.db = true
  · left
    rw [List.map_map]
    exact List.mem_map_of_mem (List.mem_filter.mpr ⟨hEvent, hChosen⟩)
  · right
    constructor
    · refine hOthers event ?_ fun hID => hChosen ?_
      · rw [hEvents]
        exact mem_updateWhere.mpr ⟨event, hEvent, if_neg hChosen⟩
      · rw [List.map_map] at hID
        obtain ⟨row, hRow, hRowID⟩ := List.mem_map.mp hID
        obtain ⟨hMem, hRowChosen⟩ := List.mem_filter.mp hRow
        exact List.inj_on_of_nodup_map hs.integrity.eventIDs hMem hEvent hRowID ▸ hRowChosen
    · obtain ⟨first, hFirst, hFirstChosen⟩ := OutboxEventRow.exists_chosen tuning.claim_pos hEvent hClaimable
      refine hCount.trans_lt ?_
      rw [hEvents]
      refine countP_map_lt (fun row hRow hAfter => ?_) hFirst
        (first.claimable_of_chosen hs.integrity hFirst hFirstChosen) ?_
      · split at hAfter
        · rw [OutboxEventRow.not_claimable_claim hLease] at hAfter
          cases hAfter
        · exact hAfter
      · rw [if_pos hFirstChosen]
        exact OutboxEventRow.not_claimable_claim hLease

end Store

end ReliableNotifier
