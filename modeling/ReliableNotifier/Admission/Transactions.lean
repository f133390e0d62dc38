import ReliableNotifier.Admission.Interference

/-! # What a transaction knows

While a call holds the admission lock no other call commits. What its statements read
therefore still holds when it commits: the key is free, the rows it wrote clash with
nothing, and the row it found is the row of the key.
-/

namespace ReliableNotifier.Admission

open Checked RowTable Interleaving LabelledRun

def Call.key (call : Call) : String × String := (call.submission.callerID, call.submission.idempotencyKey)

/-- The row clashes with nothing in the tables, and what it refers to is there. -/
structure Insertable (row : DeliveryRow) (db : Database) : Prop where
  key : ∀ other ∈ db.deliveries, other.callerKey ≠ row.callerKey
  fresh : ∀ other ∈ db.deliveries, other.id ≠ row.id
  version : ∃ version ∈ db.destinationVersions,
    version.destinationID = row.destinationID ∧ version.version = row.destinationVersion
  lease : row.leaseTupleConsistent = true

namespace Call

variable {call : Call} {r : Readings} {drawn : Drawn} {db : Database} {phase next : Phase} {error : StoreError}

/-- The statements that go through. -/
inductive Next (call : Call) (r : Readings) (drawn : Drawn) (db : Database) : Phase → Phase → Prop
  | missing (hNone : ∀ row ∈ db.deliveries, row.callerKey ≠ call.key) : Next call r drawn db .locked .missing
  | found {existing : DeliveryRow} (hMem : existing ∈ db.deliveries) (hKey : existing.callerKey = call.key)
      (hHash : existing.requestHash = call.submission.requestHash) :
      Next call r drawn db .locked (.found existing)
  | admitted (hLimit : db.activeCount < call.backlogLimit) : Next call r drawn db .missing (.admitted drawn)
  | inserted {own : Drawn} (hRow : Insertable (call.submission.row r own.deliveryID) db) :
      Next call r drawn db (.admitted own) (.inserted own (call.submission.row r own.deliveryID))
  | filled {own : Drawn} {row : DeliveryRow} (hEvent : ∀ other ∈ db.outboxEvents, other.id ≠ own.outboxID) :
      Next call r drawn db (.inserted own row)
        (.filled row (call.submission.event r own.deliveryID own.outboxID own.traceID))

theorem next_of_statement (h : call.statement r drawn db phase = some (.ok next)) :
    call.Next r drawn db phase next := by
  cases phase with
  | locked =>
    simp only [statement, Database.deliveryByIdempotency_eq] at h
    split at h
    · rename_i existing hFound
      split at h
      · cases h
      · rename_i hHash
        cases h
        exact .found (mem_of_lookup _ hFound) (key_of_lookup _ hFound) (not_not.mp hHash)
    · rename_i hNone
      cases h
      exact .missing ((lookup_eq_none_iff _).mp hNone)
  | missing =>
    simp only [statement] at h
    split at h
    · cases h
    · rename_i hLimit
      cases h
      exact .admitted (not_le.mp hLimit)
  | admitted own =>
    obtain ⟨_, hInsert, hNext⟩ := bind_ok_iff.mp (Option.some.inj h)
    cases hNext
    obtain ⟨hID, hKey, hVersion, hLease, _⟩ := Database.insertDelivery_ok hInsert
    exact .inserted ⟨fun other hOther hSame => hKey other hOther (Prod.mk.inj hSame), hID, hVersion, hLease⟩
  | inserted own row =>
    obtain ⟨_, hInsert, hNext⟩ := bind_ok_iff.mp (Option.some.inj h)
    cases hNext
    exact .filled (Database.insertEvent_ok hInsert).1
  | begun | filled | found => cases h

/-- A statement fails for another hash, for a full backlog, or because an insert does. -/
inductive Refusal (call : Call) (r : Readings) (db : Database) : Phase → StoreError → Prop
  | conflict {existing : DeliveryRow} (hMem : existing ∈ db.deliveries) (hKey : existing.callerKey = call.key)
      (hHash : existing.requestHash ≠ call.submission.requestHash) :
      Refusal call r db .locked .idempotencyConflict
  | capacity (hLimit : call.backlogLimit ≤ db.activeCount) : Refusal call r db .missing .backlogCapacity
  | delivery {own : Drawn} {error : StoreError}
      (hInsert : db.insertDelivery (call.submission.row r own.deliveryID) = .error error) :
      Refusal call r db (.admitted own) error
  | event {own : Drawn} {row : DeliveryRow} {error : StoreError}
      (hInsert : { db with deliveries := db.deliveries ++ [row] }.insertEvent
        (call.submission.event r own.deliveryID own.outboxID own.traceID) = .error error) :
      Refusal call r db (.inserted own row) error

theorem refusal_of_statement (h : call.statement r drawn db phase = some (.error error)) :
    call.Refusal r db phase error := by
  cases phase with
  | locked =>
    simp only [statement, Database.deliveryByIdempotency_eq] at h
    split at h
    · rename_i existing hFound
      split at h
      · rename_i hHash
        cases h
        exact .conflict (mem_of_lookup _ hFound) (key_of_lookup _ hFound) hHash
      · cases h
    · cases h
  | missing =>
    simp only [statement] at h
    split at h
    · rename_i hLimit
      cases h
      exact .capacity hLimit
    · cases h
  | admitted own =>
    rcases bind_error_iff.mp (Option.some.inj h) with hInsert | ⟨_, _, hNext⟩
    · exact .delivery hInsert
    · cases hNext
  | inserted own row =>
    rcases bind_error_iff.mp (Option.some.inj h) with hInsert | ⟨_, _, hNext⟩
    · exact .event hInsert
    · cases hNext
  | begun | filled | found => cases h

end Call

variable {call : Call} {r : Readings} {drawn : Drawn} {phase next : Phase} {s t : Store} {row : DeliveryRow}

theorem Interference.key_origin (h : Interference s t) {row' : DeliveryRow} (hRow' : row' ∈ t.db.deliveries) :
    ∃ row ∈ s.db.deliveries, row'.callerKey = row.callerKey ∧ row'.id = row.id ∧
      row'.requestHash = row.requestHash := by
  obtain ⟨row, hRow, hSame⟩ := h.origin row' hRow'
  exact ⟨row, hRow, DeliveryRow.of_identity _ (fun _ => rfl) hSame, DeliveryRow.of_identity _ (fun _ => rfl) hSame,
    DeliveryRow.of_identity _ (fun _ => rfl) hSame⟩

theorem Insertable.mono (hRow : Insertable row s.db) (h : Interference s t) : Insertable row t.db where
  key other hOther hSame := by
    obtain ⟨old, hOld, hKey, _⟩ := h.key_origin hOther
    exact hRow.key old hOld (hKey.symm.trans hSame)
  fresh other hOther hSame := by
    obtain ⟨old, hOld, _, hID, _⟩ := h.key_origin hOther
    exact hRow.fresh old hOld (hID.symm.trans hSame)
  version := hRow.version.imp fun _ ⟨hVersion, hSame⟩ => ⟨h.versions hVersion, hSame⟩
  lease := hRow.lease

/-- What the statements of a transaction have established. -/
def Phase.Sound (call : Call) (s : Store) : Phase → Prop
  | .begun | .locked => True
  | .missing => ∀ row ∈ s.db.deliveries, row.callerKey ≠ call.key
  | .admitted drawn => (∀ row ∈ s.db.deliveries, row.callerKey ≠ call.key) ∧ drawn.outboxID ∈ s.issued
  | .inserted drawn row => Insertable row s.db ∧ (∃ r, row = call.submission.row r drawn.deliveryID) ∧
      drawn.outboxID ∈ s.issued
  | .filled row event => Insertable row s.db ∧ (∃ r, row = call.submission.row r row.id) ∧ event.id ∈ s.issued ∧
      (∀ other ∈ s.db.outboxEvents, other.id ≠ event.id) ∧
      ∃ r outboxID traceID, event = call.submission.event r row.id outboxID traceID
  | .found existing => existing.callerKey = call.key ∧ existing.requestHash = call.submission.requestHash

theorem Phase.Sound.mono (hPhase : phase.Sound call s) (h : Interference s t) : phase.Sound call t := by
  have hFree (hNone : ∀ row ∈ s.db.deliveries, row.callerKey ≠ call.key) :
      ∀ row ∈ t.db.deliveries, row.callerKey ≠ call.key := by
    intro row hRow hSame
    obtain ⟨old, hOld, hKey, _⟩ := h.key_origin hRow
    exact hNone old hOld (hKey.symm.trans hSame)
  cases phase with
  | begun | locked => trivial
  | missing => exact hFree hPhase
  | admitted drawn => exact ⟨hFree hPhase.1, h.issued hPhase.2⟩
  | inserted drawn row => exact ⟨hPhase.1.mono h, hPhase.2.1, h.issued hPhase.2.2⟩
  | filled row event =>
    obtain ⟨hRow, hOwn, hIssued, hFresh, hEvent⟩ := hPhase
    refine ⟨hRow.mono h, hOwn, h.issued hIssued, fun other hOther hSame => ?_, hEvent⟩
    rcases h.events other hOther with ⟨old, hOld, hID⟩ | hNew
    · exact hFresh old hOld (hID.trans hSame)
    · exact hNew (hSame ▸ hIssued)
  | found existing => exact hPhase

/-- A statement that goes through establishes what the next one rests on. -/
theorem Phase.Sound.advance (hPhase : phase.Sound call s) (hNext : call.Next r drawn s.db phase next)
    (hDb : t.db = s.db) (hIssued : t.issued = Call.draws drawn phase ++ s.issued) : next.Sound call t := by
  have hOld : s.issued ⊆ t.issued := hIssued ▸ List.subset_append_right _ _
  cases hNext with
  | missing hNone => exact fun row hRow => hNone row (hDb ▸ hRow)
  | found _ hKey hHash => exact ⟨hKey, hHash⟩
  | admitted => exact ⟨hDb ▸ hPhase, by simp [hIssued, Call.draws, Drawn.ids]⟩
  | inserted hRow => exact ⟨hDb ▸ hRow, ⟨r, rfl⟩, hOld hPhase.2⟩
  | filled hEvent =>
    obtain ⟨hRow, ⟨r', rfl⟩, hDrawn⟩ := hPhase
    exact ⟨hDb ▸ hRow, ⟨r', rfl⟩, hOld hDrawn, hDb ▸ hEvent, r, _, _, rfl⟩

/-- The key is free when the delivery is inserted. -/
theorem Phase.Sound.refusal {error : StoreError} (hPhase : phase.Sound call s)
    (h : call.Refusal r s.db phase error) : error ≠ .constraint .callerIdempotencyKey := by
  cases h with
  | conflict | capacity =>
    intro h
    cases h
  | delivery hInsert =>
    rintro rfl
    obtain ⟨other, hOther, hSame⟩ := Database.insertDelivery_duplicate hInsert
    exact hPhase.1 other hOther (Prod.ext hSame.1 hSame.2)
  | event hInsert =>
    rintro rfl
    exact Database.insertEvent_refused hInsert

/-! ## Commits -/

theorem Label.created_of_origin {label : Label}
    (h : ∀ row' ∈ label.after.deliveries, ∃ row ∈ label.before.deliveries, row'.id = row.id) : label.created = [] := by
  refine List.filter_eq_nil_iff.mpr fun row' hRow' hNew => ?_
  obtain ⟨row, hRow, hID⟩ := h row' hRow'
  exact of_decide_eq_true (List.all_eq_true.mp hNew row hRow) hID.symm

/-- The tables after the commit of a new submission. -/
def withSubmission (row : DeliveryRow) (event : OutboxEventRow) (db : Database) : Database :=
  { db with deliveries := db.deliveries ++ [row], outboxEvents := db.outboxEvents ++ [event] }

/-- What a commit does. -/
inductive Call.Commit (call : Call) (db : Database) : Phase → Delivery → Database → Prop
  | found (existing : DeliveryRow) : Commit call db (.found existing) existing.load db
  | filled {row : DeliveryRow} {event : OutboxEventRow} (hRow : Insertable row db) (hKey : row.callerKey = call.key)
      (hHash : row.requestHash = call.submission.requestHash)
      (hEvent : ∀ other ∈ db.outboxEvents, other.id ≠ event.id) (hOwner : event.deliveryID = row.id)
      (hFirst : event.generation = 0) (hLease : event.leaseIsComplete = true) :
      Commit call db (.filled row event) (call.submission.accepted row.id) (withSubmission row event db)

theorem Phase.Sound.commit {reply : Delivery} {db : Database} (hPhase : phase.Sound call s)
    (h : call.finish s.db phase = some (reply, db)) : call.Commit s.db phase reply db := by
  cases phase with
  | found existing =>
    cases h
    exact .found existing
  | filled row event =>
    obtain ⟨hRow, ⟨r', hOwn⟩, _, hFresh, r, outboxID, traceID, rfl⟩ := hPhase
    cases h
    exact .filled hRow (by rw [hOwn]; rfl) (by rw [hOwn]; rfl) hFresh rfl rfl rfl
  | begun | locked | missing | admitted | inserted => cases h

variable {db db' : Database} {reply : Delivery}

theorem Call.Commit.integrity (h : call.Commit db phase reply db') (hDb : Integrity db) : Integrity db' := by
  cases h with
  | found => exact hDb
  | @filled row event hRow _ _ hEvent hOwner _ hLease =>
    have hRows := hDb.addDelivery hRow.fresh
      (fun other hOther hSame => hRow.key other hOther (Prod.ext hSame.1 hSame.2)) hRow.version hRow.lease
    refine hRows.addEvent hEvent (fun other hOther => ?_)
      ⟨row, List.mem_append_right _ (List.mem_singleton_self row), hOwner.symm⟩ hLease
    obtain ⟨delivery, hDelivery, hID⟩ := hDb.eventOwners other hOther
    have hApart : event.deliveryID ≠ other.deliveryID := hID ▸ hOwner ▸ (hRow.fresh delivery hDelivery).symm
    simp [OutboxEventRow.sameSlot, hApart]

theorem Call.Commit.rows_subset (h : call.Commit db phase reply db') : db.deliveries ⊆ db'.deliveries := by
  cases h with
  | found => exact List.Subset.refl _
  | filled => exact List.subset_append_left _ _

theorem Call.Commit.started (h : call.Commit db phase reply db') (hDb : Integrity db)
    (hStarted : ∀ id, (db.dossier id).Started) (id : UUID) : (db'.dossier id).Started := by
  have hDb' := h.integrity hDb
  cases h with
  | found => exact hStarted id
  | @filled row event _ _ _ _ hOwner hFirst =>
    intro row' hRow'
    obtain ⟨hMem, hID⟩ := hDb'.dossier_row_iff.mp hRow'
    rcases List.mem_append.mp hMem with hOld | hNew
    · obtain ⟨first, hEvent, hGeneration⟩ := hStarted id row' (hDb.dossier_row_iff.mpr ⟨hOld, hID⟩)
      obtain ⟨hEvent, hSame⟩ := (mem_owned _).mp hEvent
      exact ⟨first, (mem_owned _).mpr ⟨List.mem_append_left _ hEvent, hSame⟩, hGeneration⟩
    · rw [List.mem_singleton.mp hNew] at hID
      exact ⟨event, (mem_owned _).mpr ⟨List.mem_append_right _ (List.mem_singleton_self event), hOwner.trans hID⟩,
        hFirst⟩

end ReliableNotifier.Admission
