import ReliableNotifier.Lifecycle.Automaton

/-! # The events of a delivery over its generations

An event is inserted for the current generation of its delivery and never before that
generation is due, except for the first. It stays behind when the generation moves on.
-/

namespace ReliableNotifier

open RowTable

variable {r : Readings}

namespace OutboxEventRow

def Unleased (event : OutboxEventRow) : Prop :=
  event.leaseOwner = none ∧ event.leaseToken = none ∧ event.leaseUntil = none

/-- The row as an insert leaves it. -/
def Untouched (event : OutboxEventRow) : Prop := event.publishedAt = none ∧ event.Unleased

theorem held_iff {event : OutboxEventRow} {held : OutboxEvent} :
    event.held held = true ↔ event.id = held.id ∧ event.publishedAt = none ∧
      event.leaseOwner = some held.leaseOwner ∧ event.leaseToken = some held.leaseToken := by
  simp only [OutboxEventRow.held, Bool.and_eq_true, decide_eq_true_eq, and_assoc]

end OutboxEventRow

/-- The row stays in its generation and is no longer pending. -/
structure DeliveryRow.Left (r : Readings) (row row' : DeliveryRow) : Prop where
  generation : row'.generation = row.generation
  status : row'.status ≠ .pending
  opened : row.status = .pending → row.nextAttemptAt ≤ r.finish ∨ row.retryDeadline ≤ r.finish

/-- The row goes on to its next generation. -/
structure DeliveryRow.Renewed (r : Readings) (row row' : DeliveryRow) : Prop where
  generation : row'.generation = row.generation + 1
  before : row.status ≠ .pending
  status : row'.status = .pending
  inside : row'.nextAttemptAt ≤ r.finish ∨ row'.nextAttemptAt < row'.retryDeadline

namespace Dossier

variable {op : Op} {d d' : Dossier} {row' : DeliveryRow} {event' : OutboxEventRow}

theorem Move.row_origin (h : Move r op d d') (hTimely : op.Timely r) (hRow' : d'.row = some row') :
    (d.row = none ∧ ∃ backlogLimit submission deliveryID outboxID traceID,
      op = .submit backlogLimit submission deliveryID outboxID traceID ∧ row' = submission.row r deliveryID) ∨
    ∃ row, d.row = some row ∧ (row' = row ∨ row.Left r row' ∨ row.Renewed r row') := by
  cases h with
  | submit =>
    cases hRow'
    exact .inl ⟨rfl, _, _, _, _, _, rfl, rfl⟩
  | events _ => exact .inr ⟨_, rfl, .inl (Option.some.inj hRow').symm⟩
  | @claim row _ _ _ _ _ _ hDue =>
    cases hRow'
    obtain ⟨_, _, _, hNext, _⟩ := DeliveryRow.due_iff.mp hDue
    exact .inr ⟨row, rfl, .inr (.inl ⟨rfl, nofun, fun _ => .inl (hNext.trans (r.scan_le_finish _ _))⟩)⟩
  | @complete row _ _ _ completion result _ hFenced =>
    cases hRow'
    obtain ⟨_, _, hDelivering, _, _, _, hRetry⟩ := DeliveryRow.fenced_iff.mp hFenced
    have hBefore : row.status ≠ .pending := by simp [hDelivering]
    refine .inr ⟨row, rfl, .inr ?_⟩
    cases completion with
    | retry next =>
      obtain ⟨_, hNext, hInside⟩ := hRetry rfl
      cases hNext
      exact .inr ⟨rfl, hBefore, rfl, .inr hInside⟩
    | success | permanent => exact .inl ⟨rfl, nofun, fun h => absurd h hBefore⟩
  | @expire row _ _ _ _ _ _ _ hPast =>
    cases hRow'
    have hDeadline := (DeliveryRow.pastDeadline_iff.mp hPast).2
    exact .inr ⟨row, rfl, .inr (.inl ⟨rfl, nofun, fun _ => .inr (hDeadline.trans r.statement_le_finish)⟩)⟩
  | schedule => exact .inr ⟨_, rfl, .inl (Option.some.inj hRow').symm⟩
  | @recover row _ _ _ _ _ _ _ _ hExpired hDeadline =>
    cases hRow'
    have hBefore : row.status ≠ .pending := by simp [(DeliveryRow.leaseExpired_iff.mp hExpired).1]
    refine .inr ⟨row, rfl, .inr (.inr ⟨?_, hBefore, ?_, .inl (r.write_le_finish _ _)⟩)⟩ <;>
      simp only [DeliveryRow.recover, if_neg (not_le.mpr hDeadline)]
  | @abandon row _ _ _ _ _ _ _ _ hExpired hDeadline =>
    cases hRow'
    have hBefore : row.status ≠ .pending := by simp [(DeliveryRow.leaseExpired_iff.mp hExpired).1]
    refine .inr ⟨row, rfl, .inr (.inl ⟨?_, ?_, fun h => absurd h hBefore⟩)⟩ <;>
      simp [DeliveryRow.recover, if_pos hDeadline]
  | @replay row _ _ _ _ _ _ _ _ _ hFailed =>
    cases hRow'
    have hReplayed : _ ≤ r.finish := le_trans hTimely r.statement_le_finish
    exact .inr ⟨row, rfl, .inr (.inr ⟨rfl, by simp [hFailed], rfl, .inl hReplayed⟩)⟩
  | delete => cases hRow'

theorem Move.row_follows {row : DeliveryRow} (h : Move r op d d') (hTimely : op.Timely r) (hRow : d.row = some row)
    (hRow' : d'.row = some row') : row' = row ∨ row.Left r row' ∨ row.Renewed r row' := by
  rcases h.row_origin hTimely hRow' with ⟨hNone, _⟩ | ⟨other, hOther, hKind⟩
  · rw [hRow] at hNone
    cases hNone
  · obtain rfl := Option.some.inj (hRow.symm.trans hOther)
    exact hKind

end Dossier

/-- An event as it is inserted for the current generation of `row`. -/
structure DeliveryRow.Launches (r : Readings) (row : DeliveryRow) (event : OutboxEventRow) : Prop where
  untouched : event.Untouched
  pending : row.status = .pending
  generation : event.generation = row.generation
  available : row.nextAttemptAt ≤ event.availableAt
  soon : 0 < row.generation → event.availableAt ≤ r.finish

theorem DeliveryRow.Launches.due {row : DeliveryRow} {event : OutboxEventRow} (h : row.Launches r event)
    (hGeneration : 0 < row.generation) : row.nextAttemptAt ≤ r.finish :=
  h.available.trans (h.soon hGeneration)

/-- At the instant of its insert an event can be claimed, except for that of a first generation. -/
theorem DeliveryRow.Launches.claimable {T : Time} {row : DeliveryRow} {event : OutboxEventRow}
    (h : row.Launches (.instant T) event) (hGeneration : 0 < row.generation) :
    event.claimable (.instant T) = true :=
  OutboxEventRow.claimable_iff.mpr ⟨h.untouched.1, h.soon hGeneration, .inl h.untouched.2.2.2⟩

/-- An event after a move is an event before it, or new. -/
theorem Dossier.Move.event_origin {op : Op} {d d' : Dossier} {event' : OutboxEventRow} (h : Move r op d d')
    (hTimely : op.Timely r) (hEvent : event' ∈ d'.events) :
    (∃ row event, d.row = some row ∧ event ∈ d.events ∧ EventMove r row op event event') ∨
      ∃ row', d'.row = some row' ∧ row'.Launches r event' := by
  cases h with
  | submit =>
    rw [List.mem_singleton.mp hEvent]
    exact .inr ⟨_, rfl, ⟨rfl, rfl, rfl, rfl⟩, rfl, rfl, le_rfl, fun h => absurd h (lt_irrefl 0)⟩
  | events hEvents =>
    obtain ⟨event, hOld, rfl⟩ := List.mem_map.mp hEvent
    exact .inl ⟨_, event, rfl, hOld, hEvents event hOld⟩
  | claim | complete | expire | abandon => exact .inl ⟨_, event', rfl, hEvent, .keep _ _⟩
  | schedule hPending hDue =>
    rcases List.mem_append.mp hEvent with hOld | hNew
    · exact .inl ⟨_, event', rfl, hOld, .keep _ _⟩
    · rw [List.mem_singleton.mp hNew]
      exact .inr ⟨_, rfl, ⟨rfl, rfl, rfl, rfl⟩, hPending, rfl, le_rfl, fun _ => hDue.trans (r.scan_le_finish _ _)⟩
  | recover _ hDeadline =>
    rcases mem_addMissing hEvent with hOld | rfl
    · exact .inl ⟨_, event', rfl, hOld, .keep _ _⟩
    · exact .inr ⟨_, rfl, ⟨rfl, rfl, rfl, rfl⟩, if_neg (not_le.mpr hDeadline), rfl, r.write_mono _ (Nat.zero_le 1),
        fun _ => r.write_le_finish _ _⟩
  | replay =>
    rcases List.mem_append.mp hEvent with hOld | hNew
    · exact .inl ⟨_, event', rfl, hOld, .keep _ _⟩
    · rw [List.mem_singleton.mp hNew]
      exact .inr ⟨_, rfl, ⟨rfl, rfl, rfl, rfl⟩, rfl, rfl, le_rfl, fun _ => le_trans hTimely r.statement_le_finish⟩
  | delete => cases hEvent

theorem EventMove.unleased {op : Op} {row : DeliveryRow} {event event' : OutboxEventRow}
    (h : EventMove r row op event event') (hBefore : event.publishedAt ≠ none → event.Unleased)
    (hPublished : event'.publishedAt ≠ none) : event'.Unleased := by
  cases h with
  | keep => exact hBefore hPublished
  | claim hClaimable =>
    exact absurd (OutboxEventRow.claimable_iff.mp hClaimable).1 hPublished
  | mark => exact ⟨rfl, rfl, rfl⟩
  | release => exact ⟨rfl, rfl, rfl⟩
  | observe => exact hBefore hPublished
  | reset => exact absurd rfl hPublished

/-- A move of an event can only make it available later than `a`, if the delivery is not due before `a`. -/
theorem EventMove.available {op : Op} {row : DeliveryRow} {event event' : OutboxEventRow} {a : Time}
    (h : EventMove r row op event event') (hBefore : a ≤ event.availableAt)
    (hFixed : row.generation = event.generation → row.status = .pending → a ≤ row.nextAttemptAt) :
    a ≤ event'.availableAt := by
  cases h with
  | keep | claim | mark | release | observe => exact hBefore
  | reset hGeneration hPending hDue =>
    exact (hFixed hGeneration hPending).trans (hDue.trans (r.scan_le_write _ _ _))

/-- Only `MarkOutboxPublished` sets `published_at`, for a row that carries its token. -/
theorem EventMove.published {op : Op} {row : DeliveryRow} {event event' : OutboxEventRow}
    (h : EventMove r row op event event') (hBefore : event.publishedAt = none)
    (hAfter : event'.publishedAt ≠ none) :
    ∃ held, op = .markOutboxPublished held ∧ event.held held = true := by
  cases h with
  | mark hHeld _ => exact ⟨_, rfl, hHeld⟩
  | keep | claim | release | observe => exact absurd hBefore hAfter
  | reset => exact absurd rfl hAfter

/-- No event is ahead of its delivery, and none of a pending generation is available before it is due. -/
structure Dossier.Paced (d : Dossier) : Prop where
  bounded : ∀ row, d.row = some row → ∀ event ∈ d.events, event.generation ≤ row.generation
  available : ∀ row, d.row = some row → row.status = .pending →
    ∀ event ∈ d.events, event.generation = row.generation → row.nextAttemptAt ≤ event.availableAt

/-- An event of a delivery that is there after a move, with what became of the row. -/
theorem Dossier.Move.event_cases {op : Op} {d d' : Dossier} {row' : DeliveryRow} {event' : OutboxEventRow}
    (h : Move r op d d') (hTimely : op.Timely r) (hRow' : d'.row = some row') (hEvent' : event' ∈ d'.events) :
    (∃ row event, d.row = some row ∧ event ∈ d.events ∧ EventMove r row op event event' ∧
      (row' = row ∨ row.Left r row' ∨ row.Renewed r row')) ∨ row'.Launches r event' := by
  rcases h.event_origin hTimely hEvent' with ⟨row, event, hRow, hOld, hMove⟩ | ⟨row, hRow, hNew⟩
  · exact .inl ⟨row, event, hRow, hOld, hMove, h.row_follows hTimely hRow hRow'⟩
  · obtain rfl := Option.some.inj (hRow.symm.trans hRow')
    exact .inr hNew

/-- The events of a generation that a move creates are inserted by that move. -/
theorem Dossier.Move.launches {op : Op} {d d' : Dossier} {row' : DeliveryRow} {event' : OutboxEventRow}
    (h : Move r op d d') (hTimely : op.Timely r) (hPaced : d.Paced) (hRow' : d'.row = some row')
    (hNew : ∀ row, d.row = some row → row.generation ≠ row'.generation) (hEvent' : event' ∈ d'.events)
    (hSame : event'.generation = row'.generation) : row'.Launches r event' := by
  rcases h.event_cases hTimely hRow' hEvent' with ⟨row, event, hRow, hEvent, hEventMove, hKind⟩ | hLaunches
  · have hBound := hPaced.bounded row hRow event hEvent
    rw [hEventMove.generation_eq] at hSame
    rcases hKind with rfl | hLeft | hRenewed
    · exact absurd rfl (hNew _ hRow)
    · exact absurd hLeft.generation.symm (hNew _ hRow)
    · have hNext := hRenewed.generation
      omega
  · exact hLaunches

theorem Dossier.Move.paced {op : Op} {d d' : Dossier} (h : Move r op d d') (hTimely : op.Timely r)
    (hPaced : d.Paced) : d'.Paced := by
  constructor
  · intro row' hRow' event' hEvent'
    rcases h.event_cases hTimely hRow' hEvent' with ⟨row, event, hRow, hOld, hMove, hKind⟩ | hNew
    · have hBound := hPaced.bounded row hRow event hOld
      rw [hMove.generation_eq]
      rcases hKind with rfl | hLeft | hRenewed
      · exact hBound
      · exact hLeft.generation ▸ hBound
      · exact hRenewed.generation ▸ hBound.trans (Nat.le_succ _)
    · exact hNew.generation.le
  · intro row' hRow' hPending event' hEvent' hGeneration
    rcases h.event_cases hTimely hRow' hEvent' with ⟨row, event, hRow, hOld, hMove, hKind⟩ | hNew
    · have hBound := hPaced.bounded row hRow event hOld
      rw [hMove.generation_eq] at hGeneration
      rcases hKind with rfl | hLeft | hRenewed
      · exact hMove.available (hPaced.available _ hRow hPending event hOld hGeneration) fun _ _ => le_rfl
      · exact absurd hPending hLeft.status
      · have := hRenewed.generation
        omega
    · exact hNew.available

def Op.isRetention : Op → Bool
  | deleteExpiredTerminal _ _ _ _ => true
  | _ => false

/-- Only retention removes an event, with all the events of its delivery. -/
theorem Dossier.Move.event_moves {op : Op} {d d' : Dossier} {event : OutboxEventRow} (h : Move r op d d')
    (hEvent : event ∈ d.events) :
    (∃ row, ∃ event' ∈ d'.events, EventMove r row op event event') ∨ op.isRetention = true ∧ d'.events = [] := by
  cases h with
  | submit => cases hEvent
  | @events _ row _ _ _ f hEvents => exact .inl ⟨row, f event, List.mem_map_of_mem hEvent, hEvents event hEvent⟩
  | claim | complete | expire | abandon => exact .inl ⟨‹DeliveryRow›, event, hEvent, .keep _ _⟩
  | schedule | replay => exact .inl ⟨‹DeliveryRow›, event, List.mem_append_left _ hEvent, .keep _ _⟩
  | recover => exact .inl ⟨‹DeliveryRow›, event, subset_addMissing hEvent, .keep _ _⟩
  | delete => exact .inr ⟨rfl, rfl⟩

/-- A delivery has an event for its first generation. -/
def Dossier.Started (d : Dossier) : Prop := ∀ row, d.row = some row → ∃ event ∈ d.events, event.generation = 0

theorem Dossier.Move.started {op : Op} {d d' : Dossier} (h : Move r op d d') (hStarted : d.Started) : d'.Started := by
  intro row' hRow'
  cases h with
  | submit => exact ⟨_, List.mem_singleton_self _, rfl⟩
  | events hEvents =>
    obtain ⟨event, hEvent, hFirst⟩ := hStarted _ rfl
    exact ⟨_, List.mem_map_of_mem hEvent, (hEvents event hEvent).generation_eq.trans hFirst⟩
  | claim | complete | expire | abandon => exact hStarted _ rfl
  | schedule | replay =>
    obtain ⟨event, hEvent, hFirst⟩ := hStarted _ rfl
    exact ⟨event, List.mem_append_left _ hEvent, hFirst⟩
  | recover =>
    obtain ⟨event, hEvent, hFirst⟩ := hStarted _ rfl
    exact ⟨event, subset_addMissing hEvent, hFirst⟩
  | delete => cases hRow'

namespace Store

variable {s t : Store} {action : Action} {event event' : OutboxEventRow}

theorem Step.event_origin (hDb : Integrity s.db) (h : Step s action t) (hEvent : event' ∈ t.db.outboxEvents) :
    event' ∈ s.db.outboxEvents ∨
    (∃ r op row event, action = .commit r op ∧ event ∈ s.db.outboxEvents ∧
      (s.db.dossier event.deliveryID).row = some row ∧ EventMove r row op event event') ∨
    event'.Untouched := by
  have hMem : event' ∈ (t.db.dossier event'.deliveryID).events := (mem_owned _).mpr ⟨hEvent, rfl⟩
  cases h.advance hDb event'.deliveryID with
  | stay _ _ hSame =>
    rw [hSame] at hMem
    exact .inl ((mem_owned _).mp hMem).1
  | move _ _ hTimely _ _ hMove =>
    rcases hMove.event_origin hTimely hMem with ⟨row, event, hRow, hOld, hEventMove⟩ | ⟨_, _, hNew⟩
    · obtain ⟨hOld, hOwner⟩ := (mem_owned _).mp hOld
      exact .inr (.inl ⟨_, _, row, event, rfl, hOld, by rw [hOwner]; exact hRow, hEventMove⟩)
    · exact .inr (.inr hNew.untouched)

theorem Step.event_stays (hDb : Integrity s.db) (h : Step s action t) (hEvent : event ∈ s.db.outboxEvents) :
    (∃ event' ∈ t.db.outboxEvents, event'.id = event.id ∧
      (event' = event ∨ ∃ r op row, action = .commit r op ∧ EventMove r row op event event')) ∨
    ∃ r op, action = .commit r op ∧ op.isRetention = true ∧
      ∀ event' ∈ t.db.outboxEvents, event'.deliveryID ≠ event.deliveryID := by
  have hMem : event ∈ (s.db.dossier event.deliveryID).events := (mem_owned _).mpr ⟨hEvent, rfl⟩
  cases h.advance hDb event.deliveryID with
  | stay _ _ hSame =>
    rw [← hSame] at hMem
    exact .inl ⟨event, ((mem_owned _).mp hMem).1, rfl, .inl rfl⟩
  | move _ _ _ _ _ hMove =>
    rcases hMove.event_moves hMem with ⟨row, event', hEvent', hEventMove⟩ | ⟨hRetention, hNone⟩
    · exact .inl ⟨event', ((mem_owned _).mp hEvent').1, congrArg Prod.fst hEventMove.identity_eq,
        .inr ⟨_, _, row, rfl, hEventMove⟩⟩
    · refine .inr ⟨_, _, rfl, hRetention, fun event' hEvent' hOwner => ?_⟩
      have hLeft : event' ∈ (t.db.dossier event.deliveryID).events := (mem_owned _).mpr ⟨hEvent', hOwner⟩
      rw [hNone] at hLeft
      cases hLeft

/-- A delivery that is there after a step, though its identifier is old, was there before. -/
theorem Step.row_origin {id : UUID} {row' : DeliveryRow} (hs : s.Reachable) (h : Step s action t)
    (hIssued : id ∈ s.issued) (hRow' : (t.db.dossier id).row = some row') :
    ∃ row, (s.db.dossier id).row = some row ∧
      (row' = row ∨ ∃ r, t.now = r.finish ∧ (row.Left r row' ∨ row.Renewed r row')) := by
  cases h.advance hs.integrity id with
  | stay _ _ hSame => exact ⟨row', hSame ▸ hRow', .inl rfl⟩
  | @move r op _ hNow hTimely _ _ hMove =>
    rcases hMove.row_origin hTimely hRow' with ⟨hNone, _⟩ | ⟨row, hRow, hSame | hKind⟩
    · have hAbsent := h.not_created hs hIssued (by rw [Database.phase, Dossier.phase, hNone]; rfl)
      rw [phase_of_row hRow'] at hAbsent
      cases hAbsent
    · exact ⟨row, hRow, .inl hSame⟩
    · exact ⟨row, hRow, .inr ⟨r, hNow, hKind⟩⟩

theorem Reachable.paced (hs : s.Reachable) (id : UUID) : (s.db.dossier id).Paced :=
  Reachable.dossier_invariant (I := fun _ d => d.Paced)
    (fun _ => ⟨fun _ h => (by cases h), fun _ h => (by cases h)⟩) (fun _ h => h)
    (fun _ hTimely hMove hPaced => hMove.paced hTimely hPaced) hs id

theorem Reachable.first_event (hs : s.Reachable) {id : UUID} {row : DeliveryRow}
    (hRow : (s.db.dossier id).row = some row) : ∃ event ∈ (s.db.dossier id).events, event.generation = 0 :=
  Reachable.dossier_invariant (I := fun _ d => d.Started) (fun _ _ h => by cases h) (fun _ h => h)
    (fun _ _ hMove hStarted => hMove.started hStarted) hs id row hRow

theorem Reachable.updated_le (hs : s.Reachable) {id : UUID} {row : DeliveryRow}
    (hRow : (s.db.dossier id).row = some row) : row.updatedAt ≤ s.now := by
  refine Reachable.dossier_invariant (I := fun now d => ∀ row, d.row = some row → row.updatedAt ≤ now)
    (fun _ _ h => by cases h) (fun hNow h row hRow => (h row hRow).trans hNow) ?_ hs id row hRow
  intro now r op d d' hClock hTimely hMove hI row' hRow'
  have hNow := hClock.trans r.statement_le_finish
  cases hMove with
  | events | schedule => exact (hI _ hRow').trans hNow
  | submit | claim | complete | expire | recover | abandon =>
    cases hRow'
    exact r.write_le_finish _ _
  | replay =>
    cases hRow'
    exact le_trans hTimely r.statement_le_finish
  | delete => cases hRow'

theorem Reachable.published_unleased (hs : s.Reachable) (hEvent : event ∈ s.db.outboxEvents)
    (hPublished : event.publishedAt ≠ none) : event.Unleased := by
  refine Reachable.dossier_invariant
    (I := fun _ d => ∀ event ∈ d.events, event.publishedAt ≠ none → event.Unleased) ?_ ?_ ?_ hs event.deliveryID
    event ((mem_owned _).mpr ⟨hEvent, rfl⟩) hPublished
  · intro _ event hEvent
    cases hEvent
  · intro _ _ _ _ hI
    exact hI
  · intro _ _ _ _ _ _ hTimely hMove hI event' hEvent' hPublished'
    rcases hMove.event_origin hTimely hEvent' with ⟨row, event, _, hOld, hEventMove⟩ | ⟨_, _, hNew⟩
    · exact hEventMove.unleased (hI event hOld) hPublished'
    · exact absurd hNew.untouched.1 hPublished'

end Store

end ReliableNotifier
