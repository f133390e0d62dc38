import ReliableNotifier.Lifecycle.Events

/-! # The dispatch window of a generation

The operation that creates a generation fixes the earliest time for it. Nothing that
happens later makes an event of that generation available before that time.
-/

namespace ReliableNotifier

open RowTable

variable {r : Readings}

/-- What stays true of generation `g` once it was created with `next_attempt_at = a`. -/
structure Dossier.Window (g : Nat) (a now : Time) (d : Dossier) : Prop where
  reached : ∀ row, d.row = some row → g ≤ row.generation
  fixed : ∀ row, d.row = some row → row.generation = g → row.status = .pending → row.nextAttemptAt = a
  available : ∀ event ∈ d.events, event.generation = g → a ≤ event.availableAt
  emitted : 0 < g → ∀ event ∈ d.events, event.generation = g → a ≤ now
  inside : a ≤ now ∨ ∃ row, d.row = some row ∧ row.generation = g ∧ row.status = .pending ∧ a < row.retryDeadline

namespace Dossier

variable {op : Op} {d d' : Dossier} {g : Nat} {a now : Time} {row : DeliveryRow}

theorem Move.removed (h : Move r op d d') (hRow : d.row = some row) (hNone : d'.row = none) :
    row.status ≠ .pending := by
  cases h with
  | delete hTerminal =>
    cases hRow
    rcases hTerminal with h | h <;> simp [h]
  | _ => cases hNone

theorem Window.mono {now' : Time} (h : d.Window g a now) (hNow : now ≤ now') : d.Window g a now' :=
  ⟨h.reached, h.fixed, h.available, fun hg event hEvent hSame => (h.emitted hg event hEvent hSame).trans hNow,
    h.inside.imp_left fun hStarted => hStarted.trans hNow⟩

theorem Window.absent (h : a ≤ now) : Dossier.absent.Window g a now :=
  ⟨fun _ h => (by cases h), fun _ h => (by cases h), fun _ h => (by cases h), fun _ _ h => (by cases h), .inl h⟩

/-- A pending row of generation `g` after a move is the row before it. -/
theorem Window.row_same {row' : DeliveryRow} (h : d.Window g a now) (hMove : Move r op d d') (hTimely : op.Timely r)
    (hRow : d.row = some row) (hRow' : d'.row = some row') (hGeneration : row'.generation = g)
    (hPending : row'.status = .pending) : row' = row := by
  rcases hMove.row_follows hTimely hRow hRow' with hSame | hLeft | hRenewed
  · exact hSame
  · exact absurd hPending hLeft.status
  · have hReached := h.reached row hRow
    have hNext := hRenewed.generation
    omega

theorem Window.move (h : d.Window g a now) (hMove : Move r op d d') (hTimely : op.Timely r)
    (hClock : now ≤ r.statement) (hRow : d.row = some row) : d'.Window g a r.finish := by
  have hNow : now ≤ r.finish := hClock.trans r.statement_le_finish
  have hFixed (row' : DeliveryRow) (hRow' : d'.row = some row') (hGeneration : row'.generation = g)
      (hPending : row'.status = .pending) : row'.nextAttemptAt = a := by
    obtain rfl := h.row_same hMove hTimely hRow hRow' hGeneration hPending
    exact h.fixed row' hRow hGeneration hPending
  refine ⟨fun row' hRow' => ?_, hFixed, fun event' hEvent' hSame => ?_, fun hg event' hEvent' hSame => ?_, ?_⟩
  · have hReached := h.reached row hRow
    rcases hMove.row_follows hTimely hRow hRow' with rfl | hLeft | hRenewed
    · exact hReached
    · exact hLeft.generation ▸ hReached
    · exact hRenewed.generation ▸ hReached.trans (Nat.le_succ _)
  · rcases hMove.event_origin hTimely hEvent' with ⟨old, event, hOld, hEvent, hEventMove⟩ | ⟨row', hRow', hNew⟩
    · rw [hEventMove.generation_eq] at hSame
      refine hEventMove.available (h.available event hEvent hSame) fun hGeneration hPending => ?_
      exact (h.fixed old hOld (hGeneration.trans hSame) hPending).ge
    · exact hFixed row' hRow' (hNew.generation.symm.trans hSame) hNew.pending ▸ hNew.available
  · rcases hMove.event_origin hTimely hEvent' with ⟨old, event, hOld, hEvent, hEventMove⟩ | ⟨row', hRow', hNew⟩
    · exact (h.emitted hg event hEvent (hEventMove.generation_eq ▸ hSame)).trans hNow
    · have hGeneration : row'.generation = g := hNew.generation.symm.trans hSame
      exact hFixed row' hRow' hGeneration hNew.pending ▸ hNew.due (hGeneration ▸ hg)
  · rcases h.inside with hStarted | ⟨other, hOther, hGeneration, hPending, hDeadline⟩
    · exact .inl (hStarted.trans hNow)
    · obtain rfl := Option.some.inj (hRow.symm.trans hOther)
      rcases hRow' : d'.row with _ | row'
      · exact absurd hPending (hMove.removed hRow hRow')
      · rcases hMove.row_follows hTimely hRow hRow' with rfl | hLeft | hRenewed
        · exact .inr ⟨row', rfl, hGeneration, hPending, hDeadline⟩
        · have hOpened := hLeft.opened hPending
          rw [h.fixed row hRow hGeneration hPending] at hOpened
          exact .inl (hOpened.elim id fun hPast => hDeadline.le.trans hPast)
        · exact absurd hPending hRenewed.before

/-- The step that creates a generation opens its window. -/
theorem Move.opens {row' : DeliveryRow} (h : Move r op d d') (hTimely : op.Timely r) (hPaced : d.Paced)
    (hRow' : d'.row = some row') (hNew : ∀ row, d.row = some row → row.generation ≠ row'.generation)
    (hFirst : ∀ backlogLimit submission deliveryID outboxID traceID,
      op = .submit backlogLimit submission deliveryID outboxID traceID → submission.FromAPI) :
    d'.Window row'.generation row'.nextAttemptAt r.finish := by
  have hLaunched (event' : OutboxEventRow) (hEvent' : event' ∈ d'.events)
      (hSame : event'.generation = row'.generation) : row'.Launches r event' :=
    h.launches hTimely hPaced hRow' hNew hEvent' hSame
  have hOnly {row : DeliveryRow} (hRow : d'.row = some row) : row = row' := Option.some.inj (hRow.symm.trans hRow')
  refine ⟨fun row hRow => (hOnly hRow ▸ le_rfl), fun row hRow _ _ => (hOnly hRow ▸ rfl),
    fun event' hEvent' hSame => (hLaunched event' hEvent' hSame).available,
    fun hg event' hEvent' hSame => (hLaunched event' hEvent' hSame).due hg, ?_⟩
  rcases h.row_origin hTimely hRow' with ⟨_, _, submission, _, _, _, hOp, rfl⟩ | ⟨row, hRow, hKind⟩
  · refine .inr ⟨_, hRow', rfl, rfl, ?_⟩
    have hDay : (0 : Time) < microseconds day := by decide
    simp only [Submission.row, (hFirst _ _ _ _ _ hOp).2, microseconds_add_day]
    exact Int.lt_add_of_pos_right _ hDay
  · rcases hKind with rfl | hLeft | hRenewed
    · exact absurd rfl (hNew _ hRow)
    · exact absurd hLeft.generation.symm (hNew _ hRow)
    · exact hRenewed.inside.imp_right fun hDeadline => ⟨row', hRow', rfl, hRenewed.status, hDeadline⟩

end Dossier

namespace Store

variable {s t : Store} {action : Action} {id : UUID} {g : Nat} {a : Time}

def Window (s : Store) (id : UUID) (g : Nat) (a : Time) : Prop :=
  id ∈ s.issued ∧ (s.db.dossier id).Window g a s.now

theorem Window.step (hs : s.Reachable) (hWindow : s.Window id g a) (h : Step s action t) : t.Window id g a := by
  refine ⟨h.issued_subset hWindow.1, ?_⟩
  rcases hRow : (s.db.dossier id).row with _ | row
  · have hStarted : a ≤ s.now := hWindow.2.inside.resolve_right fun ⟨_, hSome, _⟩ => by
      rw [hRow] at hSome
      cases hSome
    have hGone := h.not_created hs hWindow.1 (by rw [Database.phase, Dossier.phase, hRow]; rfl)
    rw [(hs.step h).integrity.dossier_absent (Option.map_eq_none_iff.mp hGone)]
    exact .absent (hStarted.trans h.now_le)
  · cases h.advance hs.integrity id with
    | stay hNow _ hSame => exact hSame ▸ hWindow.2.mono hNow
    | move hClock hNow hTimely _ _ hMove => exact hNow ▸ hWindow.2.move hMove hTimely hClock hRow

theorem Window.later (hs : s.Reachable) (hWindow : s.Window id g a) (h : s.Later t) : t.Window id g a :=
  Later.invariant (I := fun t => t.Window id g a) hs hWindow (fun _ _ _ hu hI hStep => hI.step hu hStep) h

/-- The step from `s` to `t` creates generation `g` of `id`, with `next_attempt_at = a`. -/
def Creates (s t : Store) (id : UUID) (g : Nat) (a : Time) : Prop :=
  (∃ row, (t.db.dossier id).row = some row ∧ row.generation = g ∧ row.nextAttemptAt = a) ∧
    ∀ row, (s.db.dossier id).row = some row → row.generation ≠ g

theorem Creates.window (hs : s.Reachable) (hCreates : s.Creates t id g a) (h : Step s action t)
    (hFirst : ∀ r backlogLimit submission deliveryID outboxID traceID,
      action = .commit r (.submit backlogLimit submission deliveryID outboxID traceID) → submission.FromAPI) :
    t.Window id g a := by
  obtain ⟨⟨row', hRow', rfl, rfl⟩, hNew⟩ := hCreates
  refine ⟨(hs.step h).issued_of_phase (phase_of_row hRow'), ?_⟩
  cases h.advance hs.integrity id with
  | stay _ _ hSame => exact absurd rfl (hNew row' (hSame ▸ hRow'))
  | move _ hNow hTimely _ _ hMove =>
    rw [hNow]
    exact hMove.opens hTimely (hs.paced id) hRow' hNew fun _ _ _ _ _ hOp => hFirst _ _ _ _ _ _ (congrArg _ hOp)

end Store

end ReliableNotifier
