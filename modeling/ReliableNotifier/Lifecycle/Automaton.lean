import Mathlib.Data.Prod.Lex
import ReliableNotifier.Lifecycle.Moves

/-! # The life cycle of a delivery

The architecture document draws the states of a delivery as an automaton over
`(status, generation)`. Every committed operation follows one of its arrows, and
each arrow goes up in the lexicographic order of generation and rank.
-/

namespace ReliableNotifier

open RowTable

def Dossier.phase (d : Dossier) : Option (Status × Nat) := d.row.map fun row => (row.status, row.generation)

def Dossier.deadline (d : Dossier) : Option Time := d.row.map DeliveryRow.retryDeadline

def Database.phase (db : Database) (id : UUID) : Option (Status × Nat) := (db.dossier id).phase

def Database.deadline (db : Database) (id : UUID) : Option Time := (db.dossier id).deadline

def Status.rank : Status → Nat
  | .pending => 0
  | .delivering => 1
  | .succeeded => 2
  | .failedPermanent => 2

def height (phase : Status × Nat) : Nat ×ₗ Nat := toLex (phase.2, phase.1.rank)

/-- The arrows of the state model, each with the operation that takes it. -/
inductive Lifecycle (r : Readings) (id : UUID) (deadline : Option Time) :
    Op → Option (Status × Nat) → Option (Status × Nat) → Prop
  | created {backlogLimit : Int} {submission : Submission} {outboxID traceID : UUID} :
      Lifecycle r id deadline (.submit backlogLimit submission id outboxID traceID) none (some (.pending, 0))
  | claimed {g : Nat} {owner : String} {leaseDuration : Duration} {token : UUID} :
      Lifecycle r id deadline (.claimDelivery id g owner leaseDuration token)
        (some (.pending, g)) (some (.delivering, g))
  | succeeded {g : Nat} {result : AttemptResult} {attemptID : UUID} (hID : result.deliveryID = id)
      (hGeneration : result.generation = g) :
      Lifecycle r id deadline (.complete .success result attemptID)
        (some (.delivering, g)) (some (.succeeded, g))
  | failed {g : Nat} {result : AttemptResult} {attemptID : UUID} (hID : result.deliveryID = id)
      (hGeneration : result.generation = g) :
      Lifecycle r id deadline (.complete .permanent result attemptID)
        (some (.delivering, g)) (some (.failedPermanent, g))
  | retried {g : Nat} {next : GoTime} {result : AttemptResult} {attemptID : UUID}
      (hID : result.deliveryID = id) (hGeneration : result.generation = g) :
      Lifecycle r id deadline (.complete (.retry next) result attemptID)
        (some (.delivering, g)) (some (.pending, g + 1))
  | recovered {g : Nat} {limit : Int} {locked : UUID → Bool} {attemptIDs eventIDs traceIDs : UUID → UUID} :
      Lifecycle r id deadline (.recoverExpiredDeliveries limit locked attemptIDs eventIDs traceIDs)
        (some (.delivering, g)) (some (.pending, g + 1))
  | abandoned {g : Nat} {limit : Int} {locked : UUID → Bool} {attemptIDs eventIDs traceIDs : UUID → UUID}
      (hDeadline : ∃ d, deadline = some d ∧ d ≤ r.statement) :
      Lifecycle r id deadline (.recoverExpiredDeliveries limit locked attemptIDs eventIDs traceIDs)
        (some (.delivering, g)) (some (.failedPermanent, g))
  | expired {g : Nat} {limit : Int} {locked : UUID → Bool} {eventIDs traceIDs : UUID → UUID}
      (hDeadline : ∃ d, deadline = some d ∧ d ≤ r.statement) :
      Lifecycle r id deadline (.scheduleDueRetries limit locked eventIDs traceIDs)
        (some (.pending, g)) (some (.failedPermanent, g))
  | replayed {g : Nat} {replayedAt : Time} {operatorID reason : String} {auditID outboxID traceID : UUID} :
      Lifecycle r id deadline (.replay replayedAt id operatorID reason auditID outboxID traceID)
        (some (.failedPermanent, g)) (some (.pending, g + 1))
  | removed {g : Nat} {status : Status} {successRetention failureRetention : Duration} {limit : Int}
      {locked : UUID → Bool} (hTerminal : status = .succeeded ∨ status = .failedPermanent) :
      Lifecycle r id deadline (.deleteExpiredTerminal successRetention failureRetention limit locked)
        (some (status, g)) none

variable {r : Readings} {op : Op} {d d' : Dossier} {id : UUID} {s t u : Store} {action : Store.Action}

theorem Lifecycle.height_lt {deadline : Option Time} {p q : Status × Nat}
    (h : Lifecycle r id deadline op (some p) (some q)) : height p < height q := by
  cases h <;> simp [height, Prod.Lex.toLex_lt_toLex, Status.rank]

/-- The only arrow out of nothing draws the identifier of the delivery. -/
theorem Lifecycle.generated_of_none {deadline : Option Time} {phase : Option (Status × Nat)}
    (h : Lifecycle r id deadline op none phase) (db : Database) : id ∈ op.generated r db := by
  cases h
  simp [Op.generated]

theorem Dossier.Move.lifecycle (h : Move r op d d') (hID : ∀ row, d.row = some row → row.id = id)
    (hID' : ∀ row, d'.row = some row → row.id = id) :
    d'.phase = d.phase ∨ Lifecycle r id d.deadline op d.phase d'.phase := by
  cases h with
  | submit =>
    obtain rfl := hID' _ rfl
    exact .inr .created
  | events _ => exact .inl rfl
  | claim hDue =>
    obtain rfl := hID _ rfl
    obtain ⟨_, _, hPending, _⟩ := DeliveryRow.due_iff.mp hDue
    right
    simp only [phase, Option.map_some, hPending]
    exact .claimed
  | @complete row _ _ _ completion result attemptID hFenced =>
    obtain rfl := hID _ rfl
    obtain ⟨hSame, hGeneration, hDelivering, _⟩ := DeliveryRow.fenced_iff.mp hFenced
    right
    simp only [phase, Option.map_some, hDelivering]
    cases completion with
    | success => exact .succeeded hSame.symm hGeneration.symm
    | retry next => exact .retried hSame.symm hGeneration.symm
    | permanent => exact .failed hSame.symm hGeneration.symm
  | expire hPast =>
    obtain ⟨hPending, hDeadline⟩ := DeliveryRow.pastDeadline_iff.mp hPast
    right
    simp only [phase, Option.map_some, hPending]
    exact .expired ⟨_, rfl, hDeadline⟩
  | schedule => exact .inl rfl
  | recover hExpired hDeadline =>
    have hDelivering := (DeliveryRow.leaseExpired_iff.mp hExpired).1
    right
    simp only [phase, Option.map_some, hDelivering, DeliveryRow.recover, if_neg (not_le.mpr hDeadline)]
    exact .recovered
  | abandon hExpired hDeadline =>
    have hDelivering := (DeliveryRow.leaseExpired_iff.mp hExpired).1
    right
    simp only [phase, Option.map_some, hDelivering, DeliveryRow.recover, if_pos hDeadline]
    exact .abandoned ⟨_, rfl, hDeadline⟩
  | replay hFailed =>
    obtain rfl := hID _ rfl
    right
    simp only [phase, Option.map_some, hFailed]
    exact .replayed
  | delete hTerminal => exact .inr (.removed hTerminal)

theorem Dossier.Move.succeeded_fixed {row : DeliveryRow} (h : Move r op d d') (hRow : d.row = some row)
    (hSucceeded : row.status = .succeeded) : d'.row = some row ∨ d'.row = none := by
  cases h with
  | submit => cases hRow
  | events _ => exact .inl hRow
  | claim hDue =>
    cases hRow
    simp [(DeliveryRow.due_iff.mp hDue).2.2.1] at hSucceeded
  | complete hFenced =>
    cases hRow
    simp [(DeliveryRow.fenced_iff.mp hFenced).2.2.1] at hSucceeded
  | expire hPast =>
    cases hRow
    simp [(DeliveryRow.pastDeadline_iff.mp hPast).1] at hSucceeded
  | schedule => exact .inl hRow
  | recover hExpired | abandon hExpired =>
    cases hRow
    simp [(DeliveryRow.leaseExpired_iff.mp hExpired).1] at hSucceeded
  | replay hFailed =>
    cases hRow
    simp [hFailed] at hSucceeded
  | delete => exact .inr rfl

namespace Store

theorem phase_of_row {db : Database} {row : DeliveryRow} (h : (db.dossier id).row = some row) :
    db.phase id = some (row.status, row.generation) := by
  rw [Database.phase, Dossier.phase, h]
  rfl

theorem Step.lifecycle (hs : s.Reachable) (h : Step s action t) (id : UUID) :
    t.db.phase id = s.db.phase id ∨
      ∃ r op, action = .commit r op ∧
        Lifecycle r id (s.db.deadline id) op (s.db.phase id) (t.db.phase id) := by
  cases h.advance hs.integrity id with
  | stay _ _ hSame => exact .inl (congrArg Dossier.phase hSame)
  | move _ _ _ _ _ hMove =>
    rcases hMove.lifecycle (fun _ => Database.dossier_row_id) (fun _ => Database.dossier_row_id) with hSame | hArrow
    · exact .inl hSame
    · exact .inr ⟨_, _, rfl, hArrow⟩

theorem Step.issued_subset (h : Step s action t) : s.issued ⊆ t.issued := by
  cases h with
  | wait _ => exact List.Subset.refl _
  | commit _ _ _ _ => exact List.subset_append_right _ _

theorem Step.issued_eq (h : Step s (.commit r op) t) :
    t.issued = op.generated r s.db ++ s.issued ∧ ∀ id ∈ op.generated r s.db, id ∉ s.issued := by
  cases h with
  | commit _ _ hFresh _ => exact ⟨rfl, hFresh.2⟩

theorem Step.not_created (hs : s.Reachable) (h : Step s action t) (hIssued : id ∈ s.issued)
    (hNone : s.db.phase id = none) : t.db.phase id = none := by
  rcases h.lifecycle hs id with hSame | ⟨r, op, rfl, hArrow⟩
  · rw [hSame, hNone]
  · rw [hNone] at hArrow
    exact absurd hIssued (h.issued_eq.2 id (hArrow.generated_of_none s.db))

theorem Reachable.issued_of_phase (hs : s.Reachable) {p : Status × Nat} (h : s.db.phase id = some p) :
    id ∈ s.issued := by
  obtain ⟨first, hRun⟩ := hs
  revert p
  refine Later.invariant (I := fun s => ∀ {p : Status × Nat}, s.db.phase id = some p → id ∈ s.issued)
    ⟨first, .refl⟩ ?_ ?_ hRun
  · intro p h
    cases h
  · intro s action t hs ih hStep p hPhase
    rcases hBefore : s.db.phase id with _ | q
    · rcases hStep.lifecycle hs id with hSame | ⟨r, op, rfl, hArrow⟩
      · rw [hSame, hBefore] at hPhase
        cases hPhase
      · rw [hBefore] at hArrow
        rw [hStep.issued_eq.1]
        exact List.mem_append_left _ (hArrow.generated_of_none s.db)
    · exact hStep.issued_subset (ih hBefore)

/-- Everything the automaton can still show for `id` lies above `p`. -/
def Passed (p : Status × Nat) (id : UUID) (s : Store) : Prop :=
  id ∈ s.issued ∧ ∀ q, s.db.phase id = some q → height p < height q

theorem Passed.step {p : Status × Nat} (hs : s.Reachable) (hPassed : Passed p id s) (h : Step s action t) :
    Passed p id t := by
  refine ⟨h.issued_subset hPassed.1, fun q hq => ?_⟩
  rcases hBefore : s.db.phase id with _ | q'
  · rw [h.not_created hs hPassed.1 hBefore] at hq
    cases hq
  · have hBelow := hPassed.2 q' hBefore
    rcases h.lifecycle hs id with hSame | ⟨r, op, rfl, hArrow⟩
    · exact hPassed.2 q (hSame ▸ hq)
    · rw [hBefore, hq] at hArrow
      exact hBelow.trans hArrow.height_lt

theorem Passed.later {p : Status × Nat} (hs : s.Reachable) (hPassed : Passed p id s) (h : s.Later t) :
    Passed p id t :=
  Later.invariant hs hPassed (fun _ _ _ hu hI hStep => hI.step hu hStep) h

theorem Step.stays_or_passed {p : Status × Nat} (hs : s.Reachable) (h : Step s action t)
    (hp : s.db.phase id = some p) : t.db.phase id = some p ∨ Passed p id t := by
  rcases h.lifecycle hs id with hSame | ⟨r, op, rfl, hArrow⟩
  · exact .inl (hSame.trans hp)
  · refine .inr ⟨h.issued_subset (hs.issued_of_phase hp), fun q hq => ?_⟩
    rw [hp, hq] at hArrow
    exact hArrow.height_lt

theorem Later.stays_or_passed {p : Status × Nat} (hs : s.Reachable) (h : s.Later t)
    (hp : s.db.phase id = some p) : t.db.phase id = some p ∨ Passed p id t := by
  refine Later.invariant (I := fun t => t.db.phase id = some p ∨ Passed p id t) hs (.inl hp) ?_ h
  intro u action v hu hI hStep
  rcases hI with hSame | hPassed
  · exact hStep.stays_or_passed hu hSame
  · exact .inr (hPassed.step hu hStep)

theorem Later.succeeded_fixed {row : DeliveryRow} (hs : s.Reachable) (h : s.Later t)
    (hRow : (s.db.dossier id).row = some row) (hSucceeded : row.status = .succeeded) :
    (t.db.dossier id).row = some row ∨ (t.db.dossier id).row = none := by
  have hIssued : id ∈ s.issued := hs.issued_of_phase (by rw [Database.phase, Dossier.phase, hRow]; rfl)
  have hBoth : id ∈ t.issued ∧ ((t.db.dossier id).row = some row ∨ t.db.phase id = none) := by
    refine Later.invariant
      (I := fun t => id ∈ t.issued ∧ ((t.db.dossier id).row = some row ∨ t.db.phase id = none))
      hs ⟨hIssued, .inl hRow⟩ ?_ h
    rintro u action v hu ⟨hIssued, hKept | hGone⟩ hStep
    · refine ⟨hStep.issued_subset hIssued, ?_⟩
      cases hStep.advance hu.integrity id with
      | stay _ _ hSame => exact .inl (hSame ▸ hKept)
      | move _ _ _ _ _ hMove =>
        exact (hMove.succeeded_fixed hKept hSucceeded).imp_right fun hNone => by
          rw [Database.phase, Dossier.phase, hNone]; rfl
    · exact ⟨hStep.issued_subset hIssued, .inr (hStep.not_created hu hIssued hGone)⟩
  exact hBoth.2.imp_right Option.map_eq_none_iff.mp

/-- Every committed change follows an arrow of the state model, phases only ever rise, a phase once
left does not come back, and a success is final until retention removes it. -/
theorem lifecycle_automaton (hs : s.Reachable) (h : s.Later t) (id : UUID) :
    (∀ action u, Step t action u → u.db.phase id = t.db.phase id ∨
      ∃ r op, action = .commit r op ∧
        Lifecycle r id (t.db.deadline id) op (t.db.phase id) (u.db.phase id)) ∧
    (∀ p q, s.db.phase id = some p → t.db.phase id = some q → p ≠ q → height p < height q) ∧
    (∀ p, s.db.phase id = some p → t.db.phase id ≠ some p → ∀ u, t.Later u → u.db.phase id ≠ some p) ∧
    (∀ row, (s.db.dossier id).row = some row → row.status = .succeeded →
      (t.db.dossier id).row = some row ∨ (t.db.dossier id).row = none) := by
  refine ⟨fun action u hStep => hStep.lifecycle (hs.later h) id, ?_, ?_, ?_⟩
  · intro p q hp hq hne
    rcases h.stays_or_passed hs hp with hSame | hPassed
    · exact absurd (Option.some.inj (hSame.symm.trans hq)) hne
    · exact hPassed.2 q hq
  · intro p hp hLeft u hu hBack
    rcases h.stays_or_passed hs hp with hSame | hPassed
    · exact hLeft hSame
    · exact lt_irrefl _ ((hPassed.later (hs.later h) hu).2 p hBack)
  · intro row hRow hSucceeded
    exact h.succeeded_fixed hs hRow hSucceeded

/-- Accepted, claimed and delivered: the run climbs from `(pending, 0)` to `(succeeded, 0)`. -/
theorem lifecycle_automaton_delivered :
    ∃ s t : Store, s.Reachable ∧ s.Later t ∧ s.db.phase 100 = some (.pending, 0) ∧
      t.db.phase 100 = some (.succeeded, 0) ∧ height (.pending, 0) < height (.succeeded, 0) := by
  have hRun : ((start 0).play Sample.accepted).any (fun s => s.db.phase 100 = some (.pending, 0) &&
      (s.play [(8, .claimDelivery 100 0 "worker" 90000000000 104),
        (9, .complete .success Sample.result 105)]).any fun t => t.db.phase 100 = some (.succeeded, 0)) = true := by
    decide +kernel
  obtain ⟨s, hs, hBoth⟩ := (Option.any_eq_true _ _).mp hRun
  obtain ⟨hp, hMore⟩ := Bool.and_eq_true_iff.mp hBoth
  obtain ⟨t, ht, hq⟩ := (Option.any_eq_true _ _).mp hMore
  have hPhases := (lifecycle_automaton (reachable_of_play hs) (later_of_play ht) 100).2.1 (.pending, 0)
    (.succeeded, 0) (of_decide_eq_true hp) (of_decide_eq_true hq) (by decide)
  exact ⟨s, t, reachable_of_play hs, later_of_play ht, of_decide_eq_true hp, of_decide_eq_true hq, hPhases⟩

end Store

end ReliableNotifier
