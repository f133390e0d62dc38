import ReliableNotifier.System.Claims

/-! # No success without an accepted response

A delivery becomes `succeeded` only through `CompleteSuccess`, which a worker calls
only after a send that returned no error and a status its destination version
accepts. The history of the run holds the claim and the send; the attempt row holds
the lease token of the claim and the status, where the status code 0 becomes NULL.
-/

namespace ReliableNotifier

open Checked RowTable

variable {setting : Setting} {history : List Label} {w : System} {s s' : Shared} {label : Label} {r : Readings}
  {id token : UUID} {g : Nat} {status : Int}

namespace Store

variable {s t : Store} {action : Action} {destination : DestinationVersion}

/-- `destination` is the version that delivery `id` is bound to, for as long as the delivery exists. -/
def Bound (s : Store) (id : UUID) (destination : DestinationVersion) : Prop :=
  id ∈ s.issued ∧ ∀ row, (s.db.dossier id).row = some row →
    s.db.queryDestinationVersion row.destinationID row.destinationVersion = .ok destination

theorem Step.query_stable {destinationID : String} {version : Int} (h : Step s action t)
    (hQuery : s.db.queryDestinationVersion destinationID version = .ok destination) :
    t.db.queryDestinationVersion destinationID version = .ok destination := by
  cases h with
  | wait _ => exact hQuery
  | commit _ _ _ hApply => exact Database.queryDestinationVersion_stable hApply hQuery

theorem Bound.step (hs : s.Reachable) (hBound : s.Bound id destination) (h : Step s action t) :
    t.Bound id destination := by
  refine ⟨h.issued_subset hBound.1, fun row' hRow' => ?_⟩
  rcases hRow : (s.db.dossier id).row with _ | row
  · have hNone : s.db.phase id = none := by
      rw [Database.phase, Dossier.phase, hRow]
      rfl
    have hAfter := h.not_created hs hBound.1 hNone
    rw [phase_of_row hRow'] at hAfter
    cases hAfter
  · have hIdentity : row'.identity = row.identity := by
      cases h.advance hs.integrity id with
      | stay _ _ hSame =>
        rw [hSame, hRow] at hRow'
        cases hRow'
        rfl
      | move _ _ _ _ _ hMove => exact hMove.identity_eq hRow hRow'
    rw [DeliveryRow.of_identity DeliveryRow.destinationID (fun _ => rfl) hIdentity,
      DeliveryRow.of_identity DeliveryRow.destinationVersion (fun _ => rfl) hIdentity]
    exact h.query_stable (hBound.2 row hRow)

/-- The version a claim returns is the one the delivery is bound to. -/
theorem Step.claim_bound {owner : String} {leaseDuration : Duration} {task : Delivery} (hs : s.Reachable)
    (h : Step s (.commit r (.claimDelivery id g owner leaseDuration token)) t)
    (hAnswer : Prod.fst <$> claimDelivery r id g owner leaseDuration token s.db = .ok (task, destination)) :
    t.Bound id destination := by
  have hStep := h
  cases h with
  | commit _ _ _ hApply =>
    obtain ⟨⟨_, final⟩, hClaim, rfl⟩ := map_ok_iff.mp hApply
    obtain ⟨⟨_, _⟩, hSame, hValue⟩ := map_ok_iff.mp hAnswer
    rw [hClaim] at hSame
    cases hSame
    cases hValue
    obtain ⟨row, hRow, _, hClaimed, _, _, hDestination⟩ := Dossier.claimDelivery_spec hs.integrity hClaim
    refine ⟨hStep.issued_subset (hs.issued_of_phase (phase_of_row hRow)), fun row' hRow' => ?_⟩
    rw [hClaimed] at hRow'
    cases hRow'
    exact hStep.query_stable hDestination

end Store

/-- Process `i` committed the claim of `(id, g)` under `token`. -/
def Claimed (history : List Label) (i : Nat) (id : UUID) (g : Nat) (token : UUID) : Prop :=
  ∃ r owner leaseDuration before,
    Label.commit (some i) r (.claimDelivery id g owner leaseDuration token) before ∈ history

/-- A send made under the claim `token` of `(id, g)` returned no error and a status that the bound
destination version accepts. -/
def Answered (history : List Label) (s : Store) (id : UUID) (g : Nat) (token : UUID) (status : Int) : Prop :=
  ∃ i task destination result later earlier,
    history = later ++ Label.send i task destination result none :: earlier ∧
    Claimed earlier i id g token ∧ task.id = id ∧ task.generation = g ∧ result.statusCode = status ∧
    s.Bound id destination ∧ isSuccess status destination.successStatuses = true

def recordedStatus (status : Int) : Option Int := if status ≠ 0 then some status else none

/-- The delivery's only attempt at `g` tells of that response. -/
def Recorded (d : Dossier) (g : Nat) (token : UUID) (status : Int) : Prop :=
  ∃ attempt, d.attemptsAt g = [attempt] ∧ attempt.resultClass = .succeeded ∧
    attempt.responseStatus = recordedStatus status ∧ attempt.leaseToken = some token

theorem Recorded.of_attempts {d d' : Dossier} (hAttempts : d'.attempts = d.attempts)
    (h : Recorded d g token status) : Recorded d' g token status := by
  obtain ⟨attempt, hOnly, hRest⟩ := h
  refine ⟨attempt, ?_, hRest⟩
  rw [Dossier.attemptsAt, hAttempts]
  exact hOnly

/-- A success is either old news or the work of `CompleteSuccess`. -/
theorem Dossier.Move.succeeded_origin {op : Op} {d d' : Dossier} {row' : DeliveryRow} (h : Move r op d d')
    (hRow' : d'.row = some row') (hSucceeded : row'.status = .succeeded) :
    d.row = some row' ∧ d'.attempts = d.attempts ∨
      ∃ result attemptID, op = .complete .success result attemptID := by
  cases h with
  | submit | claim | replay | expire =>
    cases hRow'
    cases hSucceeded
  | delete => cases hRow'
  | events | schedule => exact .inl ⟨hRow', rfl⟩
  | @complete row _ _ _ completion result attemptID _ =>
    cases hRow'
    cases completion with
    | success => exact .inr ⟨result, attemptID, rfl⟩
    | retry next => cases hSucceeded
    | permanent => cases hSucceeded
  | recover _ hDeadline =>
    cases hRow'
    simp [DeliveryRow.recover, not_le.mpr hDeadline] at hSucceeded
  | abandon _ hDeadline =>
    cases hRow'
    simp [DeliveryRow.recover, hDeadline] at hSucceeded

theorem Claimed.next {i : Nat} (h : Claimed history i id g token) : Claimed (label :: history) i id g token :=
  let ⟨r, owner, leaseDuration, before, hMem⟩ := h
  ⟨r, owner, leaseDuration, before, List.mem_cons_of_mem _ hMem⟩

theorem Answered.next (hs : s.store.Reachable) (hAdvances : s.Advances s' label)
    (h : Answered history s.store id g token status) :
    Answered (label :: history) s'.store id g token status := by
  obtain ⟨i, task, destination, result, later, earlier, rfl, hClaimed, hID, hGeneration, hStatus, hBound, hOk⟩ := h
  obtain ⟨_, hStep⟩ := hAdvances.step
  exact ⟨i, task, destination, result, label :: later, earlier, rfl, hClaimed, hID, hGeneration, hStatus,
    hBound.step hs hStep, hOk⟩

namespace System

/-- Every success has its response in the history and in the attempts. -/
def SuccessesAnswered (history : List Label) (s : Shared) : Prop :=
  ∀ id row, (s.store.db.dossier id).row = some row → row.status = .succeeded →
    ∃ token status, Answered history s.store id row.generation token status ∧
      Recorded (s.store.db.dossier id) row.generation token status

/-- What a worker knows while it sends and while it reports. -/
def Grounded (i : Nat) (history : List Label) (s : Shared) : Process → Prop
  | .consumer (.sending _ task destination) => ∃ token, task.leaseToken = some token ∧
      Claimed history i task.id task.generation token ∧ s.store.Bound task.id destination
  | .consumer (.completing _ completion attempt) => completion = .success → ∃ status,
      Answered history s.store attempt.deliveryID attempt.generation attempt.leaseToken status ∧
        attempt.responseStatus = recordedStatus status
  | _ => True

theorem Grounded.next {i : Nat} {x : Process} (hs : s.store.Reachable) (hAdvances : s.Advances s' label)
    (h : Grounded i history s x) : Grounded i (label :: history) s' x := by
  obtain ⟨_, hStep⟩ := hAdvances.step
  unfold Grounded at h ⊢
  split
  · obtain ⟨token, hToken, hClaimed, hBound⟩ := h
    exact ⟨token, hToken, hClaimed.next, hBound.step hs hStep⟩
  · intro hSuccess
    obtain ⟨status, hAnswered, hStatus⟩ := h hSuccess
    exact ⟨status, hAnswered.next hs hAdvances, hStatus⟩
  · trivial

/-- Only `CompleteSuccess` adds a success. -/
theorem SuccessesAnswered.keep (hs : s.store.Reachable) (hAdvances : s.Advances s' label)
    (hLabel : ∀ actor r result attemptID before,
      label ≠ .commit actor r (.complete .success result attemptID) before)
    (h : SuccessesAnswered history s) : SuccessesAnswered (label :: history) s' := by
  intro id row hRow hSucceeded
  have hOld : (s.store.db.dossier id).row = some row ∧
      (s'.store.db.dossier id).attempts = (s.store.db.dossier id).attempts := by
    cases hAdvances with
    | commit hStep =>
      cases hStep.advance hs.integrity id with
      | stay _ _ hSame => exact ⟨hSame ▸ hRow, by rw [hSame]⟩
      | move _ _ _ _ _ hMove =>
        rcases hMove.succeeded_origin hRow hSucceeded with hOld | ⟨result, attemptID, rfl⟩
        · exact hOld
        · exact absurd rfl (hLabel _ _ _ _ _)
    | keep _ hStep =>
      rw [hStep.waited.1] at hRow ⊢
      exact ⟨hRow, rfl⟩
  obtain ⟨token, status, hAnswered, hRecorded⟩ := h id row hOld.1 hSucceeded
  exact ⟨token, status, hAnswered.next hs hAdvances, hRecorded.of_attempts hOld.2⟩

theorem SuccessesAnswered.complete {i : Nat} {attempt : AttemptResult} {attemptID : UUID}
    (hs : s.store.Reachable)
    (hStep : Store.Step s.store (.commit r (.complete .success attempt attemptID)) s'.store)
    (hAnswered : Answered history s.store attempt.deliveryID attempt.generation attempt.leaseToken status)
    (hStatus : attempt.responseStatus = recordedStatus status) (h : SuccessesAnswered history s) :
    SuccessesAnswered (.commit (some i) r (.complete .success attempt attemptID) s.store.db :: history) s' := by
  have hAdvances : s.Advances s' (.commit (some i) r (.complete .success attempt attemptID) s.store.db) :=
    .commit hStep
  intro id row' hRow' hSucceeded
  obtain ⟨row, hRow, hFenced, hCompleted, hOthers⟩ := Dossier.complete_spec hs.integrity hStep.applied.1
  by_cases hOwner : id = attempt.deliveryID
  · subst hOwner
    obtain ⟨_, hGeneration, hDelivering, _⟩ := DeliveryRow.fenced_iff.mp hFenced
    have hFree := (hs.history hRow).present
    rw [hDelivering] at hFree
    rw [hCompleted] at hRow' ⊢
    cases hRow'
    refine ⟨attempt.leaseToken, status, ?_, attempt.row .succeeded attemptID, ?_, rfl, hStatus, rfl⟩
    · change Answered _ _ _ row.generation _ _
      rw [hGeneration]
      exact hAnswered.next hs hAdvances
    · change owned AttemptRow.generation row.generation (_ ++ [attempt.row .succeeded attemptID]) = _
      rw [owned_append, show owned AttemptRow.generation row.generation _ = [] from hFree]
      simp [owned, AttemptResult.row, hGeneration]
  · rw [hOthers id hOwner] at hRow' ⊢
    obtain ⟨token, status, hOld, hRecorded⟩ := h id row' hRow' hSucceeded
    exact ⟨token, status, hOld.next hs hAdvances, hRecorded⟩

theorem Grounded.inert {i : Nat} {x : Process} (h : x.Inert) : Grounded i history s x := by
  unfold Grounded
  split
  · exact h.elim
  · exact h.elim
  · trivial

theorem SuccessesAnswered.step {i : Nat} {x x' : Process} (hs : s.store.Reachable)
    (hG : SuccessesAnswered history s) (hL : Grounded i history s x) (hAdvances : s.Advances s' label)
    (h : Act.Kind i s s' x label x') :
    SuccessesAnswered (label :: history) s' ∧ Grounded i (label :: history) s' x' := by
  cases h with
  | plain hLabel hInert =>
    refine ⟨hG.keep hs hAdvances ?_, .inert hInert⟩
    rintro actor r result attemptID before rfl
    exact hLabel
  | claimed hStep hAnswer =>
    obtain ⟨hID, hGeneration, _, hToken⟩ := claimDelivery_task hAnswer
    refine ⟨hG.keep hs hAdvances (by simp), _, hToken, ?_, ?_⟩
    · rw [hID, hGeneration]
      exact ⟨_, _, _, _, List.mem_cons_self⟩
    · rw [hID]
      exact hStep.claim_bound hs hAnswer
  | claimLost _ hInert => exact ⟨hG.keep hs hAdvances (by simp), .inert hInert⟩
  | @sent signal task destination _ _ _ _ result err hSame =>
    subst hSame
    refine ⟨hG.keep hs hAdvances (by simp), fun hSuccess => ?_⟩
    obtain ⟨rfl, hOk⟩ := settle_success_iff.mp hSuccess
    obtain ⟨hID, hGeneration, hToken, hStatus⟩ := settle_lease
    obtain ⟨token, hTask, hClaimed, hBound⟩ := hL
    refine ⟨result.statusCode, ?_, hStatus⟩
    rw [hID, hGeneration, hToken, hTask]
    exact ⟨i, task, destination, result, [], history, rfl, hClaimed, rfl, rfl, rfl, hBound, hOk⟩
  | @completed signal completion attempt attemptID _ _ hStep hInert =>
    refine ⟨?_, .inert hInert⟩
    cases completion with
    | success =>
      obtain ⟨status, hAnswered, hStatus⟩ := hL rfl
      exact hG.complete hs hStep hAnswered hStatus
    | retry next => exact hG.keep hs hAdvances (by simp)
    | permanent => exact hG.keep hs hAdvances (by simp)

theorem Run.success_answered (h : Run setting history w) :
    SuccessesAnswered history w.shared ∧ ∀ i, Grounded i history w.shared (w.procs i) := by
  refine Run.invariant (G := SuccessesAnswered) (L := Grounded) ?_ (fun _ _ => trivial) ?_ ?_ h
  · intro t id row hRow
    cases hRow
  · intro history w label s hRun hG hStep
    have hs := hRun.reachable
    refine ⟨hG.keep hs hStep.advances ?_, fun i x hL => hL.next hs hStep.advances⟩
    rintro actor r result attemptID before rfl
    exact hStep.plain
  · intro i history w label s x hRun hG hL hStep
    have hs := hRun.reachable
    obtain ⟨hAnswered, hOwn⟩ := hG.step hs hL hStep.advances hStep.kind
    exact ⟨hAnswered, hOwn, fun j y _ hOther => hOther.next hs hStep.advances⟩

/-- Whenever a delivery is `succeeded` at `g`, a send under a claim of `(id, g)` returned no error and a
status its bound version accepts, and its only attempt at `g` has class `succeeded`, that status (NULL for
the status code 0) and the token of that claim. A send that failed or was not accepted never leads there. -/
theorem success_has_response (h : Run setting history w) :
    (∀ id row, (w.shared.store.db.dossier id).row = some row → row.status = .succeeded →
      ∃ token status, Answered history w.shared.store id row.generation token status ∧
        Recorded (w.shared.store.db.dossier id) row.generation token status) ∧
    (∀ i task destination result err, Label.send i task destination result err ∈ history →
      err ≠ none ∨ classify result.statusCode err destination ≠ .succeeded →
      w.shared.store.db.phase task.id ≠ some (.succeeded, task.generation)) := by
  refine ⟨h.success_answered.1, ?_⟩
  intro i task destination result err hSent hRejected hPhase
  obtain ⟨row, hRow, hPair⟩ := Option.map_eq_some_iff.mp hPhase
  obtain ⟨hSucceeded, hGeneration⟩ := Prod.mk.inj hPair
  obtain ⟨token, status, ⟨i', task', destination', result', later, earlier, hHistory, _, hID, hGeneration', hStatus,
    hBound, hOk⟩, _⟩ := h.success_answered.1 task.id row hRow hSucceeded
  -- both sends are for the same generation, so they are the same send
  have hSame : Label.send i' task' destination' result' none = .send i task destination result err :=
    h.send_unique task.id task.generation (by simp [hHistory]) hSent
      (by simp [Label.sends, hID, hGeneration', hGeneration]) (by simp [Label.sends])
  cases hSame
  rcases hRejected with hErr | hClass
  · exact hErr rfl
  · exact hClass (classify_succeeded_iff.mpr ⟨rfl, hStatus ▸ hOk⟩)

/-- The supplier answers 200, and the success is recorded with that status. -/
theorem success_has_response_ok :
    ∃ history w row, Run closedSetting history w ∧ (w.shared.store.db.dossier 100).row = some row ∧
      row.status = .succeeded ∧ ∃ token status,
        Recorded (w.shared.store.db.dossier 100) row.generation token status := by
  have hPlay : ((start 0).play [] (Sample.claimedScript ++
      [.send 1 8000 9000 ⟨200, ""⟩ none, .complete 1 9 105])).any (fun run =>
        (run.2.shared.store.db.dossier 100).row.any fun row => row.status = .succeeded) = true := by
    decide +kernel
  obtain ⟨⟨history, w⟩, hRun, hFound⟩ := (Option.any_eq_true _ _).mp hPlay
  obtain ⟨row, hRow, hStatus⟩ := (Option.any_eq_true _ _).mp hFound
  have h : Run closedSetting history w := run_of_play ⟨0, .refl⟩ hRun
  obtain ⟨token, status, _, hRecorded⟩ :=
    (success_has_response h).1 100 row hRow (of_decide_eq_true hStatus)
  exact ⟨history, w, row, h, hRow, of_decide_eq_true hStatus, token, status, hRecorded⟩

/-- A destination version that accepts the status code 0 only. -/
def zeroDestination : DestinationVersion := { Sample.destination with successStatuses := some [0] }

/-- A send of delivery `id` that returned the status code 0, where its version accepts that. -/
def Label.zeroAccepted (id : UUID) : Label → Bool
  | .send _ task destination result none =>
    task.id = id && result.statusCode = 0 && isSuccess 0 destination.successStatuses
  | _ => false

/-- The supplier answers with the status code 0, which the destination version accepts: the delivery is
succeeded, but its attempt holds no status. -/
theorem success_without_status :
    ∃ history w, Run closedSetting history w ∧ w.shared.store.db.phase 100 = some (.succeeded, 0) ∧
      (∃ i task destination result, Label.send i task destination result none ∈ history ∧ task.id = 100 ∧
        result.statusCode = 0 ∧ isSuccess 0 destination.successStatuses = true) ∧
      ((w.shared.store.db.dossier 100).attemptsAt 0).map AttemptRow.responseStatus = [none] := by
  have hPlay : ((start 0).play []
      ([.commit 1 (.bootstrap 3 ⟨"shop", "key", zeroDestination⟩)] ++ Sample.claimedScript.drop 1 ++
      [.send 1 8000 9000 ⟨0, ""⟩ none, .complete 1 9 105])).any (fun run =>
        run.2.shared.store.db.phase 100 = some (.succeeded, 0) &&
        run.1.any (Label.zeroAccepted 100) &&
        ((run.2.shared.store.db.dossier 100).attemptsAt 0).map AttemptRow.responseStatus = [none]) = true := by
    decide +kernel
  obtain ⟨⟨history, w⟩, hRun, hFacts⟩ := (Option.any_eq_true _ _).mp hPlay
  simp only [Bool.and_eq_true, decide_eq_true_eq] at hFacts
  obtain ⟨⟨hPhase, hSent⟩, hStatuses⟩ := hFacts
  refine ⟨history, w, run_of_play ⟨0, .refl⟩ hRun, hPhase, ?_, hStatuses⟩
  obtain ⟨label, hLabel, hMatch⟩ := List.any_eq_true.mp hSent
  unfold Label.zeroAccepted at hMatch
  split at hMatch
  · rename_i i task destination result
    simp only [Bool.and_eq_true, decide_eq_true_eq] at hMatch
    exact ⟨i, task, destination, result, hLabel, hMatch.1.1, hMatch.1.2, hMatch.2⟩
  · cases hMatch

end System

end ReliableNotifier
