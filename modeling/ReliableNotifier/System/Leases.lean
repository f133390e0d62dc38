import ReliableNotifier.Lifecycle.Constraints
import ReliableNotifier.System.Execution

/-! # The result of a valid lease

Whether there is time for a retry is decided by `Worker.Process`, in nanoseconds and on
the copy it claimed, and again by the guard of the `UPDATE`, in microseconds and on the
row. The row that still bears the token of a claim is the row that was claimed, and
cutting an instant down to microseconds does not move it past a whole microsecond.
-/

namespace ReliableNotifier

open Checked RowTable

/-- The Go test on a deadline that was read from a row is the SQL guard on that row. -/
theorem lt_nanoseconds_iff {t : GoTime} {u : Time} : t < nanoseconds u ↔ microseconds t < u :=
  (Int.ediv_lt_iff_lt_mul (by decide)).symm

namespace Store

variable {s t : Store} {action : Action} {claimed row : DeliveryRow} {r : Readings}

/-- The row was claimed, and whatever row bears its token is that row still. -/
structure Leases (s : Store) (claimed : DeliveryRow) : Prop where
  delivering : claimed.status = .delivering
  owner : ∃ owner, claimed.leaseOwner = some owner
  token : ∃ token, claimed.leaseToken = some token ∧ token ∈ s.issued
  unchanged : ∀ row, (s.db.dossier claimed.id).row = some row →
    row.leaseToken = claimed.leaseToken → row = claimed

/-- A row that bears a token is changed only by a step that takes the token away. -/
theorem Leases.step (hs : s.Reachable) (h : s.Leases claimed) (hStep : Step s action t) : t.Leases claimed := by
  obtain ⟨token, hToken, hIssued⟩ := h.token
  refine ⟨h.delivering, h.owner, ⟨token, hToken, hStep.issued_subset hIssued⟩, fun row' hRow' hSame => ?_⟩
  cases hStep.advance hs.integrity claimed.id with
  | stay _ _ hDossier => exact h.unchanged row' (hDossier ▸ hRow') hSame
  | move _ _ _ hFresh _ hMove =>
    have hOld := h.unchanged
    generalize s.db.dossier claimed.id = d at hOld hMove
    generalize t.db.dossier claimed.id = d' at hRow' hMove
    cases hMove with
    | submit | complete =>
      cases hRow'
      cases hSame.trans hToken
    | events | schedule =>
      cases hRow'
      exact hOld _ rfl hSame
    | claim hDue =>
      cases hRow'
      cases hSame.trans hToken
      exact absurd hIssued (hFresh token (List.mem_singleton_self _))
    | @expire row _ _ _ _ _ _ _ hPast =>
      cases hRow'
      have hClaimed := h.delivering
      rw [← hOld row rfl hSame, (DeliveryRow.pastDeadline_iff.mp hPast).1] at hClaimed
      cases hClaimed
    | recover | abandon | replay =>
      cases hRow'
      cases hSame.trans hToken
    | delete => cases hRow'

theorem Later.leases (hs : s.Reachable) (h : s.Leases claimed) (hLater : s.Later t) : t.Leases claimed :=
  Later.invariant (I := fun s => s.Leases claimed) hs h (fun _ _ _ hu hI hStep => hI.step hu hStep) hLater

theorem Step.leases {id : UUID} {g : Nat} {owner : String} {leaseDuration : Duration} {token : UUID}
    {grant : Delivery × DestinationVersion} (hs : s.Reachable)
    (hStep : Step s (.commit r (.claimDelivery id g owner leaseDuration token)) t)
    (hAnswer : Prod.fst <$> claimDelivery r id g owner leaseDuration token s.db = .ok grant) :
    ∃ claimed, grant.1 = claimed.loadClaimed ∧ t.Leases claimed := by
  obtain ⟨⟨_, db⟩, hClaim, rfl⟩ := map_ok_iff.mp hAnswer
  have hDb : t.db = db := by
    obtain ⟨⟨_, db'⟩, hClaim', hSame⟩ := map_ok_iff.mp hStep.applied.1
    cases hClaim.symm.trans hClaim'
    exact hSame.symm
  obtain ⟨row, _, hDue, hClaimed, _, hTask, _⟩ := Dossier.claimDelivery_spec hs.integrity hClaim
  have hID : row.id = id := (DeliveryRow.due_iff.mp hDue).1
  have hToken := (hStep.drawn (List.mem_singleton_self token)).2
  refine ⟨_, hTask, rfl, ⟨owner, rfl⟩, ⟨token, rfl, hToken⟩, fun row' hRow' _ => ?_⟩
  have hHere : (t.db.dossier id).row = some (row.claim r owner leaseDuration token) := by
    rw [hDb, hClaimed]
  exact Option.some.inj (hRow'.symm.trans ((congrArg (fun id => (t.db.dossier id).row) hID).trans hHere))

end Store

namespace System

variable {setting : Setting} {history : List Label} {w w' : System} {s s' : Shared} {label : Label} {i : Nat}
  {x x' : Process} {task : Delivery} {destination : DestinationVersion}

/-- A process that is about to send holds the lease of its task. -/
def HoldsLease (s : Shared) : Process → Prop
  | .consumer (.sending _ task _) => ∃ claimed, task = DeliveryRow.loadClaimed claimed ∧ s.store.Leases claimed
  | _ => True

theorem HoldsLease.inert (h : x.Inert) : HoldsLease s x := by
  unfold HoldsLease
  split
  · exact h.elim
  · trivial

theorem HoldsLease.next (hs : s.store.Reachable) (hAdvances : s.Advances s' label) (h : HoldsLease s x) :
    HoldsLease s' x := by
  unfold HoldsLease at h ⊢
  split
  · obtain ⟨claimed, hTask, hLeases⟩ := h
    obtain ⟨_, hStep⟩ := hAdvances.step
    exact ⟨claimed, hTask, hLeases.step hs hStep⟩
  · trivial

theorem HoldsLease.of_kind (hs : s.store.Reachable) (h : Act.Kind i s s' x label x') : HoldsLease s' x' := by
  cases h with
  | plain _ hInert | claimLost _ hInert | completed _ hInert => exact .inert hInert
  | claimed hStep hAnswer => exact hStep.leases hs hAnswer
  | sent => trivial

theorem Run.holdsLease (h : Run setting history w) (i : Nat) : HoldsLease w.shared (w.procs i) := by
  refine (Run.invariant (G := fun _ _ => True) (L := fun _ _ s x => HoldsLease s x) (fun _ => trivial)
    (fun _ _ => trivial) ?_ ?_ h).2 i
  · intro history w label s hRun _ hStep
    exact ⟨trivial, fun i x hOwn => hOwn.next hRun.reachable hStep.advances⟩
  · intro i history w label s x hRun _ _ hStep
    exact ⟨trivial, .of_kind hRun.reachable hStep.kind,
      fun j y _ hOther => hOther.next hRun.reachable hStep.advances⟩

/-- What a worker settles on fits the row it claimed as long as the lease is live. -/
theorem fenced_settle {claimed : DeliveryRow} {r : Readings} (hDelivering : claimed.status = .delivering)
    (hOwner : ∃ owner, claimed.leaseOwner = some owner) (hToken : ∃ token, claimed.leaseToken = some token)
    (hLive : ∃ t, claimed.leaseUntil = some t ∧ r.scan claimed.id 0 < t) (parseTime : String → Option GoTime)
    (jitter : Duration → Duration) (destination : DestinationVersion) (startedAt finishedAt : GoTime) (result : Result)
    (err : Option SendError) :
    claimed.fenced r (settle parseTime jitter claimed.loadClaimed destination startedAt finishedAt result err).2
      (settle parseTime jitter claimed.loadClaimed destination startedAt finishedAt result err).1.resultClass
      (settle parseTime jitter claimed.loadClaimed destination startedAt finishedAt result err).1.nextAttemptAt =
        true := by
  obtain ⟨owner, hOwner⟩ := hOwner
  obtain ⟨token, hToken⟩ := hToken
  have hLease (category : String) :
      (claimed.loadClaimed.attempt startedAt finishedAt result category).deliveryID = claimed.id ∧
      (claimed.loadClaimed.attempt startedAt finishedAt result category).generation = claimed.generation ∧
      claimed.leaseOwner = some (claimed.loadClaimed.attempt startedAt finishedAt result category).leaseOwner ∧
      claimed.leaseToken = some (claimed.loadClaimed.attempt startedAt finishedAt result category).leaseToken := by
    refine ⟨rfl, rfl, ?_, ?_⟩ <;> simp [Delivery.attempt, DeliveryRow.loadClaimed, hOwner, hToken]
  have hFits {category : String} (completion : Completion)
      (hRetry : completion.resultClass = .retryableFailure →
        ∃ t, completion.nextAttemptAt = some t ∧ microseconds t < claimed.retryDeadline) :
      claimed.fenced r (claimed.loadClaimed.attempt startedAt finishedAt result category) completion.resultClass
        completion.nextAttemptAt = true := by
    obtain ⟨hID, hGeneration, hSameOwner, hSameToken⟩ := hLease category
    exact DeliveryRow.fenced_iff.mpr ⟨hID.symm, hGeneration.symm, hDelivering, hSameOwner, hSameToken, hLive, hRetry⟩
  unfold settle
  split
  · exact hFits .success nofun
  · exact hFits .permanent nofun
  · dsimp only
    split
    · rename_i hTime
      exact hFits (.retry _) fun _ => ⟨_, rfl, lt_nanoseconds_iff.mp hTime⟩
    · exact hFits .permanent nofun

theorem completeResult_eq {db : Database} {r : Readings} {attempt : AttemptResult} {completion : Completion}
    {attemptID : UUID} :
    (Op.complete completion attempt attemptID).apply r db =
      completeResult r attempt completion.resultClass completion.nextAttemptAt attemptID db := by
  cases completion <;> rfl

/-- With one matching row a result is refused only by the table of attempts. -/
theorem completeResult_avoids_lost {db : Database} {r : Readings} {attempt : AttemptResult} {resultClass : ResultClass}
    {next : Option GoTime} {attemptID : UUID}
    (hCount : db.deliveries.countP (DeliveryRow.fenced r attempt resultClass next) = 1) :
    Avoids (· = StoreError.workerLeaseLost) (completeResult r attempt resultClass next attemptID db) := by
  refine .bind (.of_eq (Database.updateDeliveries_eq fun row _ _ => row.leaseTupleConsistent_complete))
    fun completed _ => .bind (.ensure (.inl (decide_eq_true hCount))) fun _ _ => ?_
  unfold Database.insertAttempt
  refine .bind (.ensure (.inr nofun)) fun _ _ => .bind (.ensure (.inr nofun)) fun _ _ => ?_
  exact .bind (.ensure (.inr nofun)) fun _ _ => .bind (.ensure (.inr nofun)) fun _ _ => .ok _

theorem completeResult_error {db : Database} {r : Readings} {attempt : AttemptResult} {resultClass : ResultClass}
    {next : Option GoTime} {attemptID : UUID} :
    Avoids (fun err => ¬(err = .workerLeaseLost ∨ err.IsPoison))
      (completeResult r attempt resultClass next attemptID db) := by
  refine .bind (.of_eq (Database.updateDeliveries_eq fun row _ _ => row.leaseTupleConsistent_complete))
    fun completed _ => .bind (.ensure (.inr (not_not.mpr (.inl rfl)))) fun _ _ => ?_
  unfold Database.insertAttempt
  refine .bind (.ensure (.inr (not_not.mpr (.inr trivial)))) fun _ _ =>
    .bind (.ensure (.inr (not_not.mpr (.inr trivial)))) fun _ _ => ?_
  exact .bind (.ensure (.inr (not_not.mpr (.inr trivial)))) fun _ _ =>
    .bind (.ensure (.inr (not_not.mpr (.inr trivial)))) fun _ _ => .ok _

theorem completeResult_accepts {s : Store} {r : Readings} {attempt : AttemptResult} {resultClass : ResultClass}
    {next : Option GoTime} {attemptID : UUID} (hs : s.Reachable)
    (hCount : s.db.deliveries.countP (DeliveryRow.fenced r attempt resultClass next) = 1)
    (hOrder : attempt.startedAt ≤ attempt.finishedAt) (hFresh : attemptID ∉ s.issued) :
    ∃ db, completeResult r attempt resultClass next attemptID s.db = .ok db := by
  cases hResult : completeResult r attempt resultClass next attemptID s.db with
  | ok db => exact ⟨db, rfl⟩
  | error err =>
    rcases not_not.mp (completeResult_error err hResult) with hLost | hPoison
    · exact absurd hLost (completeResult_avoids_lost hCount err hResult)
    · exact absurd hPoison (hs.completeResult_avoids hFresh hOrder err hResult)

/-- A worker that still holds its lease when it reports updates its row, whatever the send came to. The test it makes
on its copy and the guard of the statement agree at every instant. -/
theorem valid_result_recorded (h : Run setting history w) {signal : Signal}
    (hSending : w.procs i = .consumer (.sending signal task destination)) (hLater : Later setting w w')
    (parseTime : String → Option GoTime) (jitter : Duration → Duration) (startedAt finishedAt : GoTime)
    (result : Result) (err : Option SendError) {r : Readings} {row : DeliveryRow}
    (hRow : row ∈ w'.shared.store.db.deliveries) (hID : row.id = task.id) (hToken : row.leaseToken = task.leaseToken)
    (hLive : ∃ t, row.leaseUntil = some t ∧ r.scan row.id 0 < t) {completion : Completion} {attempt : AttemptResult}
    (hSettle : settle parseTime jitter task destination startedAt finishedAt result err = (completion, attempt)) :
    w'.shared.store.db.deliveries.countP
        (DeliveryRow.fenced r attempt completion.resultClass completion.nextAttemptAt) = 1 ∧
      (∀ attemptID, (Op.complete completion attempt attemptID).apply r w'.shared.store.db ≠ .error .workerLeaseLost) ∧
      (∀ next : GoTime, next < task.retryDeadline ↔ microseconds next < row.retryDeadline) ∧
      (startedAt ≤ finishedAt → ∀ attemptID, attemptID ∉ w'.shared.store.issued →
        ∃ db, (Op.complete completion attempt attemptID).apply r w'.shared.store.db = .ok db ∧
          (db.dossier task.id).row =
            some (row.complete r completion.resultClass (completion.nextAttemptAt.map microseconds))) := by
  have hs : w'.shared.store.Reachable := h.reachable.later hLater.store
  have hHolds := h.holdsLease i
  rw [hSending] at hHolds
  obtain ⟨claimed, rfl, hBefore⟩ := hHolds
  have hLeases := hLater.store.leases h.reachable hBefore
  obtain rfl := hLeases.unchanged row (hs.integrity.dossier_row_iff.mpr ⟨hRow, hID⟩) hToken
  obtain ⟨token, hToken, _⟩ := hLeases.token
  have hFenced := fenced_settle hLeases.delivering hLeases.owner ⟨token, hToken⟩ hLive
    parseTime jitter destination startedAt finishedAt result err
  have hLease := @settle_lease parseTime jitter row.loadClaimed destination startedAt finishedAt result err
  have hTimes := @settle_times parseTime jitter row.loadClaimed destination startedAt finishedAt result err
  rw [hSettle] at hFenced hLease hTimes
  have hCount : w'.shared.store.db.deliveries.countP
      (DeliveryRow.fenced r attempt completion.resultClass completion.nextAttemptAt) = 1 := by
    refine countP_eq_one hs.integrity.deliveryIDs hRow hFenced fun other _ hOther => ?_
    exact (DeliveryRow.fenced_iff.mp hOther).1.trans hLease.1
  refine ⟨hCount, fun attemptID hLost => ?_, fun next => lt_nanoseconds_iff, fun hOrder attemptID hFresh => ?_⟩
  · exact completeResult_avoids_lost hCount _ (completeResult_eq.symm.trans hLost) rfl
  · obtain ⟨db, hDb⟩ := completeResult_accepts hs hCount (by rwa [hTimes.1, hTimes.2]) hFresh
    have hApply := completeResult_eq.trans hDb
    refine ⟨db, hApply, ?_⟩
    obtain ⟨other, hOther, _, hCompleted, _⟩ := Dossier.complete_spec hs.integrity hApply
    rw [hLease.1] at hOther hCompleted
    have hSame := hOther.symm.trans (hs.integrity.dossier_row_iff.mpr ⟨hRow, rfl⟩)
    change (db.dossier row.loadClaimed.id).row = _
    rw [hCompleted, Option.some.inj hSame]

/-- What process `i` is about to send, and where. -/
def aboutToSend (w : System) (i : Nat) : Option (Delivery × DestinationVersion) :=
  match w.procs i with
  | .consumer (.sending _ task destination) => some (task, destination)
  | _ => none

theorem sending_of_aboutToSend (h : w.aboutToSend i = some (task, destination)) :
    ∃ signal, w.procs i = .consumer (.sending signal task destination) := by
  unfold aboutToSend at h
  split at h
  · rename_i signal _ _ hHere
    cases h
    exact ⟨signal, hHere⟩
  · cases h

/-- The row of `task` bears its token, under a lease that is live at `t`. -/
def liveAt (w : System) (task : Delivery) (t : Time) : Bool :=
  (w.shared.store.db.dossier task.id).row.any fun row =>
    row.leaseToken = task.leaseToken && row.leaseUntil.any (t < ·)

/-- The supplier answers 503 one nanosecond before the deadline. The worker asks for a retry in that nanosecond, and
the guard lets it through. -/
theorem valid_result_recorded_boundary :
    ∃ history w signal task destination attempt, Run closedSetting history w ∧
      w.procs 1 = .consumer (.sending signal task destination) ∧
      settle (fun _ => none) (fun _ => 0) task destination 8000 (task.retryDeadline - 1) ⟨503, ""⟩ none =
        (.retry (task.retryDeadline - 1), attempt) ∧
      w.shared.store.db.deliveries.countP
        (DeliveryRow.fenced (.instant 9) attempt .retryableFailure (some (task.retryDeadline - 1))) = 1 := by
  have hPlay : ((start 0).play [] Sample.claimedScript).any (fun run => (run.2.aboutToSend 1).any fun sent =>
      run.2.liveAt sent.1 9 && (settle (fun _ => none) (fun _ => 0) sent.1 sent.2 8000 (sent.1.retryDeadline - 1)
        ⟨503, ""⟩ none).1 = .retry (sent.1.retryDeadline - 1)) = true := by
    decide +kernel
  obtain ⟨⟨history, w⟩, hRun, hFound⟩ := (Option.any_eq_true _ _).mp hPlay
  obtain ⟨⟨task, destination⟩, hSent, hFound⟩ := (Option.any_eq_true _ _).mp hFound
  obtain ⟨hLive, hRetry⟩ := Bool.and_eq_true_iff.mp hFound
  obtain ⟨row, hRow, hLive⟩ := (Option.any_eq_true _ _).mp hLive
  obtain ⟨hToken, hLive⟩ := Bool.and_eq_true_iff.mp hLive
  obtain ⟨leaseUntil, hUntil, hBefore⟩ := (Option.any_eq_true _ _).mp hLive
  have h : Run closedSetting history w := run_of_play ⟨0, .refl⟩ hRun
  obtain ⟨signal, hSending⟩ := sending_of_aboutToSend hSent
  obtain ⟨hMem, hID⟩ := h.reachable.integrity.dossier_row_iff.mp hRow
  obtain ⟨completion, attempt, hSettle⟩ : ∃ completion attempt, settle (fun _ => none) (fun _ => 0) task destination
      8000 (task.retryDeadline - 1) ⟨503, ""⟩ none = (completion, attempt) := ⟨_, _, rfl⟩
  obtain rfl : completion = .retry (task.retryDeadline - 1) :=
    (congrArg Prod.fst hSettle).symm.trans (of_decide_eq_true hRetry)
  refine ⟨history, w, signal, task, destination, attempt, h, hSending, hSettle, ?_⟩
  exact (valid_result_recorded h hSending ⟨[], .refl⟩ (fun _ => none) (fun _ => 0) 8000 (task.retryDeadline - 1)
    ⟨503, ""⟩ none hMem hID (of_decide_eq_true hToken) ⟨leaseUntil, hUntil, of_decide_eq_true hBefore⟩ hSettle).1

end System

end ReliableNotifier
