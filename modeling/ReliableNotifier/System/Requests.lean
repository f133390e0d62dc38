import ReliableNotifier.Lifecycle.Identity
import ReliableNotifier.System.Dispatch
import ReliableNotifier.Wire.UUID

/-! # Every send of a delivery is the same request

A worker sends what its claim handed to it. All claims of a delivery read the columns of one
request and one destination version, however often the delivery is retried, recovered or
replayed in between.
-/

namespace ReliableNotifier

open Checked RowTable Interleaving

/-- A task and the destination version that comes with it. -/
abbrev Grant := Delivery × DestinationVersion

/-- What the supplier sees of two tasks is the same. -/
structure SameSend (a b : Grant) : Prop where
  method : a.1.method = b.1.method
  callerHeaders : a.1.callerHeaders = b.1.callerHeaders
  body : a.1.body = b.1.body
  supplierIdempotencyValue : a.1.supplierIdempotencyValue = b.1.supplierIdempotencyValue
  destination : a.2 = b.2

theorem SameSend.refl (a : Grant) : SameSend a a := ⟨rfl, rfl, rfl, rfl, rfl⟩

theorem SameSend.symm {a b : Grant} (h : SameSend a b) : SameSend b a :=
  ⟨h.method.symm, h.callerHeaders.symm, h.body.symm, h.supplierIdempotencyValue.symm, h.destination.symm⟩

namespace Store

variable {s t : Store} {r : Readings} {row : DeliveryRow} {grant : Grant}

/-- The task carries the request of the row, and its destination is the version bound to the row. -/
structure Carries (s : Store) (row : DeliveryRow) (grant : Grant) : Prop where
  method : grant.1.method = row.method
  callerHeaders : grant.1.callerHeaders = row.callerHeaders
  body : grant.1.body = row.body
  supplierIdempotencyValue : grant.1.supplierIdempotencyValue = row.supplierIdempotencyValue
  destination : s.db.queryDestinationVersion row.destinationID row.destinationVersion = .ok grant.2

/-- The delivery of the task is known, and what is left of it still asks for that request. -/
def Backs (s : Store) (grant : Grant) : Prop :=
  grant.1.id ∈ s.issued ∧ ∀ row, (s.db.dossier grant.1.id).row = some row → s.Carries row grant

theorem Carries.sameSend {other : Grant} (h : s.Carries row grant) (hOther : s.Carries row other) :
    SameSend grant other where
  method := h.method.trans hOther.method.symm
  callerHeaders := h.callerHeaders.trans hOther.callerHeaders.symm
  body := h.body.trans hOther.body.symm
  supplierIdempotencyValue := h.supplierIdempotencyValue.trans hOther.supplierIdempotencyValue.symm
  destination := Except.ok.inj (h.destination.symm.trans hOther.destination)

theorem Backs.step {action : Action} (hs : s.Reachable) (h : s.Backs grant) (hStep : Step s action t) :
    t.Backs grant := by
  refine ⟨hStep.issued_subset h.1, fun row' hRow' => ?_⟩
  obtain ⟨row, hRow, hSame⟩ := hStep.identity_eq hs h.1 hRow'
  obtain ⟨more, hMore⟩ := hStep.versions
  have hCarries := h.2 row hRow
  have hRequest := DeliveryRow.sameRequest_of_identity hSame
  refine ⟨hCarries.method.trans hRequest.method.symm, hCarries.callerHeaders.trans hRequest.callerHeaders.symm,
    hCarries.body.trans hRequest.body.symm,
    hCarries.supplierIdempotencyValue.trans hRequest.supplierIdempotencyValue.symm, ?_⟩
  rw [hRequest.destinationID, hRequest.destinationVersion]
  exact Database.queryDestinationVersion_append hMore hCarries.destination

/-- What a claim hands out is the request of the row it claims. -/
theorem Reachable.claim_carries {deliveryID : UUID} {generation : Nat} {owner : String} {leaseDuration : Duration}
    {token : UUID} (hs : s.Reachable)
    (h : Prod.fst <$> claimDelivery r deliveryID generation owner leaseDuration token s.db = .ok grant) :
    ∃ row, (s.db.dossier grant.1.id).row = some row ∧ s.Carries row grant := by
  obtain ⟨⟨_, final⟩, hClaim, rfl⟩ := map_ok_iff.mp h
  obtain ⟨row, hFind, _, hTask, hDestination⟩ := claimDelivery_ok hClaim
  refine ⟨row, hs.integrity.dossier_row_iff.mpr ⟨List.mem_of_find?_eq_some hFind, by rw [hTask]; rfl⟩, ?_⟩
  refine ⟨?_, ?_, ?_, ?_, hDestination⟩ <;> rw [hTask] <;> rfl

end Store

/-- The supplier's value of the delivery is its identifier. -/
def Dossier.Stamped (d : Dossier) : Prop :=
  ∀ row, d.row = some row → row.supplierIdempotencyValue = uuidText row.id

theorem Dossier.Move.stamped {r : Readings} {op : Op} {d d' : Dossier} (h : Move r op d d')
    (hFirst : ∀ backlogLimit submission deliveryID outboxID traceID,
      op = .submit backlogLimit submission deliveryID outboxID traceID → submission.FromAPI)
    (hStamped : d.Stamped) : d'.Stamped := by
  intro row' hRow'
  rcases h.row_cases hRow' with ⟨_, submission, _, _, _, hOp, rfl⟩ | ⟨row, hRow, hSame⟩
  · simp only [Submission.row, Submission.supplierValue, (hFirst _ _ _ _ _ hOp).1, if_true]
  · have hRequest := DeliveryRow.sameRequest_of_identity hSame
    rw [hRequest.supplierIdempotencyValue, hRequest.id]
    exact hStamped row hRow

/-- What a committed claim hands to its worker. -/
def Label.grant : Label → Option Grant
  | commit _ r (.claimDelivery deliveryID generation owner leaseDuration token) before =>
    (Prod.fst <$> claimDelivery r deliveryID generation owner leaseDuration token before).toOption
  | _ => none

namespace System

variable {setting : Setting} {s s' : Shared} {label : Label} {history : List Label} {w : System} {i : Nat}
  {x x' : Process} {grant : Grant}

def grants (history : List Label) : List Grant := history.filterMap Label.grant

/-- The tasks handed out so far. -/
structure Granted (history : List Label) (s : Store) : Prop where
  backed : ∀ grant ∈ grants history, s.Backs grant
  same : ∀ a ∈ grants history, ∀ b ∈ grants history, a.1.id = b.1.id → SameSend a b
  sent : ∀ i task destination result err, .send i task destination result err ∈ history →
    (task, destination) ∈ grants history

/-- A process that is about to send has been handed its task. -/
def Entitled (history : List Label) : Process → Prop
  | .consumer (.sending _ task destination) => (task, destination) ∈ grants history
  | _ => True

theorem mem_grants_cons (h : grant ∈ grants history) : grant ∈ grants (label :: history) := by
  rw [grants, LabelledRun.filterMap_cons]
  exact List.mem_append_right _ h

theorem Entitled.cons (h : Entitled history x) : Entitled (label :: history) x := by
  unfold Entitled at h ⊢
  split
  · exact mem_grants_cons h
  · trivial

theorem Process.Inert.entitled (h : x.Inert) : Entitled history x := by
  unfold Entitled
  split
  · exact h.elim
  · trivial

/-- A step that hands out no task and sends nothing new. -/
theorem Granted.quiet {s t : Store} {action : Store.Action} (h : Granted history s) (hs : s.Reachable)
    (hStep : Store.Step s action t) (hNone : label.grant = none)
    (hSent : ∀ i task destination result err, label = .send i task destination result err →
      (task, destination) ∈ grants history) : Granted (label :: history) t := by
  have hSame : grants (label :: history) = grants history := by
    rw [grants, LabelledRun.filterMap_cons, hNone]
    rfl
  refine ⟨fun grant hGrant => (h.backed grant (hSame ▸ hGrant)).step hs hStep, hSame ▸ h.same, ?_⟩
  intro i task destination result err hSend
  rw [hSame]
  rcases List.mem_cons.mp hSend with rfl | hOld
  · exact hSent i task destination result err rfl
  · exact h.sent i task destination result err hOld

/-- A claim hands out the request that all earlier claims of the delivery handed out. -/
theorem Granted.claim {s t : Store} {action : Store.Action} {row : DeliveryRow} (h : Granted history s)
    (hs : s.Reachable) (hStep : Store.Step s action t) (hGrant : label.grant = some grant)
    (hRow : (s.db.dossier grant.1.id).row = some row) (hCarries : s.Carries row grant) :
    Granted (label :: history) t := by
  have hCons : grants (label :: history) = grant :: grants history := by
    rw [grants, LabelledRun.filterMap_cons, hGrant]
    rfl
  have hBacks : s.Backs grant := by
    refine ⟨hs.issued_of_phase (Store.phase_of_row hRow), fun other hOther => ?_⟩
    obtain rfl := Option.some.inj (hRow.symm.trans hOther)
    exact hCarries
  have hOld (other : Grant) (hOther : other ∈ grants history) (hID : other.1.id = grant.1.id) :
      SameSend other grant :=
    ((h.backed other hOther).2 row (hID ▸ hRow)).sameSend hCarries
  refine ⟨?_, ?_, ?_⟩
  · rw [hCons]
    exact List.forall_mem_cons.mpr ⟨hBacks.step hs hStep, fun other hOther => (h.backed other hOther).step hs hStep⟩
  · rw [hCons]
    intro a ha b hb hID
    rcases List.mem_cons.mp ha with rfl | hPastA <;> rcases List.mem_cons.mp hb with rfl | hPastB
    · exact SameSend.refl _
    · exact (hOld b hPastB hID.symm).symm
    · exact hOld a hPastA hID
    · exact h.same a hPastA b hPastB hID
  · intro i task destination result err hSend
    rcases List.mem_cons.mp hSend with rfl | hPast
    · cases hGrant
    · exact mem_grants_cons (h.sent i task destination result err hPast)

/-- The grant of a label is the request of a row of the store it was made in. -/
theorem Advances.carries (h : s.Advances s' label) (hs : s.store.Reachable) (hGrant : label.grant = some grant) :
    ∃ row, (s.store.db.dossier grant.1.id).row = some row ∧ s.store.Carries row grant := by
  unfold Label.grant at hGrant
  split at hGrant
  · cases h with
    | commit => exact hs.claim_carries (toOption_eq_some_iff.mp hGrant)
    | keep hLabel => exact absurd rfl (hLabel _ _ _ _)
  · cases hGrant

theorem Granted.next (h : Granted history s.store) (hs : s.store.Reachable) (hAdvances : s.Advances s' label)
    (hSent : ∀ i task destination result err, label = .send i task destination result err →
      (task, destination) ∈ grants history) : Granted (label :: history) s'.store := by
  obtain ⟨action, hStep⟩ := hAdvances.step
  cases hGrant : label.grant with
  | none => exact h.quiet hs hStep hGrant hSent
  | some grant =>
    obtain ⟨row, hRow, hCarries⟩ := Advances.carries hAdvances hs hGrant
    exact h.claim hs hStep hGrant hRow hCarries

theorem Act.granted (h : Act setting i s x label s' x') (hs : s.store.Reachable) (hGranted : Granted history s.store)
    (hOwn : Entitled history x) : Granted (label :: history) s'.store ∧ Entitled (label :: history) x' := by
  constructor
  · refine hGranted.next hs h.advances ?_
    rintro _ _ _ _ _ rfl
    cases h.kind with
    | plain hLabel _ => exact hLabel.elim
    | sent _ => exact hOwn
  · cases h.kind with
    | plain _ hInert | claimLost _ hInert | completed _ hInert => exact Process.Inert.entitled hInert
    | sent _ => trivial
    | claimed _ hAnswer => simp [Entitled, grants, Label.grant, hAnswer, Except.toOption]

theorem Run.granted (h : Run setting history w) : Granted history w.shared.store := by
  refine (Run.invariant (G := fun history s => Granted history s.store) (L := fun _ history _ x => Entitled history x)
    ?_ ?_ ?_ ?_ h).1
  · exact fun _ => ⟨fun _ h => (by cases h), fun _ h => (by cases h), fun _ _ _ _ _ h => (by cases h)⟩
  · exact fun _ _ => trivial
  · intro history w label s hRun hGranted hEnv
    refine ⟨hGranted.next hRun.reachable hEnv.advances ?_, fun i x hOwn => hOwn.cons⟩
    rintro _ _ _ _ _ rfl
    exact hEnv.plain.elim
  · intro i history w label s x hRun hGranted hOwn hAct
    obtain ⟨hNext, hEntitled⟩ := Act.granted hAct hRun.reachable hGranted hOwn
    exact ⟨hNext, hEntitled, fun j y _ hOther => hOther.cons⟩

/-- Every task handed out was the request of a row at some point of the run. -/
theorem Run.grant_origin (h : Run setting history w) (hGrant : grant ∈ grants history) :
    ∃ past v row, Run setting past v ∧ past <:+ history ∧
      (v.shared.store.db.dossier grant.1.id).row = some row ∧ v.shared.store.Carries row grant := by
  obtain ⟨t, hRun⟩ := h
  induction hRun with
  | refl => cases hGrant
  | @next history v u label hPrior hStep ih =>
    have hBefore : Run setting history v := ⟨t, hPrior⟩
    obtain ⟨source, hSource, hSome⟩ := List.mem_filterMap.mp hGrant
    rcases List.mem_cons.mp hSource with rfl | hPast
    · obtain ⟨row, hRow, hCarries⟩ := Advances.carries (Step.advances hStep) hBefore.reachable hSome
      exact ⟨history, v, row, hBefore, List.suffix_cons _ _, hRow, hCarries⟩
    · obtain ⟨past, u, row, hRun, hSuffix, hRow⟩ := ih (List.mem_filterMap.mpr ⟨source, hPast, hSome⟩)
      exact ⟨past, u, row, hRun, hSuffix.trans (List.suffix_cons _ _), hRow⟩

/-- Without a value of the caller the supplier sees the identifier of the delivery. -/
theorem Run.supplierIdempotencyValue (hAdmits : ∀ submission, setting.admits submission → submission.FromAPI)
    (h : Run setting history w) (hGrant : grant ∈ grants history) :
    grant.1.supplierIdempotencyValue = uuidText grant.1.id := by
  obtain ⟨past, v, row, hPast, _, hRow, hCarries⟩ := h.grant_origin hGrant
  rw [hCarries.supplierIdempotencyValue, ← (hPast.reachable.integrity.dossier_row_iff.mp hRow).2]
  exact hPast.dossier_invariant (P := Dossier.Stamped) (fun _ h => by cases h) Dossier.Move.stamped hAdmits _ row hRow

/-- Every send of a delivery is the same request. The columns of the request and the stored destination
versions are fixed over every run of the store, sends for one delivery agree in any two generations, and
sends for two deliveries differ in the supplier's idempotency value. -/
theorem same_request_every_send (h : Run setting history w) :
    (∀ s t : Store, s.Reachable → s.Later t →
      (∀ row ∈ s.db.deliveries, ∀ row' ∈ t.db.deliveries, row'.id = row.id → row.SameRequest row') ∧
      ∀ version ∈ s.db.destinationVersions, version ∈ t.db.destinationVersions ∧
        ∀ version' ∈ t.db.destinationVersions, version'.key = version.key → version' = version) ∧
    (∀ i task destination result err j task' destination' result' err',
      .send i task destination result err ∈ history → .send j task' destination' result' err' ∈ history →
      task.id = task'.id → SameSend (task, destination) (task', destination')) ∧
    ((∀ submission, setting.admits submission → submission.FromAPI) →
      ∀ i task destination result err j task' destination' result' err',
        .send i task destination result err ∈ history → .send j task' destination' result' err' ∈ history →
        task.id ≠ task'.id → task.supplierIdempotencyValue ≠ task'.supplierIdempotencyValue) := by
  refine ⟨fun s t hs hLater => ⟨?_, fun version => hLater.version_fixed hs⟩, ?_, ?_⟩
  · intro row hRow row' hRow' hID
    exact DeliveryRow.sameRequest_of_identity (hLater.identity_eq hs hRow hRow' hID)
  · intro i task destination result err j task' destination' result' err' hSend hSend' hID
    exact h.granted.same _ (h.granted.sent _ _ _ _ _ hSend) _ (h.granted.sent _ _ _ _ _ hSend') hID
  · intro hAdmits i task destination result err j task' destination' result' err' hSend hSend' hID hSame
    rw [h.supplierIdempotencyValue hAdmits (h.granted.sent _ _ _ _ _ hSend),
      h.supplierIdempotencyValue hAdmits (h.granted.sent _ _ _ _ _ hSend')] at hSame
    exact hID (uuidText_injective hSame)

theorem exists_send_of_any {id : UUID} {g : Nat} (h : history.any (Label.sends id g) = true) :
    ∃ i task destination result err, .send i task destination result err ∈ history ∧ task.id = id ∧
      task.generation = g := by
  obtain ⟨label, hLabel, hMatch⟩ := List.any_eq_true.mp h
  unfold Label.sends at hMatch
  split at hMatch
  · rename_i i task destination result err
    simp only [Bool.and_eq_true, decide_eq_true_eq] at hMatch
    exact ⟨i, task, destination, result, err, hLabel, hMatch.1, hMatch.2⟩
  · cases hMatch

/-- The destination gets a second version, and a retry is sent under the first one all the same. -/
theorem same_request_every_send_retry :
    ∃ (history : List Label) (w : System) (i j : Nat) (task task' : Delivery)
      (destination destination' : DestinationVersion) (result result' : Result) (err err' : Option SendError),
      Run closedSetting history w ∧ .send i task destination result err ∈ history ∧
      .send j task' destination' result' err' ∈ history ∧ task.id = 100 ∧ task'.id = 100 ∧ task.generation = 0 ∧
      task'.generation = 1 ∧ SameSend (task, destination) (task', destination') := by
  have hPlay : ((start 0).play [] (Sample.claimedScript ++
      [.send 1 8000 9000 ⟨503, "2"⟩ none, .complete 1 9 105,
       .commit 10 (.bootstrap 3 { Sample.config with destination := { Sample.destination with version := 2 } }),
       .commit 3000000 (.scheduleDueRetries 10 (fun _ => false) (fun _ => 106) (fun _ => 107)),
       .claimOutbox 2 3000001 "publisher" 30000000000 10 108, .publish 2, .mark 2 3000002,
       .receive 3 ⟨100, 1, 107⟩, .check 3 3000003, .observe 3 3000003, .acquire 3 true,
       .claim 3 3000004 "worker" 90000000000 109, .send 3 3000005000 3000006000 ⟨200, ""⟩ none])).any (fun run =>
        run.1.any (Label.sends 100 0) && run.1.any (Label.sends 100 1)) = true := by
    decide +kernel
  obtain ⟨⟨history, w⟩, hRun, hFacts⟩ := (Option.any_eq_true _ _).mp hPlay
  obtain ⟨hFirst, hSecond⟩ := Bool.and_eq_true_iff.mp hFacts
  have h : Run closedSetting history w := run_of_play ⟨0, .refl⟩ hRun
  obtain ⟨i, task, destination, result, err, hSend, hID, hGeneration⟩ := exists_send_of_any hFirst
  obtain ⟨j, task', destination', result', err', hSend', hID', hGeneration'⟩ := exists_send_of_any hSecond
  have hSame := (same_request_every_send h).2.1 i task destination result err j task' destination' result' err'
    hSend hSend' (hID.trans hID'.symm)
  exact ⟨history, w, i, j, task, task', destination, destination', result, result', err, err', h, hSend, hSend',
    hID, hID', hGeneration, hGeneration', hSame⟩

end System

end ReliableNotifier
