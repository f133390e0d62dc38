import ReliableNotifier.Api.Contract

/-! # What an answer says about the content of a request

A repeated submission is answered with the delivery of the first one, and only the hashes of
the two are compared. As long as no two submissions collide, a delivery that a submission was
accepted under has the content of that submission; and a conflict is answered only where the
content differs or the destination has got another version.
-/

namespace ReliableNotifier

open Checked Interleaving

def DeliveryRow.content (row : DeliveryRow) : HashInput :=
  ⟨row.destinationID, row.destinationVersion, row.method, row.callerHeaders, row.body⟩

deriving instance DecidableEq for HashInput

def Op.submission : Op → Option Submission
  | submit _ submission _ _ _ => some submission
  | _ => none

namespace Api

def Label.submission : Label → Option Submission
  | commit _ _ op _ _ => op.submission
  | quiet => none

/-- The submissions committed, also those that found their delivery in place. -/
def submissions (history : List Label) : List Submission := history.filterMap Label.submission

/-- Submissions with the same hash have the same content. -/
def NoCollision (history : List Label) : Prop :=
  ∀ submission ∈ submissions history, ∀ other ∈ submissions history,
    submission.requestHash = other.requestHash → submission.content = other.content

instance (history : List Label) : Decidable (NoCollision history) :=
  inferInstanceAs (Decidable (∀ submission ∈ submissions history, ∀ other ∈ submissions history, _ → _))

variable {platform : Platform} {history : List Label} {label : Label} {w : World} {s s' : Shared}
  {x x' : Handler} {i : Nat} {db db' : Database} {submission : Submission}

theorem mem_submissions : submission ∈ submissions history ↔ ∃ label ∈ history, label.submission = some submission :=
  List.mem_filterMap

theorem submissions_cons (h : submission ∈ submissions history) : submission ∈ submissions (label :: history) := by
  obtain ⟨source, hSource, hLabel⟩ := mem_submissions.mp h
  exact mem_submissions.mpr ⟨source, List.mem_cons_of_mem _ hSource, hLabel⟩

theorem mem_submissions_of_commits {commit : Op × Database} (h : commit ∈ commits i history)
    (hOp : commit.1.submission = some submission) : submission ∈ submissions history := by
  obtain ⟨label, hLabel, hMade⟩ := List.mem_filterMap.mp h
  refine mem_submissions.mpr ⟨label, hLabel, ?_⟩
  cases label with
  | quiet => cases hMade
  | commit actor r op before after =>
    obtain ⟨_, hSame⟩ := Option.ite_none_right_eq_some.mp hMade
    cases hSame
    exact hOp

/-! ## Where the rows come from -/

/-- The row was written for the submission. -/
structure WrittenFor (submission : Submission) (row : DeliveryRow) : Prop where
  callerID : row.callerID = submission.callerID
  idempotencyKey : row.idempotencyKey = submission.idempotencyKey
  requestHash : row.requestHash = submission.requestHash
  content : row.content = submission.content

theorem WrittenFor.of_identity {row row' : DeliveryRow} (h : WrittenFor submission row)
    (hSame : row'.identity = row.identity) : WrittenFor submission row' where
  callerID := (DeliveryRow.of_identity DeliveryRow.callerID (fun _ => rfl) hSame).trans h.callerID
  idempotencyKey := (DeliveryRow.of_identity DeliveryRow.idempotencyKey (fun _ => rfl) hSame).trans h.idempotencyKey
  requestHash := (DeliveryRow.of_identity DeliveryRow.requestHash (fun _ => rfl) hSame).trans h.requestHash
  content := (DeliveryRow.of_identity DeliveryRow.content (fun _ => rfl) hSame).trans h.content

theorem written_step {s t : Store} {action : Store.Action} {actor : Option Nat} (hs : s.Reachable)
    (hStep : Store.Step s action t)
    (h : ∀ row ∈ s.db.deliveries, ∃ submission ∈ submissions history, WrittenFor submission row) :
    ∀ row ∈ t.db.deliveries, ∃ submission ∈ submissions (.of actor s.db t.db action :: history),
      WrittenFor submission row := by
  intro row' hMem'
  have hRow' : (t.db.dossier row'.id).row = some row' := (hs.step hStep).integrity.dossier_row_iff.mpr ⟨hMem', rfl⟩
  have hOld {row : DeliveryRow} (hRow : (s.db.dossier row'.id).row = some row) (hSame : row'.identity = row.identity) :
      ∃ submission ∈ submissions (.of actor s.db t.db action :: history), WrittenFor submission row' := by
    obtain ⟨submission, hSubmitted, hWritten⟩ := h row (hs.integrity.dossier_row_iff.mp hRow).1
    exact ⟨submission, submissions_cons hSubmitted, hWritten.of_identity hSame⟩
  cases hStep.advance hs.integrity row'.id with
  | stay _ _ hSame => exact hOld (hSame ▸ hRow') rfl
  | move _ _ _ _ _ hMove =>
    rcases hMove.row_cases hRow' with ⟨backlogLimit, submission, deliveryID, outboxID, traceID, rfl, rfl⟩ |
      ⟨row, hRow, hSame⟩
    · exact ⟨submission, mem_submissions.mpr ⟨_, List.mem_cons_self, rfl⟩, rfl, rfl, rfl, rfl⟩
    · exact hOld hRow hSame

theorem Run.written (h : Run platform history w) :
    ∀ row ∈ w.shared.store.db.deliveries, ∃ submission ∈ submissions history, WrittenFor submission row := by
  obtain ⟨t, hRun⟩ := h
  induction hRun with
  | refl => exact List.forall_mem_nil _
  | next hBefore hStep ih =>
    have hs := Run.reachable ⟨t, hBefore⟩
    cases hStep with
    | env hEnv =>
      obtain ⟨action, hStore, rfl⟩ := hEnv.advances
      exact written_step hs hStore ih
    | act _ hAct =>
      obtain ⟨action, hStore, rfl⟩ := hAct.advances
      exact written_step hs hStore ih

/-- A submission answered with 202 has its content in the tables, also when it repeats an earlier one: what is delivered
under the identifier answered is what this request asked for. -/
theorem accepted_content_stored {authorization idempotencyKey : String} {input : Input} {delivery : Delivery}
    (h : Run platform history w) (hCollision : NoCollision history)
    (hAnswered : w.procs i = .answered (.submit authorization idempotencyKey (.ok input)) (accepted delivery))
    (hKept : Unremoved delivery.id history) :
    ∃ row ∈ w.shared.store.db.deliveries, row.id = delivery.id ∧ Carries platform input row.content := by
  have hAnswer := h.sound i
  rw [hAnswered] at hAnswer
  obtain ⟨submission, ⟨deliveryID, outboxID, traceID, before, hOne⟩, hPrepared, _, hHolds⟩ :=
    Answer.of_accepted hAnswer
  obtain ⟨row, hRow, _, _, hHash⟩ := hHolds hKept
  obtain ⟨hMem, hID⟩ := h.reachable.integrity.dossier_row_iff.mp hRow
  obtain ⟨first, hFirst, hWritten⟩ := h.written row hMem
  have hOwn : submission ∈ submissions history :=
    mem_submissions_of_commits (i := i) (hOne ▸ List.mem_singleton_self _) rfl
  have hContent := hCollision first hFirst submission hOwn (hWritten.requestHash.symm.trans hHash)
  obtain ⟨_, hInput, hCarries⟩ := hPrepared.input
  cases hInput
  exact ⟨row, hMem, hID, hWritten.content ▸ hContent ▸ hCarries⟩

theorem accepted_content_stored_repeated :
    ∃ (history : List Label) (w : World), Run Sample.apiPlatform history w ∧
      ∃ row ∈ w.shared.store.db.deliveries, row.id = 100 ∧
        Carries Sample.apiPlatform ⟨"orders", "post", some .empty, some []⟩ row.content := by
  have hPlay : (LabelledRun.play (execute Sample.apiPlatform) [] (start 0) Sample.repeatedScript).any (fun run =>
      run.2.procs 1 = .answered (Sample.orderRequest " order-1 ")
        (accepted (Sample.submission.row (.instant 4) 100).load) && NoCollision run.1 && Unremoved 100 run.1) =
      true := by
    decide +kernel
  obtain ⟨⟨history, w⟩, hRun, hFacts⟩ := (Option.any_eq_true _ _).mp hPlay
  simp only [Bool.and_eq_true, decide_eq_true_eq] at hFacts
  obtain ⟨⟨hAnswered, hCollision⟩, hKept⟩ := hFacts
  have h := run_of_play hRun
  exact ⟨history, w, h, accepted_content_stored h hCollision hAnswered hKept⟩

/-! ## Conflicts -/

/-- The submission, if it is one, was committed by a request. -/
def Label.Own : Label → Prop
  | commit actor _ op _ _ => actor ≠ none ∨ op.submission = none
  | quiet => True

/-- Nobody but the API submits. -/
def OwnSubmissions (history : List Label) : Prop := ∀ label ∈ history, label.Own

instance : DecidablePred Label.Own
  | .commit _ _ _ _ _ => inferInstanceAs (Decidable (_ ∨ _))
  | .quiet => inferInstanceAs (Decidable True)

instance (history : List Label) : Decidable (OwnSubmissions history) :=
  inferInstanceAs (Decidable (∀ label ∈ history, _))

theorem Handler.Sound.asks {store : Store} (h : x.Sound platform i history store) :
    ∀ commit ∈ commits i history, ∃ request, x.request = some request ∧ Asks platform request commit := by
  have hEmpty (hNone : commits i history = []) :
      ∀ commit ∈ commits i history, ∃ request, x.request = some request ∧ Asks platform request commit :=
    hNone ▸ List.forall_mem_nil _
  cases x with
  | idle => exact hEmpty h
  | working request stage => exact hEmpty h.1
  | answered request reply =>
    cases h with
    | refused _ _ hNone | shown hNone => exact hEmpty hNone
    | failed _ hAsked => exact fun commit hCommit => ⟨request, rfl, hAsked commit hCommit⟩
    | submitted hOne hAsked | replayed hOne hAsked =>
      rw [hOne]
      exact List.forall_mem_singleton.mpr ⟨_, rfl, hAsked⟩

theorem sealed_of_own (h : Run platform history w) (hOwn : OwnSubmissions history)
    (hSubmitted : submission ∈ submissions history) : Sealed platform submission.content submission.requestHash := by
  obtain ⟨label, hLabel, hSubmission⟩ := mem_submissions.mp hSubmitted
  cases label with
  | quiet => cases hSubmission
  | commit actor r op before after =>
    obtain ⟨i, rfl⟩ : ∃ i, actor = some i := by
      rcases hOwn _ hLabel with hActor | hOther
      · exact Option.ne_none_iff_exists'.mp hActor
      · cases hSubmission.symm.trans hOther
    have hCommit : (op, before) ∈ commits i history := List.mem_filterMap.mpr ⟨_, hLabel, if_pos rfl⟩
    obtain ⟨request, _, hAsks⟩ := (h.sound i).asks _ hCommit
    cases hAsks with
    | submit _ hPrepared _ =>
      cases hSubmission
      exact hPrepared.sealed
    | replay => cases hSubmission

/-- A conflict was met: the key had been used by the caller with another hash. -/
structure Contested (platform : Platform) (history : List Label) (db : Database) (authorization idempotencyKey : String)
    (body : Except DecodeError Input) (submission earlier : Submission) : Prop where
  caller : Authenticated platform db authorization submission.callerID
  prepared : Prepared platform idempotencyKey body submission
  authorized : Authorized platform db submission
  committed : earlier ∈ submissions history
  callerID : earlier.callerID = submission.callerID
  key : earlier.idempotencyKey = submission.idempotencyKey
  requestHash : earlier.requestHash ≠ submission.requestHash

theorem Contested.mono {authorization idempotencyKey : String} {body : Except DecodeError Input} {earlier : Submission}
    (h : Contested platform history db authorization idempotencyKey body submission earlier) (hGrows : db.Grows db') :
    Contested platform (label :: history) db' authorization idempotencyKey body submission earlier :=
  { h with
    caller := h.caller.mono hGrows
    authorized := h.authorized.mono hGrows
    committed := submissions_cons h.committed }

def Handler.Contests (platform : Platform) (history : List Label) (db : Database) : Handler → Prop
  | .answered (.submit authorization idempotencyKey body) reply => reply = .ofError conflict →
      ∃ submission earlier, Contested platform history db authorization idempotencyKey body submission earlier
  | _ => True

theorem Handler.Contests.mono (h : x.Contests platform history db) (hGrows : db.Grows db') :
    x.Contests platform (label :: history) db' := by
  cases x with
  | idle | working => trivial
  | answered request reply =>
    cases request with
    | get | replay => trivial
    | submit =>
      intro hReply
      obtain ⟨submission, earlier, hContested⟩ := h hReply
      exact ⟨submission, earlier, hContested.mono hGrows⟩

theorem contests_of_ne {request : Request} {reply : Reply} (h : reply.status ≠ 409) :
    (Handler.answered request reply).Contests platform history db := by
  cases request with
  | get | replay => trivial
  | submit => exact fun hReply => absurd (congrArg Reply.status hReply) h

theorem insertSubmission_avoids {r : Readings} {deliveryID outboxID traceID : UUID} :
    Avoids (· = .idempotencyConflict) (db.insertSubmission r submission deliveryID outboxID traceID) := by
  have hOther {broken : Constraint} : ¬StoreError.constraint broken = .idempotencyConflict := StoreError.noConfusion
  refine .bind ?_ fun middle _ => ?_
  · exact .bind (.ensure (.inr hOther)) fun _ _ => .bind (.ensure (.inr hOther)) fun _ _ =>
      .bind (.ensure (.inr hOther)) fun _ _ => .bind (.ensure (.inr hOther)) fun _ _ =>
      .bind (.ensure (.inr hOther)) fun _ _ => .ok _
  · exact .bind (.ensure (.inr hOther)) fun _ _ => .bind (.ensure (.inr hOther)) fun _ _ =>
      .bind (.ensure (.inr hOther)) fun _ _ => .bind (.ensure (.inr hOther)) fun _ _ => .ok _

theorem conflict_of_submit {r : Readings} {backlogLimit : Int} {deliveryID outboxID traceID : UUID}
    (h : Prod.fst <$> submit r backlogLimit submission deliveryID outboxID traceID db =
      .error .idempotencyConflict) :
    ∃ row ∈ db.deliveries, row.callerID = submission.callerID ∧ row.idempotencyKey = submission.idempotencyKey ∧
      row.requestHash ≠ submission.requestHash := by
  have h := map_error_iff.mp h
  unfold submit at h
  split at h
  · rename_i existing hExisting
    have hKey := List.find?_some hExisting
    simp only [Bool.and_eq_true, decide_eq_true_eq] at hKey
    split at h
    · rename_i hHash
      exact ⟨existing, List.mem_of_find?_eq_some hExisting, hKey.1, hKey.2, hHash⟩
    · cases h
  · split at h
    · cases h
    · exact absurd rfl ((Avoids.bind insertSubmission_avoids fun _ _ => .ok _) _ h)

theorem Act.contests (h : Act platform i s x label s' x')
    (hWritten : ∀ row ∈ s.store.db.deliveries, ∃ submission ∈ submissions history, WrittenFor submission row)
    (hx : x.Sound platform i history s.store) : x'.Contests platform (label :: history) s'.store.db := by
  cases h with
  | arrive => trivial
  | unauthorized => exact contests_of_ne (by decide)
  | @authenticate request apiKey t hKey _ =>
    cases s.store.db.authenticatePrincipal (platform.digest apiKey) s.operators with
    | none => exact contests_of_ne (by decide)
    | some principal =>
      cases request with
      | submit | get => trivial
      | replay =>
        simp only [afterAuthenticate]
        split
        · trivial
        · split
          · trivial
          · split <;> trivial
  | @resolve authorization idempotencyKey callerID body t acceptedAt _ =>
    cases hAdmit : admission platform callerID idempotencyKey body (s.store.db.authorizedDestination callerID)
      acceptedAt with
    | ok => trivial
    | error err =>
      refine contests_of_ne fun hStatus => ?_
      have hRefusal : Refusal err := not_not.mp (admission_error err hAdmit)
      have hErr : err.status = 409 := hStatus
      unfold Refusal at hRefusal
      omega
  | unresolved | failed => exact contests_of_ne (by decide)
  | @submit request submission deliveryID outboxID traceID reply action t hServed =>
    obtain ⟨_, hCaller, hAuthorized, authorization, idempotencyKey, body, rfl, hPrepared⟩ := hx
    have hGrows := hServed.action.1.grows
    cases hServed with
    | done => exact contests_of_ne (show 202 ≠ 409 by decide)
    | lost | down => exact contests_of_ne (by decide)
    | refused hClock hAnswer =>
      rename_i r err
      cases err with
      | idempotencyConflict =>
        obtain ⟨row, hMem, hRowCaller, hRowKey, hHash⟩ := conflict_of_submit hAnswer
        obtain ⟨earlier, hEarlier, hRow⟩ := hWritten row hMem
        refine fun _ => ⟨submission, earlier, hCaller.mono hGrows, hPrepared, hAuthorized.mono hGrows,
          submissions_cons hEarlier, ?_, ?_, ?_⟩
        · exact hRow.callerID.symm.trans hRowCaller
        · exact hRow.idempotencyKey.symm.trans hRowKey
        · rwa [← hRow.requestHash]
      | _ => exact contests_of_ne (by decide)
  | get =>
    unfold afterGet
    split <;> trivial
  | list => exact contests_of_ne (show 200 ≠ 409 by decide)
  | replay =>
    unfold afterReplay
    split <;> trivial

theorem Run.contests (h : Run platform history w) (i : Nat) :
    (w.procs i).Contests platform history w.shared.store.db := by
  obtain ⟨t, hRun⟩ := h
  refine (Interleaving.invariant (G := fun _ _ => True)
    (L := fun _ history s x => x.Contests platform history s.store.db) trivial (fun _ => trivial) ?_ ?_ hRun).2 i
  · intro history w label s _ _ hEnv
    refine ⟨trivial, fun i x hx => ?_⟩
    obtain ⟨action, hStep, _⟩ := hEnv.advances
    exact hx.mono hStep.grows
  · intro i history w label s x hRun _ hx hAct
    have h : Run platform history w := ⟨t, hRun⟩
    refine ⟨trivial, hAct.contests h.written (h.sound i), fun j y _ hy => ?_⟩
    obtain ⟨action, hStep, _⟩ := hAct.advances
    exact hy.mono hStep.grows

theorem Carries.content_eq {input : Input} {content content' : HashInput} (h : Carries platform input content)
    (h' : Carries platform input content') (hVersion : content.destinationVersion = content'.destinationVersion) :
    content = content' := by
  obtain ⟨given, hGiven, hHeaders⟩ := h.headers
  obtain ⟨given', hGiven', hHeaders'⟩ := h'.headers
  cases hGiven.symm.trans hGiven'
  have hCanonical := Except.ok.inj (hHeaders.symm.trans hHeaders')
  have hBody := Option.some.inj (h.body.symm.trans h'.body)
  have hID := h.destinationID.trans h'.destinationID.symm
  have hMethod := h.method.trans h'.method.symm
  cases content
  cases content'
  cases hCanonical
  cases hBody
  cases hID
  cases hMethod
  cases hVersion
  rfl

/-- A submission is answered with a conflict only if its caller has submitted under the same key before, and either that
submission had another content or the destination has another version than the one it was bound to. -/
theorem conflict_tells_difference {authorization idempotencyKey : String} {input : Input} (h : Run platform history w)
    (hOwn : OwnSubmissions history)
    (hAnswered : w.procs i = .answered (.submit authorization idempotencyKey (.ok input)) (.ofError conflict)) :
    ∃ earlier ∈ submissions history,
      Authenticated platform w.shared.store.db authorization earlier.callerID ∧
      earlier.idempotencyKey = trimmed idempotencyKey ∧
      (¬Carries platform input earlier.content ∨ ∃ version ∈ w.shared.store.db.destinationVersions,
        version.destinationID = input.destinationID ∧ version.version ≠ earlier.destinationVersion) := by
  have hContests := h.contests i
  rw [hAnswered] at hContests
  obtain ⟨submission, earlier, hContested⟩ := hContests rfl
  refine ⟨earlier, hContested.committed, hContested.callerID ▸ hContested.caller,
    hContested.key.trans hContested.prepared.key, ?_⟩
  by_cases hSame : Carries platform input earlier.content
  · right
    obtain ⟨_, hInput, hCarries⟩ := hContested.prepared.input
    cases hInput
    obtain ⟨_, version, hVersion, hKey, _⟩ := hContested.authorized
    obtain ⟨hID, hNumber⟩ := Prod.mk.inj hKey
    refine ⟨version, hVersion, hID.trans hCarries.destinationID, fun hBound => ?_⟩
    have hContent : earlier.content = submission.content :=
      hSame.content_eq hCarries (hBound.symm.trans hNumber)
    have hHash := (sealed_of_own h hOwn hContested.committed).hash
    rw [hContent, hContested.prepared.sealed.hash] at hHash
    exact hContested.requestHash (Except.ok.inj hHash).symm
  · exact .inl hSame

theorem conflict_tells_difference_body :
    ∃ (history : List Label) (w : World), Run Sample.lengthPlatform history w ∧
      ∃ earlier ∈ submissions history, earlier.idempotencyKey = "order-1" ∧
        (¬Carries Sample.lengthPlatform ⟨"orders", "post", some .empty, some [1]⟩ earlier.content ∨
          ∃ version ∈ w.shared.store.db.destinationVersions, version.destinationID = "orders" ∧
            version.version ≠ earlier.destinationVersion) := by
  have hPlay : (LabelledRun.play (execute Sample.lengthPlatform) [] (start 0) Sample.conflictScript).any (fun run =>
      run.2.procs 1 = .answered (.submit "Bearer key" "order-1" (.ok ⟨"orders", "post", some .empty, some [1]⟩))
        (.ofError conflict) && OwnSubmissions run.1) = true := by
    decide +kernel
  obtain ⟨⟨history, w⟩, hRun, hFacts⟩ := (Option.any_eq_true _ _).mp hPlay
  simp only [Bool.and_eq_true, decide_eq_true_eq] at hFacts
  have h := run_of_play hRun
  obtain ⟨earlier, hEarlier, _, hKey, hDifference⟩ := conflict_tells_difference h hFacts.2 hFacts.1
  exact ⟨history, w, h, earlier, hEarlier, hKey.trans (by decide +kernel), hDifference⟩

end Api

end ReliableNotifier
