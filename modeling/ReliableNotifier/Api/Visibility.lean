import ReliableNotifier.Api.Contract

/-! # What a caller gets to see

A `GET` makes two reads with anything in between. The attempts it shows account for the
generation and the success it reports, and a delivery that was accepted is shown to its
caller from then on.
-/

namespace ReliableNotifier.Api

open Interleaving LabelledRun

variable {platform : Platform} {history later : List Label} {label : Label} {w w' : World} {s s' : Shared}
  {x x' : Handler} {i j : Nat}

theorem Status.succeeded_of_text {status : Status} (h : status.text = "succeeded") : status = .succeeded := by
  cases status with
  | succeeded => rfl
  | pending | delivering | failedPermanent => exact absurd h (by decide)

/-! ## Attempts -/

/-- The attempts are stored for the delivery, and what is stored besides comes after them. -/
structure Newest (db : Database) (deliveryID : UUID) (attempts : List AttemptRow) : Prop where
  stored : attempts ⊆ (db.dossier deliveryID).attempts
  others : ∀ attempt ∈ (db.dossier deliveryID).attempts, attempt ∉ attempts →
    attempts.length = statusAttemptLimit ∧ ∀ shown ∈ attempts, Database.later shown attempt

theorem newest_of_list {t : Store} {deliveryID : UUID} {callerID : String} (ht : t.Reachable)
    (hBelongs : Belongs t callerID deliveryID) :
    Newest t.db deliveryID (t.db.listAttemptSummaries callerID deliveryID statusAttemptLimit) where
  stored attempt hAttempt := by
    obtain ⟨hMem, hShown⟩ := RowTable.mem_of_mem_batch _ hAttempt
    exact (RowTable.mem_owned _).mpr ⟨hMem, of_decide_eq_true ((Bool.and_eq_true _ _).mp hShown).1⟩
  others attempt hAttempt hOut := by
    obtain ⟨hMem, hOwner⟩ := (RowTable.mem_owned _).mp hAttempt
    obtain ⟨row, hRow, hID⟩ := ht.integrity.attemptOwners attempt hMem
    have hFound := get_isSome ht hBelongs (ht.integrity.dossier_row_iff.mpr ⟨hRow, hID.trans hOwner⟩)
    refine RowTable.batch_before Database.later hMem ?_ hOut
    rw [hFound]
    simpa using hOwner

/-- The step by which request `i` is answered, with the newest attempts that are stored then. -/
structure ReadAttempts (i : Nat) (deliveryID : UUID) (attempts : List AttemptSummary) (before after : World) :
    Prop where
  working : ∃ request stage, before.procs i = .working request stage
  answered : ∃ request reply, after.procs i = .answered request reply
  newest : ∃ rows, attempts = rows.map summary ∧ Newest before.shared.store.db deliveryID rows

def Handler.attempts : Handler → Option (List AttemptSummary)
  | .answered _ ⟨_, .delivery _ attempts, _⟩ => attempts
  | _ => none

/-- Where an answer that shows attempts comes from. -/
theorem Act.lists {attempts : List AttemptSummary} (h : Act platform i s x label s' x')
    (hShown : x'.attempts = some attempts) :
    ∃ request callerID delivery, x = .working request (.listing callerID delivery) ∧ x'.request = some request ∧
      attempts = (s.store.db.listAttemptSummaries callerID delivery.id statusAttemptLimit).map summary := by
  cases x with
  | idle => cases h; cases hShown
  | answered => cases h
  | working request stage =>
    cases h.outcome with
    | found =>
      cases hShown
      exact ⟨_, _, _, rfl, rfl, rfl⟩
    | _ => cases hShown

theorem Run.reads {authorization id : String} {deliveryID : UUID} {attempts : List AttemptSummary}
    (h : Run platform history w) (hRequest : (w.procs i).request = some (.get authorization id))
    (hShown : (w.procs i).attempts = some attempts) (hID : platform.parseUUID id = some deliveryID) :
    Took platform history w (ReadAttempts i deliveryID attempts) := by
  obtain ⟨t, hRun⟩ := h
  refine ⟨t, takes_of_enters
    (Q := fun _ (x : Handler) => x.request = some (.get authorization id) ∧ x.attempts = some attempts)
    (fun hQ => by cases hQ.1) (fun _ _ _ _ _ hQ => hQ) (fun _ _ _ _ _ _ _ _ hQ => hQ) ?_ hRun ⟨hRequest, hShown⟩⟩
  intro history w label s x hBefore hAct hQ
  obtain ⟨request, callerID, delivery, hx, hSame, hAttempts⟩ := hAct.lists hQ.2
  have hSound := Run.sound ⟨t, hBefore⟩ i
  rw [hx] at hSound
  cases hSame.symm.trans hQ.1
  obtain ⟨_, _, ⟨_, _, hGet, hParsed⟩, hBelongs, _⟩ := hSound
  cases hGet
  obtain rfl : delivery.id = deliveryID := Option.some.inj (hParsed.symm.trans hID)
  refine .inr ⟨⟨_, _, hx⟩, ?_, _, hAttempts, newest_of_list (Run.reachable ⟨t, hBefore⟩) hBelongs⟩
  cases x with
  | answered request reply => exact ⟨request, reply, Function.update_self ..⟩
  | idle | working => cases hQ.2

/-- The attempts shown are the newest ones, newest first, at most one for each generation. With fewer than the limit
they tell of the success reported, and every generation before the one reported has its retryable failure among them
or its replay on record, as long as retention has not removed the delivery. -/
theorem shown_attempts_explain {authorization id : String} {deliveryID : UUID} {response : DeliveryResponse}
    {attempts : List AttemptSummary} {retryAfter : Option String} (h : Run platform history w)
    (hAnswered : w.procs i = .answered (.get authorization id) ⟨200, .delivery response (some attempts), retryAfter⟩)
    (hID : platform.parseUUID id = some deliveryID) :
    Took platform history w (ReadAttempts i deliveryID attempts) ∧ attempts.length ≤ statusAttemptLimit ∧
      attempts.Pairwise (fun a b => b.startedAt ≤ a.startedAt) ∧ (attempts.map AttemptSummary.generation).Nodup ∧
      (attempts.length < statusAttemptLimit → Unremoved deliveryID history →
        (response.status = "succeeded" → ∃ attempt ∈ attempts, attempt.generation = response.generation ∧
          attempt.resultClass = "succeeded") ∧
        ∀ k < response.generation,
          (∃ attempt ∈ attempts, attempt.generation = k ∧ attempt.resultClass = "retryable_failure") ∨
          ∃ audit ∈ w.shared.store.db.replayAudits, audit.deliveryID = deliveryID ∧ audit.fromGeneration = k) := by
  refine ⟨h.reads (congrArg Handler.request hAnswered) (congrArg Handler.attempts hAnswered) hID, ?_⟩
  have hAnswer := h.sound i
  rw [hAnswered] at hAnswer
  generalize hReply : (⟨200, .delivery response (some attempts), retryAfter⟩ : Reply) = reply at hAnswer
  cases hAnswer with
  | refused hStatus => exact absurd (congrArg Reply.status hReply.symm) hStatus.2
  | failed => cases hReply
  | @shown _ _ callerID delivery rows _ _ hShown _ hListed =>
    cases hReply
    obtain rfl : delivery.id = deliveryID := Option.some.inj (hShown.symm.trans hID)
    refine ⟨by simpa using hListed.few, ?_, ?_, fun hFew hKept => ?_⟩
    · refine List.pairwise_map.mpr (hListed.sorted.imp fun {a b} hOrder => ?_)
      have hTimes : b.startedAt ≤ a.startedAt := hOrder.elim le_of_lt fun h => h.1.le
      exact Int.mul_le_mul_of_nonneg_right hTimes (by decide)
    · rw [List.map_map]
      exact hListed.once
    · obtain ⟨_, hAccounts⟩ := hListed.complete (by simpa using hFew) hKept
      refine ⟨fun hStatus => ?_, fun k hk => ?_⟩
      · obtain ⟨attempt, hMem, hGeneration, hClass⟩ := hAccounts.present (Status.succeeded_of_text hStatus)
        exact ⟨summary attempt, List.mem_map_of_mem hMem, hGeneration, congrArg ResultClass.text hClass⟩
      · rcases hAccounts.past k hk with ⟨attempt, hMem, hGeneration, hClass⟩ | ⟨audit, hMem, hFrom⟩
        · exact .inl ⟨summary attempt, List.mem_map_of_mem hMem, hGeneration, congrArg ResultClass.text hClass⟩
        · obtain ⟨hAudit, hOwner⟩ := (RowTable.mem_owned _).mp hMem
          exact .inr ⟨audit, hAudit, hOwner, hFrom⟩

theorem shown_attempts_explain_success :
    ∃ (history : List Label) (w : World) (response : DeliveryResponse) (attempts : List AttemptSummary),
      Run Sample.apiPlatform history w ∧
      w.procs 2 = .answered (.get "Bearer key" (uuidText 100)) ⟨200, .delivery response (some attempts), none⟩ ∧
      Took Sample.apiPlatform history w (ReadAttempts 2 100 attempts) ∧
      ∃ attempt ∈ attempts, attempt.generation = response.generation ∧ attempt.resultClass = "succeeded" := by
  have hPlay : (LabelledRun.play (execute Sample.apiPlatform) [] (start 0)
      (Sample.succeededScript ++ Sample.getScript 2 "Bearer key")).any (fun run =>
      run.2.procs 2 = .answered (.get "Bearer key" (uuidText 100)) (found Sample.succeeded [Sample.attempt]) &&
      Unremoved 100 run.1) = true := by
    decide +kernel
  obtain ⟨⟨history, w⟩, hRun, hFacts⟩ := (Option.any_eq_true _ _).mp hPlay
  simp only [Bool.and_eq_true, decide_eq_true_eq] at hFacts
  have h := run_of_play hRun
  obtain ⟨hReads, _, _, _, hComplete⟩ :=
    shown_attempts_explain h hFacts.1 (congrArg some (uuidNumber_uuidText 100))
  exact ⟨history, w, _, _, h, hFacts.1, hReads, (hComplete (by decide) hFacts.2).1 rfl⟩

/-! ## Accepted deliveries -/

/-- How a `GET` for `row` by its caller stands. -/
def Handler.Sees (authorization : String) (row : DeliveryRow) : Handler → Prop
  | .idle => True
  | .working request stage => request = .get authorization (uuidText row.id) → stage = .authenticating ∨
      stage = .getting row.callerID ∨ ∃ delivery, stage = .listing row.callerID delivery
  | .answered request reply => request = .get authorization (uuidText row.id) → reply = unavailable ∨
      ∃ delivery attempts, reply = found delivery attempts

section Sees

variable {authorization : String} {row row' : DeliveryRow} {request : Request}

theorem sees_of_other (h : x.request = some request) (hOther : request ≠ .get authorization (uuidText row.id)) :
    x.Sees authorization row := by
  cases x with
  | idle => trivial
  | working | answered =>
    cases h
    exact fun hSame => absurd hSame hOther

theorem get_of_row {t : Store} (ht : t.Reachable) (hRow' : (t.db.dossier row.id).row = some row')
    (hSame : row'.identity = row.identity) : t.db.get row.callerID row.id = some row' := by
  obtain ⟨hMem, hID⟩ := ht.integrity.dossier_row_iff.mp hRow'
  have hCaller : row'.callerID = row.callerID := DeliveryRow.of_identity _ (fun _ => rfl) hSame
  obtain ⟨other, hOther⟩ : ∃ other, t.db.get row.callerID row.id = some other :=
    Option.isSome_iff_exists.mp (List.find?_isSome.mpr ⟨row', hMem, by simp [hID, hCaller]⟩)
  have hFound := List.find?_some hOther
  simp only [Bool.and_eq_true, decide_eq_true_eq] at hFound
  rw [hOther, List.inj_on_of_nodup_map ht.integrity.deliveryIDs (List.mem_of_find?_eq_some hOther) hMem
    (hFound.1.trans hID.symm)]

theorem principal_of_authenticated {db : Database} {apiKey callerID : String} (operators : String → Bool)
    (hCaller : Authenticated platform db authorization callerID) (hKey : bearer authorization = some apiKey) :
    db.authenticatePrincipal (platform.digest apiKey) operators = some ⟨callerID, operators callerID⟩ := by
  rw [Authenticated, callerOf, hKey] at hCaller
  obtain ⟨caller, hFound, rfl⟩ := Option.map_eq_some_iff.mp hCaller
  rw [Database.authenticatePrincipal, hFound]
  rfl

/-- While the delivery is there, a `GET` by its caller finds it. -/
theorem Act.sees (h : Act platform i s x label s' x') (hs : s.store.Reachable)
    (hCaller : Authenticated platform s.store.db authorization row.callerID)
    (hParse : platform.parseUUID (uuidText row.id) = some row.id)
    (hRow' : (s.store.db.dossier row.id).row = some row') (hSame : row'.identity = row.identity)
    (hx : x.Sees authorization row) : x'.Sees authorization row := by
  cases x with
  | idle =>
    cases h
    exact fun _ => .inl rfl
  | answered => cases h
  | working request stage =>
    by_cases hPath : request = .get authorization (uuidText row.id)
    · subst hPath
      rcases hx rfl with rfl | rfl | ⟨delivery, rfl⟩
      · cases h with
        | unauthorized hKey =>
          obtain ⟨apiKey, hSome, _⟩ := Option.bind_eq_some_iff.mp hCaller
          cases hSome.symm.trans hKey
        | authenticate hKey =>
          rw [principal_of_authenticated s.operators hCaller hKey]
          exact fun _ => .inr (.inl rfl)
        | failed => exact fun _ => .inl rfl
      · cases h with
        | get hID =>
          obtain rfl := Option.some.inj (hID.symm.trans hParse)
          rw [get_of_row hs hRow' hSame]
          exact fun _ => .inr (.inr ⟨_, rfl⟩)
        | failed => exact fun _ => .inl rfl
      · cases h with
        | list => exact fun _ => .inr ⟨delivery, _, rfl⟩
        | failed => exact fun _ => .inl rfl
    · exact sees_of_other h.request_eq hPath

/-- The delivery of `row` from the state on that `later` starts from. -/
structure Standing (platform : Platform) (authorization : String) (row : DeliveryRow) (later : List Label)
    (s : Store) : Prop where
  reachable : s.Reachable
  caller : Authenticated platform s.db authorization row.callerID
  row : Unremoved row.id later → ∃ row', (s.db.dossier row.id).row = some row' ∧ row'.identity = row.identity

theorem Standing.step {s t : Store} {action : Store.Action} {actor : Option Nat}
    (h : Standing platform authorization row later s) (hStep : Store.Step s action t) :
    Standing platform authorization row (.of actor s.db t.db action :: later) t where
  reachable := h.reachable.step hStep
  caller := h.caller.mono hStep.grows
  row hKept := by
    obtain ⟨row', hRow', hSame⟩ := h.row hKept.tail
    obtain ⟨row'', hRow'', hAgain, _⟩ := row_stays hStep h.reachable.integrity hRow' hKept
    exact ⟨row'', hRow'', hAgain.trans hSame⟩

theorem Standing.run (h : Standing platform authorization row [] w.shared.store)
    (hRun : LabelledRun.Run (Step platform) w later w') :
    Standing platform authorization row later w'.shared.store := by
  refine hRun.invariant (I := fun later w' => Standing platform authorization row later w'.shared.store) h ?_
  intro later w' label w'' _ hStanding hStep
  cases hStep with
  | env hEnv =>
    obtain ⟨action, hStore, rfl⟩ := hEnv.advances
    exact hStanding.step hStore
  | act _ hAct =>
    obtain ⟨action, hStore, rfl⟩ := hAct.advances
    exact hStanding.step hStore

theorem Standing.sees (h : Standing platform authorization row [] w.shared.store)
    (hParse : platform.parseUUID (uuidText row.id) = some row.id) (hIdle : w.procs j = .idle)
    (hRun : LabelledRun.Run (Step platform) w later w') (hKept : Unremoved row.id later) :
    (w'.procs j).Sees authorization row := by
  refine (Interleaving.invariant (G := fun _ _ => True)
    (L := fun i later _ x => i = j → Unremoved row.id later → x.Sees authorization row)
    trivial ?_ ?_ ?_ hRun).2 j rfl hKept
  · rintro i rfl _
    rw [hIdle]
    trivial
  · exact fun later w label s _ _ _ => ⟨trivial, fun i x hx hi hKept => hx hi hKept.tail⟩
  · intro i later w label s x hBefore _ hx hAct
    refine ⟨trivial, fun hi hKept => ?_, fun k y _ hy hk hKept => hy hk hKept.tail⟩
    have hStanding := h.run hBefore
    obtain ⟨row', hRow', hSame⟩ := hStanding.row hKept.tail
    exact hAct.sees hStanding.reachable hStanding.caller hParse hRow' hSame (hx hi hKept.tail)

end Sees

/-- The request has read what it answers with. -/
def Handler.Shows (request : Request) (response : DeliveryResponse) : Handler → Prop
  | .working asked (.listing _ delivery) => asked = request ∧ responseFromDelivery delivery = response
  | .answered asked ⟨_, .delivery shown (some _), _⟩ => asked = request ∧ shown = response
  | _ => False

/-- What is shown was loaded from the tables. -/
theorem Act.loads {authorization id : String} {deliveryID : UUID} {response : DeliveryResponse}
    (h : Act platform i s x label s' x') (hShows : x'.Shows (.get authorization id) response)
    (hID : platform.parseUUID id = some deliveryID) : x.Shows (.get authorization id) response ∨
      ∃ row ∈ s.store.db.deliveries, row.id = deliveryID ∧ responseFromDelivery row.load = response := by
  cases x with
  | idle => cases h; exact hShows.elim
  | answered => cases h
  | working request stage =>
    cases h.outcome with
    | found => exact .inl hShows
    | listing hRequest hParsed hRow =>
      obtain ⟨rfl, hResponse⟩ := hShows
      cases hRequest
      have hFound := List.find?_some hRow
      simp only [Bool.and_eq_true, decide_eq_true_eq] at hFound
      exact .inr ⟨_, List.mem_of_find?_eq_some hRow, hFound.1.trans (Option.some.inj (hParsed.symm.trans hID)),
        hResponse⟩
    | _ => exact hShows.elim

theorem takes_load {authorization id : String} {deliveryID : UUID} {response : DeliveryResponse}
    (hID : platform.parseUUID id = some deliveryID) (hIdle : w.procs j = .idle)
    (hRun : LabelledRun.Run (Step platform) w later w') (hShows : (w'.procs j).Shows (.get authorization id) response) :
    Takes (Step platform) w later w' fun before _ =>
      ∃ row ∈ before.shared.store.db.deliveries, row.id = deliveryID ∧ responseFromDelivery row.load = response :=
  takes_of_enters (Q := fun _ (x : Handler) => x.Shows (.get authorization id) response)
    (fun hQ => by rwa [hIdle] at hQ) (fun _ _ _ _ _ hQ => hQ) (fun _ _ _ _ _ _ _ _ hQ => hQ)
    (fun _ _ _ _ _ _ hAct hQ => hAct.loads hQ hID) hRun hShows

/-- After a submission was accepted, a `GET` of its delivery by the same caller shows the row that is stored for it,
with what was submitted, or fails as unavailable, until retention removes the delivery. -/
theorem accepted_delivery_visible {authorization authorization' idempotencyKey : String}
    {body : Except DecodeError Input} {delivery : Delivery} {reply : Reply} (h : Run platform history w)
    (hAccepted : w.procs i = .answered (.submit authorization idempotencyKey body) (accepted delivery))
    (hIdle : w.procs j = .idle) (hRun : LabelledRun.Run (Step platform) w later w')
    (hAnswered : w'.procs j = .answered (.get authorization' (uuidText delivery.id)) reply)
    (hCaller : bearer authorization' = bearer authorization)
    (hParse : platform.parseUUID (uuidText delivery.id) = some delivery.id)
    (hKept : Unremoved delivery.id (later ++ history)) :
    reply = unavailable ∨ ∃ row attempts submission, reply = found (DeliveryRow.load row) attempts ∧
      row.id = delivery.id ∧
      Takes (Step platform) w later w' (fun before _ => row ∈ before.shared.store.db.deliveries) ∧
      Submitted platform i history submission ∧
      row.idempotencyKey = submission.idempotencyKey ∧ row.requestHash = submission.requestHash := by
  have hAnswer := h.sound i
  rw [hAccepted] at hAnswer
  obtain ⟨submission, hSubmitted, _, hOwner, hHolds⟩ := Answer.of_accepted hAnswer
  have hBefore : Unremoved delivery.id history := fun label hLabel => hKept label (List.mem_append_right _ hLabel)
  have hAfter : Unremoved delivery.id later := fun label hLabel => hKept label (List.mem_append_left _ hLabel)
  obtain ⟨row, hRow, hRowCaller, hRowKey, hHash⟩ := hHolds hBefore
  have hID := Database.dossier_row_id hRow
  have hStanding : Standing platform authorization' row [] w.shared.store := by
    refine ⟨h.reachable, ?_, fun _ => ⟨row, hID ▸ hRow, rfl⟩⟩
    rwa [Authenticated, callerOf, hCaller, hRowCaller]
  have hSees := hStanding.sees (hID ▸ hParse) hIdle hRun (hID ▸ hAfter)
  rw [hAnswered, ← hID] at hSees
  rcases hSees rfl with hFailed | ⟨shown, attempts, rfl⟩
  · exact .inl hFailed
  -- the row that was read has the identity of the one the submission has left
  have hShows : (w'.procs j).Shows (.get authorization' (uuidText delivery.id)) (responseFromDelivery shown) := by
    rw [hAnswered]
    exact ⟨rfl, rfl⟩
  obtain ⟨earlier, rest, label, before, after, hRead, hStep, ⟨row', hMem, hID', hResponse⟩, hRest, rfl⟩ :=
    takes_load hParse hIdle hRun hShows
  have hThen := hStanding.run hRead
  obtain ⟨row'', hRow'', hSame⟩ := hThen.row fun label hLabel =>
    hID ▸ hAfter label (List.mem_append_right _ (List.mem_cons_of_mem _ hLabel))
  obtain rfl : row' = row'' := by
    rw [hID, hThen.reachable.integrity.dossier_row_iff.mpr ⟨hMem, hID'⟩] at hRow''
    exact Option.some.inj hRow''
  refine .inr ⟨row', attempts, submission, ?_, hID', ?_, hSubmitted, ?_, ?_⟩
  · rw [found, found, hResponse]
  · exact ⟨earlier, rest, label, before, after, hRead, hStep, hMem, hRest, rfl⟩
  · exact (DeliveryRow.of_identity _ (fun _ => rfl) hSame).trans hRowKey
  · exact (DeliveryRow.of_identity _ (fun _ => rfl) hSame).trans hHash

theorem accepted_delivery_visible_accepted :
    ∃ (history later : List Label) (w w' : World) (reply : Reply), Run Sample.apiPlatform history w ∧
      LabelledRun.Run (Step Sample.apiPlatform) w later w' ∧
      w.procs 0 = .answered (Sample.orderRequest "order-1") (accepted (Sample.submission.accepted 100)) ∧
      w'.procs 2 = .answered (.get "Bearer key" (uuidText 100)) reply ∧
      (reply = unavailable ∨ ∃ row attempts submission, reply = found (DeliveryRow.load row) attempts ∧ row.id = 100 ∧
        Takes (Step Sample.apiPlatform) w later w' (fun before _ => row ∈ before.shared.store.db.deliveries) ∧
        Submitted Sample.apiPlatform 0 history submission ∧ row.idempotencyKey = submission.idempotencyKey ∧
        row.requestHash = submission.requestHash) := by
  have hPlay : (LabelledRun.play (execute Sample.apiPlatform) [] (start 0) Sample.acceptedScript).any (fun run =>
      run.2.procs 0 = .answered (Sample.orderRequest "order-1") (accepted (Sample.submission.accepted 100)) &&
      run.2.procs 2 = .idle && Unremoved 100 run.1 &&
      (LabelledRun.play (execute Sample.apiPlatform) [] run.2 (Sample.getScript 2 "Bearer key")).any fun run' =>
        run'.2.procs 2 = .answered (.get "Bearer key" (uuidText 100))
          (found (Sample.submission.row (.instant 4) 100).load []) && Unremoved 100 run'.1) = true := by
    decide +kernel
  obtain ⟨⟨history, w⟩, hRun, hFacts⟩ := (Option.any_eq_true _ _).mp hPlay
  obtain ⟨hFacts, hLater⟩ := Bool.and_eq_true_iff.mp hFacts
  obtain ⟨⟨later, w'⟩, hRun', hFacts'⟩ := (Option.any_eq_true _ _).mp hLater
  simp only [Bool.and_eq_true, decide_eq_true_eq] at hFacts hFacts'
  obtain ⟨⟨hAccepted, hIdle⟩, hKept⟩ := hFacts
  have h := run_of_play hRun
  have hMore := later_of_play hRun'
  refine ⟨history, later, w, w', _, h, hMore, hAccepted, hFacts'.1, accepted_delivery_visible h hAccepted hIdle hMore
    hFacts'.1 rfl (congrArg some (uuidNumber_uuidText 100)) fun label hLabel => ?_⟩
  exact (List.mem_append.mp hLabel).elim (hFacts'.2 label) (hKept label)

end ReliableNotifier.Api
