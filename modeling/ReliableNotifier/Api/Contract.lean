import ReliableNotifier.Api.Execution
import ReliableNotifier.Lifecycle.History
import ReliableNotifier.Lifecycle.Identity

/-! # What an answer says about the store

The registry only grows and a delivery stays until retention removes it, so what a handler
has read still holds when it writes. Each request commits at most once, what it commits is
what it asked for, and its answer tells whether it did.
-/

namespace ReliableNotifier

open Checked RowTable Interleaving LabelledRun

/-! ## The registry -/

/-- Callers, authorizations and versions are only ever added. -/
structure Database.Grows (db db' : Database) : Prop where
  callers : db.callers <+: db'.callers
  callerDestinations : db.callerDestinations ⊆ db'.callerDestinations
  destinationVersions : db.destinationVersions ⊆ db'.destinationVersions

namespace Database.Grows

variable {db db' db'' : Database}

theorem refl (db : Database) : db.Grows db := ⟨List.prefix_rfl, List.Subset.refl _, List.Subset.refl _⟩

theorem trans (h : db.Grows db') (h' : db'.Grows db'') : db.Grows db'' :=
  ⟨h.callers.trans h'.callers, List.Subset.trans h.callerDestinations h'.callerDestinations,
    List.Subset.trans h.destinationVersions h'.destinationVersions⟩

theorem of_registry (h : db'.registry = db.registry) : db.Grows db' := by
  simp only [registry, Prod.mk.injEq] at h
  obtain ⟨hCallers, _, hVersions, hPairs⟩ := h
  exact ⟨hCallers ▸ List.prefix_rfl, hPairs ▸ List.Subset.refl _, hVersions ▸ List.Subset.refl _⟩

theorem insertCaller {callerID : String} {apiKeyHash : Digest} (h : db.insertCaller callerID apiKeyHash = .ok db') :
    db.Grows db' := by
  unfold Database.insertCaller at h
  split at h
  · cases h
    exact refl db
  · simp only [bind_ok_iff, ensure_ok_iff, pure_ok_iff] at h
    obtain ⟨_, _, rfl⟩ := h
    exact ⟨List.prefix_append _ _, List.Subset.refl _, List.Subset.refl _⟩

theorem setCurrentVersion (destinationID : String) (version : Int) :
    db.Grows (db.setCurrentVersion destinationID version) := by
  obtain ⟨destinations, h⟩ := Database.setCurrentVersion_eq destinationID version db
  rw [h]
  exact ⟨List.prefix_rfl, List.Subset.refl _, List.Subset.refl _⟩

theorem insertDestinationVersion {config : DestinationVersion} (h : db.insertDestinationVersion config = .ok db') :
    db.Grows db' := by
  rcases Database.insertDestinationVersion_ok h with rfl | ⟨row, rfl, _⟩
  · exact refl _
  · exact ⟨List.prefix_rfl, List.Subset.refl _, List.subset_append_left _ _⟩

theorem authorize (callerID destinationID : String) : db.Grows (db.authorize callerID destinationID) := by
  unfold Database.authorize
  split
  · exact refl db
  · exact ⟨List.prefix_rfl, List.subset_append_left _ _, List.Subset.refl _⟩

theorem bootstrap {apiKeyHash : Digest} {config : BootstrapConfig}
    (h : ReliableNotifier.bootstrap apiKeyHash config db = .ok db') : db.Grows db' := by
  simp only [ReliableNotifier.bootstrap, bind_ok_iff, ensure_ok_iff, pure_ok_iff] at h
  obtain ⟨_, _, _, _, withCaller, hCaller, _, _, withVersion, hVersion, _, _, _, _, rfl⟩ := h
  exact (insertCaller hCaller).trans <| (setCurrentVersion _ _).trans <|
    (insertDestinationVersion hVersion).trans (authorize _ _)

/-- Only `Bootstrap` writes the registry. -/
theorem kept (first : Database) : Kept (fun _ => True) fun db => first.Grows db where
  bootstrap h hDb := hDb.trans (bootstrap h)
  updateDeliveries h _ hDb := by
    obtain ⟨_, rfl⟩ := Database.updateDeliveries_ok h
    exact hDb.trans (of_registry rfl)
  updateEvents h _ hDb := by
    obtain ⟨_, rfl⟩ := Database.updateEvents_ok h
    exact hDb.trans (of_registry rfl)
  insertDelivery h hDb := by
    obtain ⟨_, _, _, _, rfl⟩ := Database.insertDelivery_ok h
    exact hDb.trans (of_registry rfl)
  insertEvent _ h hDb := by
    obtain ⟨_, _, _, _, rfl⟩ := Database.insertEvent_ok h
    exact hDb.trans (of_registry rfl)
  insertAttempt h hDb := by
    obtain ⟨_, _, rfl⟩ := Database.insertAttempt_ok h
    exact hDb.trans (of_registry rfl)
  insertAudit h hDb := by
    obtain ⟨_, _, rfl⟩ := Database.insertAudit_ok h
    exact hDb.trans (of_registry rfl)
  deleteDeliveries _ hDb := hDb.trans (of_registry rfl)

end Database.Grows

theorem Store.Step.grows {s t : Store} {action : Store.Action} (h : Store.Step s action t) : s.db.Grows t.db := by
  cases h with
  | wait => exact .refl _
  | commit _ _ _ hApply => exact (Database.Grows.kept s.db).apply hApply (fun _ _ => trivial) (.refl _)

/-! ## Rows -/

/-- Only retention takes a delivery away, and what is recorded of it only grows before. -/
theorem Dossier.Move.row_stays {r : Readings} {op : Op} {d d' : Dossier} {row : DeliveryRow} (h : Move r op d d')
    (hRow : d.row = some row) :
    (∃ row', d'.row = some row' ∧ row'.identity = row.identity ∧ d.attempts ⊆ d'.attempts ∧ d.audits ⊆ d'.audits) ∨
      op.isRetention = true ∧ d'.row = none := by
  cases h with
  | submit => cases hRow
  | events | claim | expire | schedule =>
    cases hRow
    exact .inl ⟨_, rfl, rfl, List.Subset.refl _, List.Subset.refl _⟩
  | complete | recover | abandon =>
    cases hRow
    exact .inl ⟨_, rfl, rfl, List.subset_append_left _ _, List.Subset.refl _⟩
  | replay =>
    cases hRow
    exact .inl ⟨_, rfl, rfl, List.Subset.refl _, List.subset_append_left _ _⟩
  | delete => exact .inr ⟨rfl, rfl⟩

theorem Store.Step.row_stays {s t : Store} {action : Store.Action} {id : UUID} {row : DeliveryRow}
    (h : Store.Step s action t) (hDb : Integrity s.db) (hRow : (s.db.dossier id).row = some row) :
    (∃ row', (t.db.dossier id).row = some row' ∧ row'.identity = row.identity ∧
      (s.db.dossier id).attempts ⊆ (t.db.dossier id).attempts ∧ (s.db.dossier id).audits ⊆ (t.db.dossier id).audits) ∨
    ∃ r op, action = .commit r op ∧ op.isRetention = true ∧ (t.db.dossier id).row = none := by
  cases h.advance hDb id with
  | stay _ _ hSame =>
    rw [hSame]
    exact .inl ⟨row, hRow, rfl, List.Subset.refl _, List.Subset.refl _⟩
  | move _ _ _ _ _ hMove =>
    rcases hMove.row_stays hRow with hStays | ⟨hRetention, hNone⟩
    · exact .inl hStays
    · exact .inr ⟨_, _, rfl, hRetention, hNone⟩

namespace Database

variable {db : Database}

theorem authorizedDestination_some {callerID destinationID : String} {destination : DestinationVersion}
    (h : db.authorizedDestination callerID destinationID = some destination) :
    (callerID, destinationID) ∈ db.callerDestinations ∧
      ∃ version ∈ db.destinationVersions, version.load = destination ∧ version.destinationID = destinationID := by
  unfold authorizedDestination at h
  split at h
  · rename_i hPair
    simp only [List.any_eq_true, decide_eq_true_eq, exists_eq_right] at hPair
    obtain ⟨row, hRow, hVersion⟩ := Option.bind_eq_some_iff.mp h
    obtain ⟨version, hFound, rfl⟩ := Option.map_eq_some_iff.mp hVersion
    have hKey := List.find?_some hFound
    have hID := List.find?_some hRow
    simp only [Bool.and_eq_true, decide_eq_true_eq] at hKey hID
    exact ⟨hPair, version, List.mem_of_find?_eq_some hFound, rfl, hKey.1.trans hID⟩
  · cases h

end Database

namespace Api

variable {platform : Platform} {history : List Label} {label : Label} {w : World} {s s' : Shared}
  {x x' : Handler} {i : Nat} {db db' : Database}

theorem Env.advances (h : Env s label s') :
    ∃ action, Store.Step s.store action s'.store ∧ label = .of none s.store.db s'.store.db action := by
  cases h with
  | store hStep => exact ⟨_, hStep, rfl⟩
  | appoint => exact ⟨.wait, .wait le_rfl, rfl⟩

theorem Act.advances (h : Act platform i s x label s' x') :
    ∃ action, Store.Step s.store action s'.store ∧ label = .of (some i) s.store.db s'.store.db action := by
  cases h with
  | arrive | unauthorized => exact ⟨.wait, .wait le_rfl, rfl⟩
  | authenticate _ hClock | resolve hClock | unresolved hClock | get _ hClock | list hClock | failed hClock =>
    exact ⟨.wait, .wait hClock, rfl⟩
  | submit hServed | replay _ hServed => exact ⟨_, hServed.action.1, rfl⟩

theorem Run.reachable (h : Run platform history w) : w.shared.store.Reachable := by
  obtain ⟨t, hRun⟩ := h
  induction hRun with
  | refl => exact ⟨t, .refl⟩
  | next _ hStep ih =>
    cases hStep with
    | env h =>
      obtain ⟨_, hStore, _⟩ := h.advances
      exact ih.step hStore
    | act _ h =>
      obtain ⟨_, hStore, _⟩ := h.advances
      exact ih.step hStore

/-! ## Who asks for what -/

/-- The caller whose key the header carries. -/
def callerOf (platform : Platform) (db : Database) (authorization : String) : Option String :=
  (bearer authorization).bind fun apiKey => (db.callerOf (platform.digest apiKey)).map CallerRow.id

def Authenticated (platform : Platform) (db : Database) (authorization callerID : String) : Prop :=
  callerOf platform db authorization = some callerID

instance (authorization callerID : String) : Decidable (Authenticated platform db authorization callerID) :=
  inferInstanceAs (Decidable (_ = _))

theorem Authenticated.mono {authorization callerID : String} (h : Authenticated platform db authorization callerID)
    (hGrows : db.Grows db') : Authenticated platform db' authorization callerID := by
  obtain ⟨apiKey, hKey, hCaller⟩ := Option.bind_eq_some_iff.mp h
  obtain ⟨caller, hFound, rfl⟩ := Option.map_eq_some_iff.mp hCaller
  obtain ⟨more, hMore⟩ := hGrows.callers
  refine Option.bind_eq_some_iff.mpr ⟨apiKey, hKey, Option.map_eq_some_iff.mpr ⟨caller, ?_, rfl⟩⟩
  rw [Database.callerOf] at hFound ⊢
  rw [← hMore, List.find?_append, hFound]
  rfl

theorem Authenticated.unique {authorization authorization' callerID callerID' : String}
    (h : Authenticated platform db authorization callerID) (h' : Authenticated platform db authorization' callerID')
    (hSame : bearer authorization = bearer authorization') : callerID = callerID' := by
  unfold Authenticated callerOf at h h'
  rw [hSame, h'] at h
  exact (Option.some.inj h).symm

theorem authenticated_of_principal {authorization apiKey : String} {operators : String → Bool} {principal : Principal}
    (hKey : bearer authorization = some apiKey)
    (h : db.authenticatePrincipal (platform.digest apiKey) operators = some principal) :
    Authenticated platform db authorization principal.callerID := by
  obtain ⟨caller, hCaller, rfl⟩ := Option.map_eq_some_iff.mp h
  exact Option.bind_eq_some_iff.mpr ⟨apiKey, hKey, Option.map_eq_some_iff.mpr ⟨caller, hCaller, rfl⟩⟩

/-- The caller may use the destination, and the version bound allows the method and the headers. -/
def Authorized (platform : Platform) (db : Database) (submission : Submission) : Prop :=
  (submission.callerID, submission.destinationID) ∈ db.callerDestinations ∧
    ∃ version ∈ db.destinationVersions,
      version.key = (submission.destinationID, submission.destinationVersion) ∧
      containsFold platform.tables version.load.allowedMethods submission.method = true ∧
      validateCallerHeaders platform.tables (platform.order.range submission.callerHeaders) version.load = .ok ()

theorem Authorized.mono {submission : Submission} (h : Authorized platform db submission) (hGrows : db.Grows db') :
    Authorized platform db' submission := by
  obtain ⟨hPair, version, hVersion, hRest⟩ := h
  exact ⟨hGrows.callerDestinations hPair, version, hGrows.destinationVersions hVersion, hRest⟩

end Api

/-- What the request hash is taken of. -/
def Submission.content (submission : Submission) : HashInput :=
  ⟨submission.destinationID, submission.destinationVersion, submission.method, submission.callerHeaders,
    submission.body⟩

namespace Api

variable {platform : Platform} {history : List Label} {label : Label} {w : World} {s s' : Shared}
  {x x' : Handler} {i : Nat} {db db' : Database}

/-- The hash of a content that the API can have prepared. -/
structure Sealed (platform : Platform) (content : HashInput) (hash : Digest) : Prop where
  method : isSupportedOutboundMethod content.method = true
  headers : ∃ given, canonicalCallerHeaders platform.tables given = .ok content.callerHeaders
  hash : platform.requestHash content = .ok hash

/-- The content is that of the input. -/
structure Carries (platform : Platform) (input : Input) (content : HashInput) : Prop where
  destinationID : content.destinationID = input.destinationID
  method : content.method = platform.tables.upper (trimmed input.method)
  headers : ∃ given, input.headers = some given ∧
    canonicalCallerHeaders platform.tables (platform.order.range given) = .ok content.callerHeaders
  body : input.body = some content.body

/-- The submission carries what the request holds. -/
structure Prepared (platform : Platform) (idempotencyKey : String) (body : Except DecodeError Input)
    (submission : Submission) : Prop where
  key : submission.idempotencyKey = trimmed idempotencyKey
  input : ∃ input, body = .ok input ∧ Carries platform input submission.content
  sealed : Sealed platform submission.content submission.requestHash
  fromAPI : submission.FromAPI

theorem admission_ok {callerID idempotencyKey : String} {body : Except DecodeError Input} {acceptedAt : GoTime}
    {submission : Submission}
    (h : admission platform callerID idempotencyKey body (db.authorizedDestination callerID) acceptedAt =
      .ok submission) :
    submission.callerID = callerID ∧ Prepared platform idempotencyKey body submission ∧
      Authorized platform db submission := by
  simp only [admission, SubmissionRequest.prepare, bind_ok_iff, ensure_ok_iff, pure_ok_iff, elim_error_ok_iff,
    mapError_ok_iff, Bool.and_eq_true] at h
  obtain ⟨_, _, input, hInput, given, hGiven, _, _, content, hContent, canonical, hCanonical, _, _, destination,
    hDestination, _, ⟨hSupported, hAllowed⟩, _, hValid, hash, hHash, rfl⟩ := h
  obtain ⟨hPair, version, hVersion, rfl, hID⟩ := Database.authorizedDestination_some hDestination
  rw [← hID] at hPair
  refine ⟨rfl, ⟨rfl, ⟨input, hInput, hID, rfl, ⟨given, hGiven, hCanonical⟩, hContent⟩, ?_, rfl, rfl⟩, hPair, version,
    hVersion, rfl, hAllowed, hValid⟩
  exact ⟨hSupported, ⟨_, hCanonical⟩, hHash⟩

/-- The operation a request committed, with the tables it found. -/
def Label.madeBy (i : Nat) : Label → Option (Op × Database)
  | commit actor _ op before _ => if actor = some i then some (op, before) else none
  | quiet => none

def commits (i : Nat) (history : List Label) : List (Op × Database) := history.filterMap (Label.madeBy i)

theorem commits_of_other {actor : Option Nat} {action : Store.Action} (hActor : actor ≠ some i) :
    commits i (.of actor db db' action :: history) = commits i history := by
  cases action with
  | wait => rfl
  | commit r op =>
    have hNone : (Label.of actor db db' (.commit r op)).madeBy i = none := if_neg hActor
    rw [commits, List.filterMap_cons_none hNone]
    rfl

theorem commits_own (r : Readings) (op : Op) :
    commits i (.commit (some i) r op db db' :: history) = (op, db) :: commits i history := by
  have hSome : (Label.commit (some i) r op db db').madeBy i = some (op, db) := if_pos rfl
  rw [commits, List.filterMap_cons_some hSome]
  rfl

/-- What a request asks for: a submission its caller is entitled to, or a replay in its caller's name. -/
inductive Asks (platform : Platform) : Request → Op × Database → Prop
  | submit {authorization idempotencyKey : String} {body : Except DecodeError Input} {submission : Submission}
      {deliveryID outboxID traceID : UUID} {before : Database}
      (hCaller : Authenticated platform before authorization submission.callerID)
      (hPrepared : Prepared platform idempotencyKey body submission)
      (hAuthorized : Authorized platform before submission) :
      Asks platform (.submit authorization idempotencyKey body)
        (.submit platform.backlogLimit submission deliveryID outboxID traceID, before)
  | replay {authorization id raw operatorID reason : String} {replayedAt : Time}
      {deliveryID auditID outboxID traceID : UUID} {before : Database}
      (hCaller : Authenticated platform before authorization operatorID)
      (hID : platform.parseUUID id = some deliveryID) (hReason : replayReason raw = .ok reason) :
      Asks platform (.replay authorization id (some raw))
        (.replay replayedAt deliveryID operatorID reason auditID outboxID traceID, before)

/-! ## What stays -/

/-- Retention took the delivery away. -/
def Label.Removes (id : UUID) : Label → Prop
  | commit _ _ op before after => op.isRetention = true ∧ (∃ row ∈ before.deliveries, row.id = id) ∧
      ∀ row ∈ after.deliveries, row.id ≠ id
  | quiet => False

def Unremoved (id : UUID) (history : List Label) : Prop := ∀ label ∈ history, ¬label.Removes id

instance (id : UUID) : DecidablePred (Label.Removes id)
  | .commit _ _ _ _ _ => inferInstanceAs (Decidable (_ ∧ (∃ row ∈ _, _) ∧ ∀ row ∈ _, _))
  | .quiet => inferInstanceAs (Decidable False)

instance (id : UUID) (history : List Label) : Decidable (Unremoved id history) :=
  inferInstanceAs (Decidable (∀ label ∈ history, _))

theorem Unremoved.tail {id : UUID} (h : Unremoved id (label :: history)) : Unremoved id history :=
  fun other hOther => h other (List.mem_cons_of_mem _ hOther)

theorem row_stays {s t : Store} {action : Store.Action} {actor : Option Nat} {id : UUID} {row : DeliveryRow}
    (hStep : Store.Step s action t) (hDb : Integrity s.db) (hRow : (s.db.dossier id).row = some row)
    (hKept : Unremoved id (.of actor s.db t.db action :: history)) :
    ∃ row', (t.db.dossier id).row = some row' ∧ row'.identity = row.identity ∧
      (s.db.dossier id).attempts ⊆ (t.db.dossier id).attempts ∧
      (s.db.dossier id).audits ⊆ (t.db.dossier id).audits := by
  rcases hStep.row_stays hDb hRow with hStays | ⟨r, op, rfl, hRetention, hNone⟩
  · exact hStays
  · obtain ⟨hMem, hID⟩ := hDb.dossier_row_iff.mp hRow
    exact absurd ⟨hRetention, ⟨row, hMem, hID⟩, (lookup_eq_none_iff DeliveryRow.id).mp hNone⟩
      (hKept _ List.mem_cons_self)

/-- The delivery is there, and is the one the submission stands for. -/
def Holds (db : Database) (submission : Submission) (id : UUID) : Prop :=
  ∃ row, (db.dossier id).row = some row ∧ row.callerID = submission.callerID ∧
    row.idempotencyKey = submission.idempotencyKey ∧ row.requestHash = submission.requestHash

theorem Holds.step {s t : Store} {action : Store.Action} {actor : Option Nat} {id : UUID} {submission : Submission}
    (h : Holds s.db submission id) (hStep : Store.Step s action t) (hDb : Integrity s.db)
    (hKept : Unremoved id (.of actor s.db t.db action :: history)) : Holds t.db submission id := by
  obtain ⟨row, hRow, hCaller, hKey, hHash⟩ := h
  obtain ⟨row', hRow', hSame, _⟩ := row_stays hStep hDb hRow hKept
  exact ⟨row', hRow', (DeliveryRow.of_identity _ (fun _ => rfl) hSame).trans hCaller,
    (DeliveryRow.of_identity _ (fun _ => rfl) hSame).trans hKey,
    (DeliveryRow.of_identity _ (fun _ => rfl) hSame).trans hHash⟩

/-- Whatever has this identifier, now or later, is the caller's. -/
def Belongs (s : Store) (callerID : String) (id : UUID) : Prop :=
  id ∈ s.issued ∧ ∀ row, (s.db.dossier id).row = some row → row.callerID = callerID

theorem Belongs.step {s t : Store} {action : Store.Action} {id : UUID} {callerID : String} (h : Belongs s callerID id)
    (hs : s.Reachable) (hStep : Store.Step s action t) : Belongs t callerID id := by
  refine ⟨hStep.issued_subset h.1, fun row' hRow' => ?_⟩
  obtain ⟨row, hRow, hSame⟩ := hStep.identity_eq hs h.1 hRow'
  exact (DeliveryRow.of_identity DeliveryRow.callerID (fun _ => rfl) hSame).trans (h.2 row hRow)

/-- Attempts and replays that explain how a delivery came to its generation and to success. -/
structure Accounts (attempts : List AttemptRow) (audits : List ReplayAuditRow) (status : Status) (generation : Nat) :
    Prop where
  present : status = .succeeded → ∃ attempt ∈ attempts, attempt.generation = generation ∧
    attempt.resultClass = .succeeded
  past : ∀ k < generation, (∃ attempt ∈ attempts, attempt.generation = k ∧ attempt.resultClass = .retryableFailure) ∨
    ∃ audit ∈ audits, audit.fromGeneration = k

theorem Accounts.mono {attempts attempts' : List AttemptRow} {audits audits' : List ReplayAuditRow} {status : Status}
    {generation : Nat} (h : Accounts attempts audits status generation) (hAttempts : attempts ⊆ attempts')
    (hAudits : audits ⊆ audits') : Accounts attempts' audits' status generation where
  present hStatus := (h.present hStatus).imp fun _ hAttempt => ⟨hAttempts hAttempt.1, hAttempt.2⟩
  past k hk := by
    rcases h.past k hk with ⟨attempt, hMem, hAttempt⟩ | ⟨audit, hMem, hAudit⟩
    · exact .inl ⟨attempt, hAttempts hMem, hAttempt⟩
    · exact .inr ⟨audit, hAudits hMem, hAudit⟩

end Api

theorem Dossier.History.accounts {d : Dossier} {row : DeliveryRow} (h : d.History row) :
    Api.Accounts d.attempts d.audits row.status row.generation where
  present hStatus := by
    have hPresent := h.present
    rw [hStatus] at hPresent
    obtain ⟨attempt, hOne, hClass⟩ := hPresent
    have hMem : attempt ∈ d.attemptsAt row.generation := hOne ▸ List.mem_singleton_self attempt
    exact ⟨attempt, ((mem_owned _).mp hMem).1, ((mem_owned _).mp hMem).2, hClass⟩
  past k hk := by
    rcases h.past k hk with ⟨⟨attempt, hOne, hClass⟩, _⟩ | ⟨⟨audit, hOne⟩, _⟩
    · have hMem : attempt ∈ d.attemptsAt k := hOne ▸ List.mem_singleton_self attempt
      exact .inl ⟨attempt, ((mem_owned _).mp hMem).1, ((mem_owned _).mp hMem).2, hClass⟩
    · have hMem : audit ∈ d.replaysAt k := hOne ▸ List.mem_singleton_self audit
      exact .inr ⟨audit, ((mem_owned _).mp hMem).1, congrArg Prod.fst ((mem_owned _).mp hMem).2⟩

namespace Api

variable {platform : Platform} {history : List Label} {label : Label} {w : World} {s s' : Shared}
  {x x' : Handler} {i : Nat}

/-- The attempts shown with a delivery. With fewer than the limit none is missing. -/
structure Listed (history : List Label) (s : Store) (delivery : Delivery) (attempts : List AttemptRow) : Prop where
  few : attempts.length ≤ statusAttemptLimit
  sorted : attempts.Pairwise Database.later
  once : (attempts.map AttemptRow.generation).Nodup
  complete : attempts.length < statusAttemptLimit → Unremoved delivery.id history →
    (∃ row, (s.db.dossier delivery.id).row = some row) ∧
      Accounts attempts (s.db.dossier delivery.id).audits delivery.status delivery.generation

/-! ## The invariant -/

def Request.isGet : Request → Bool
  | get _ _ => true
  | _ => false

def Stage.Sound (platform : Platform) (history : List Label) (s : Store) (request : Request) : Stage → Prop
  | .authenticating => True
  | .resolving callerID => Authenticated platform s.db request.authorization callerID
  | .submitting submission => Authenticated platform s.db request.authorization submission.callerID ∧
      Authorized platform s.db submission ∧
      ∃ authorization idempotencyKey body, request = .submit authorization idempotencyKey body ∧
        Prepared platform idempotencyKey body submission
  | .getting callerID => Authenticated platform s.db request.authorization callerID
  | .listing callerID delivery => Authenticated platform s.db request.authorization callerID ∧
      (∃ authorization id, request = .get authorization id ∧ platform.parseUUID id = some delivery.id) ∧
      Belongs s callerID delivery.id ∧
      (Unremoved delivery.id history → (∃ row, (s.db.dossier delivery.id).row = some row) ∧
        Accounts (s.db.dossier delivery.id).attempts (s.db.dossier delivery.id).audits delivery.status
          delivery.generation)
  | .replaying operatorID reason => Authenticated platform s.db request.authorization operatorID ∧
      ∃ authorization id raw, request = .replay authorization id (some raw) ∧ replayReason raw = .ok reason

/-- How an answer came about. -/
inductive Answer (platform : Platform) (i : Nat) (history : List Label) (s : Store) : Request → Reply → Prop
  | refused {request : Request} {reply : Reply} (hStatus : reply.status ≠ 202 ∧ reply.status ≠ 200)
      (hGet : request.isGet = false ∨ reply = .ofError unauthorized ∨ reply = .ofError notFound)
      (hNone : commits i history = []) : Answer platform i history s request reply
  | failed {request : Request} (hFew : (commits i history).length ≤ 1)
      (hAsked : ∀ commit ∈ commits i history, Asks platform request commit) :
      Answer platform i history s request unavailable
  | submitted {authorization idempotencyKey : String} {body : Except DecodeError Input} {delivery : Delivery}
      {submission : Submission} {deliveryID outboxID traceID : UUID} {before : Database}
      (hOne : commits i history =
        [(.submit platform.backlogLimit submission deliveryID outboxID traceID, before)])
      (hAsked : Asks platform (.submit authorization idempotencyKey body)
        (.submit platform.backlogLimit submission deliveryID outboxID traceID, before))
      (hCaller : Authenticated platform s.db authorization submission.callerID)
      (hHolds : Unremoved delivery.id history → Holds s.db submission delivery.id) :
      Answer platform i history s (.submit authorization idempotencyKey body) (accepted delivery)
  | replayed {authorization id : String} {body : Option String} {delivery : Delivery} {commit : Op × Database}
      (hOne : commits i history = [commit]) (hAsked : Asks platform (.replay authorization id body) commit) :
      Answer platform i history s (.replay authorization id body) (accepted delivery)
  | shown {authorization id callerID : String} {delivery : Delivery} {attempts : List AttemptRow}
      (hNone : commits i history = []) (hCaller : Authenticated platform s.db authorization callerID)
      (hID : platform.parseUUID id = some delivery.id) (hBelongs : Belongs s callerID delivery.id)
      (hListed : Listed history s delivery attempts) :
      Answer platform i history s (.get authorization id) (found delivery attempts)

def Handler.Sound (platform : Platform) (i : Nat) (history : List Label) (s : Store) : Handler → Prop
  | .idle => commits i history = []
  | .working request stage => commits i history = [] ∧ stage.Sound platform history s request
  | .answered request reply => Answer platform i history s request reply

def Handler.request : Handler → Option Request
  | .idle => none
  | .working request _ => some request
  | .answered request _ => some request

section Others

variable {s t : Store} {action : Store.Action} {actor : Option Nat} {request : Request} {reply : Reply}
  {stage : Stage} {delivery : Delivery}

theorem Listed.step {attempts : List AttemptRow} (h : Listed history s delivery attempts)
    (hStep : Store.Step s action t) (hDb : Integrity s.db) :
    Listed (.of actor s.db t.db action :: history) t delivery attempts where
  few := h.few
  sorted := h.sorted
  once := h.once
  complete hFew hKept := by
    obtain ⟨⟨row, hRow⟩, hAccounts⟩ := h.complete hFew hKept.tail
    obtain ⟨row', hRow', _, _, hAudits⟩ := row_stays hStep hDb hRow hKept
    exact ⟨⟨row', hRow'⟩, hAccounts.mono (List.Subset.refl _) hAudits⟩

theorem Stage.Sound.step (h : stage.Sound platform history s request) (hs : s.Reachable)
    (hStep : Store.Step s action t) :
    stage.Sound platform (.of actor s.db t.db action :: history) t request := by
  cases stage with
  | authenticating => trivial
  | resolving callerID => exact Authenticated.mono h hStep.grows
  | submitting submission => exact ⟨h.1.mono hStep.grows, h.2.1.mono hStep.grows, h.2.2⟩
  | getting callerID => exact Authenticated.mono h hStep.grows
  | listing callerID delivery =>
    obtain ⟨hCaller, hRequest, hBelongs, hAccounts⟩ := h
    refine ⟨hCaller.mono hStep.grows, hRequest, hBelongs.step hs hStep, fun hKept => ?_⟩
    obtain ⟨⟨row, hRow⟩, hAccounts⟩ := hAccounts hKept.tail
    obtain ⟨row', hRow', _, hAttempts, hAudits⟩ := row_stays hStep hs.integrity hRow hKept
    exact ⟨⟨row', hRow'⟩, hAccounts.mono hAttempts hAudits⟩
  | replaying operatorID reason => exact ⟨h.1.mono hStep.grows, h.2⟩

theorem Answer.step (h : Answer platform i history s request reply) (hs : s.Reachable) (hStep : Store.Step s action t)
    (hActor : actor ≠ some i) : Answer platform i (.of actor s.db t.db action :: history) t request reply := by
  have hCommits := @commits_of_other history i s.db t.db actor action hActor
  cases h with
  | refused hStatus hGet hNone => exact .refused hStatus hGet (hCommits.trans hNone)
  | failed hFew hAsked =>
    refine .failed ?_ ?_
    · rwa [hCommits]
    · rwa [hCommits]
  | submitted hOne hAsked hCaller hHolds =>
    refine .submitted (hCommits.trans hOne) hAsked (hCaller.mono hStep.grows) fun hKept => ?_
    exact (hHolds hKept.tail).step hStep hs.integrity hKept
  | replayed hOne hAsked => exact .replayed (hCommits.trans hOne) hAsked
  | shown hNone hCaller hID hBelongs hListed =>
    exact .shown (hCommits.trans hNone) (hCaller.mono hStep.grows) hID (hBelongs.step hs hStep)
      (hListed.step hStep hs.integrity)

/-- What others do leaves the knowledge of a request valid. -/
theorem Handler.Sound.step (h : x.Sound platform i history s) (hs : s.Reachable) (hStep : Store.Step s action t)
    (hActor : actor ≠ some i) : x.Sound platform i (.of actor s.db t.db action :: history) t := by
  have hCommits := @commits_of_other history i s.db t.db actor action hActor
  cases x with
  | idle => exact hCommits.trans h
  | working request stage => exact ⟨hCommits.trans h.1, h.2.step hs hStep⟩
  | answered request reply => exact Answer.step h hs hStep hActor

end Others

/-! ## The steps of a request -/

/-- An error is answered with a status that says so. -/
def Failing (err : HttpError) : Prop := 400 ≤ err.status

instance (err : HttpError) : Decidable (Failing err) := inferInstanceAs (Decidable (_ ≤ _))

theorem Failing.reply {err : HttpError} (h : Failing err) :
    (Reply.ofError err).status ≠ 202 ∧ (Reply.ofError err).status ≠ 200 := by
  have hStatus : 400 ≤ (Reply.ofError err).status := h
  omega

/-- How a submission is refused before the store is asked to take it. -/
def Refusal (err : HttpError) : Prop := err.status = 400 ∨ err.status = 403 ∨ err.status = 413

instance (err : HttpError) : Decidable (Refusal err) := inferInstanceAs (Decidable (_ ∨ _))

theorem Refusal.failing {err : HttpError} (h : Refusal err) : Failing err := by
  unfold Refusal at h
  unfold Failing
  omega

theorem DecodeError.refusal (err : DecodeError) : Refusal err.http := by
  cases err <;> decide

section Own

variable {request : Request}

theorem sound_refuse {err : HttpError} {t : Store} (h : Failing err)
    (hGet : request.isGet = false ∨ err = unauthorized ∨ err = notFound) (hNone : commits i history = []) :
    (refuse request err).Sound platform i history t :=
  .refused h.reply (hGet.imp_right (.imp (congrArg _) (congrArg _))) hNone

theorem sound_unavailable {t : Store} (hNone : commits i history = []) :
    (Handler.answered request unavailable).Sound platform i history t := by
  refine .failed (by simp [hNone]) fun commit hCommit => ?_
  rw [hNone] at hCommit
  cases hCommit

theorem replayReason_error {raw : String} {err : HttpError} (h : replayReason raw = .error err) : Failing err := by
  rcases bind_error_iff.mp h with hReason | ⟨_, _, hReason⟩
  · rw [← (ensure_error_iff.mp hReason).2]
    decide
  · exact absurd hReason pure_ne_error

theorem sound_afterAuthenticate {t : Store} {principal : Principal}
    (hCaller : Authenticated platform t.db request.authorization principal.callerID)
    (hNone : commits i history = []) :
    (afterAuthenticate request (some principal)).Sound platform i history t := by
  cases request with
  | submit authorization idempotencyKey body => exact ⟨hNone, hCaller⟩
  | get authorization id => exact ⟨hNone, hCaller⟩
  | replay authorization id body =>
    cases body with
    | none =>
      simp only [afterAuthenticate]
      split
      · exact sound_refuse (by decide) (.inl rfl) hNone
      · exact sound_refuse (by decide) (.inl rfl) hNone
    | some raw =>
      simp only [afterAuthenticate]
      split
      · exact sound_refuse (by decide) (.inl rfl) hNone
      · cases hReason : replayReason raw with
        | error err => exact sound_refuse (replayReason_error hReason) (.inl rfl) hNone
        | ok reason => exact ⟨hNone, hCaller, authorization, id, raw, rfl, hReason⟩

theorem avoids_mapError {ε : Type} {α : Type} {first : Except ε α} {f : ε → HttpError} (h : ∀ err, Refusal (f err)) :
    Avoids (fun err => ¬Refusal err) (first.mapError f) := by
  cases first with
  | ok value => exact .ok value
  | error err => exact .error (not_not.mpr (h err))

theorem avoids_elim {α : Type} {value : Option α} {err : HttpError} (h : Refusal err) :
    Avoids (fun err => ¬Refusal err) (value.elim (.error err) .ok) := by
  cases value with
  | none => exact .error (not_not.mpr h)
  | some value => exact .ok value

theorem admission_error {callerID idempotencyKey : String} {body : Except DecodeError Input} {acceptedAt : GoTime}
    {authorized : String → Option DestinationVersion} :
    Avoids (fun err => ¬Refusal err) (admission platform callerID idempotencyKey body authorized acceptedAt) := by
  have hBad {code message : String} : Refusal ⟨400, code, message⟩ := .inl rfl
  refine .bind (.ensure (.inr (by decide))) fun _ _ => .bind (avoids_mapError DecodeError.refusal) fun input _ =>
    .bind (avoids_elim (by decide)) fun headers _ => ?_
  refine .bind (.ensure (.inr (by decide))) fun _ _ => .bind (avoids_elim (by decide)) fun content _ =>
    .bind (avoids_mapError fun _ => hBad) fun canonical _ => .bind (.ensure (.inr (by decide))) fun _ _ =>
    .bind (avoids_elim (by decide)) fun destination _ => .bind (.ensure (.inr (by decide))) fun _ _ =>
    .bind (avoids_mapError fun _ => hBad) fun _ _ => .bind (avoids_mapError fun _ => hBad) fun hash _ => .ok _

theorem sound_afterResolve {authorization idempotencyKey callerID : String} {body : Except DecodeError Input}
    {t : Store} {acceptedAt : GoTime} (hCaller : Authenticated platform t.db authorization callerID)
    (hNone : commits i history = []) :
    (afterResolve (.submit authorization idempotencyKey body)
      (admission platform callerID idempotencyKey body (t.db.authorizedDestination callerID) acceptedAt)).Sound
      platform i history t := by
  cases hAdmit : admission platform callerID idempotencyKey body (t.db.authorizedDestination callerID) acceptedAt with
  | error err => exact sound_refuse (not_not.mp (admission_error err hAdmit)).failing (.inl rfl) hNone
  | ok submission =>
    obtain ⟨rfl, hPrepared, hAuthorized⟩ := admission_ok hAdmit
    exact ⟨hNone, hCaller, hAuthorized, authorization, idempotencyKey, body, rfl, hPrepared⟩

/-- A submission that goes through finds or leaves its delivery in the tables. -/
theorem submit_holds {s t : Store} {r : Readings} {backlogLimit : Int} {submission : Submission}
    {deliveryID outboxID traceID : UUID} {delivery : Delivery} (hs : s.Reachable)
    (hStep : Store.Step s (.commit r (.submit backlogLimit submission deliveryID outboxID traceID)) t)
    (hAnswer : Prod.fst <$> ReliableNotifier.submit r backlogLimit submission deliveryID outboxID traceID s.db =
      .ok delivery) :
    Holds t.db submission delivery.id := by
  have hDb := (hs.step hStep).integrity
  obtain ⟨⟨reply, db⟩, hSubmit, rfl⟩ := map_ok_iff.mp hAnswer
  obtain ⟨⟨_, _⟩, hApply, hFinal⟩ := map_ok_iff.mp hStep.applied.1
  obtain ⟨rfl, rfl⟩ := Prod.mk.inj (Except.ok.inj (hSubmit.symm.trans hApply))
  obtain rfl : db = t.db := hFinal
  rcases submit_ok hSubmit with ⟨existing, hExisting, hHash, rfl, hSame⟩ | ⟨_, _, rfl, hInsert⟩
  · have hKey := List.find?_some hExisting
    simp only [Bool.and_eq_true, decide_eq_true_eq] at hKey
    refine ⟨existing, hDb.dossier_row_iff.mpr ⟨?_, rfl⟩, hKey.1, hKey.2, hHash⟩
    exact hSame ▸ List.mem_of_find?_eq_some hExisting
  · obtain ⟨middle, hRow, hEvent⟩ := insertSubmission_ok hInsert
    obtain ⟨_, _, _, _, rfl⟩ := Database.insertDelivery_ok hRow
    obtain ⟨_, _, _, _, hFinal⟩ := Database.insertEvent_ok hEvent
    refine ⟨submission.row r deliveryID, hDb.dossier_row_iff.mpr ⟨?_, rfl⟩, rfl, rfl, rfl⟩
    rw [hFinal]
    exact List.mem_append_right _ (List.mem_singleton_self _)

/-- What `Served` leaves of a commit that the request asked for. -/
theorem sound_served {β : Type} {s t : Store} {op : Op} {answer : Readings → Except StoreError β}
    {reply : Except StoreError β} {action : Store.Action} {after : Request → Except StoreError β → Handler}
    (hServed : Served s op answer reply action t) (hNone : commits i history = [])
    (hAsked : Asks platform request (op, s.db))
    (hDone : ∀ r value, Store.Step s (.commit r op) t → answer r = .ok value →
      commits i (.commit (some i) r op s.db t.db :: history) = [(op, s.db)] →
      (after request (.ok value)).Sound platform i (.commit (some i) r op s.db t.db :: history) t)
    (hRefused : ∀ err history, commits i history = [] → (after request (.error err)).Sound platform i history t)
    (hLost : after request (.error .unavailable) = .answered request unavailable) :
    (after request reply).Sound platform i (.of (some i) s.db t.db action :: history) t := by
  have hOne (r : Readings) : commits i (.commit (some i) r op s.db t.db :: history) = [(op, s.db)] := by
    rw [commits_own, hNone]
  cases hServed with
  | @done r _ _ hStep hAnswer => exact hDone _ _ hStep hAnswer (hOne r)
  | @lost r _ hStep =>
    rw [hLost]
    refine .failed (by simp [Label.of, hOne]) fun commit hCommit => ?_
    rw [Label.of, hOne, List.mem_singleton] at hCommit
    exact hCommit ▸ hAsked
  | refused _ _ => exact hRefused _ _ hNone
  | down _ => exact hRefused _ _ hNone

theorem sound_afterSubmit_error {t : Store} (err : StoreError) (hGet : request.isGet = false)
    (hNone : commits i history = []) : (afterSubmit request (.error err)).Sound platform i history t := by
  unfold afterSubmit
  split
  · exact sound_refuse (by decide) (.inl hGet) hNone
  · exact .refused (by decide) (.inl hGet) hNone
  · exact sound_unavailable hNone
  · contradiction

theorem sound_afterReplay_error {t : Store} (err : StoreError) (hGet : request.isGet = false)
    (hNone : commits i history = []) : (afterReplay request (.error err)).Sound platform i history t := by
  unfold afterReplay
  split
  · exact sound_refuse (by decide) (.inl hGet) hNone
  · exact sound_refuse (by decide) (.inl hGet) hNone
  · exact sound_unavailable hNone
  · contradiction

theorem sound_afterGet {authorization id callerID : String} {deliveryID : UUID} {t : Store} (ht : t.Reachable)
    (hCaller : Authenticated platform t.db authorization callerID) (hID : platform.parseUUID id = some deliveryID)
    (hNone : commits i history = []) :
    (afterGet (.get authorization id) callerID (t.db.get callerID deliveryID)).Sound platform i history t := by
  cases hGet : t.db.get callerID deliveryID with
  | none => exact sound_refuse (by decide) (.inr (.inr rfl)) hNone
  | some row =>
    have hFound := List.find?_some hGet
    simp only [Bool.and_eq_true, decide_eq_true_eq] at hFound
    obtain ⟨rfl, rfl⟩ := hFound
    have hRow : (t.db.dossier row.id).row = some row :=
      ht.integrity.dossier_row_iff.mpr ⟨List.mem_of_find?_eq_some hGet, rfl⟩
    have hIssued := ht.issued_of_phase (Store.phase_of_row hRow)
    refine ⟨hNone, hCaller, ⟨authorization, id, rfl, hID⟩, ⟨hIssued, ?_⟩, fun _ => ?_⟩
    · intro other hOther
      exact congrArg DeliveryRow.callerID (Option.some.inj (hOther.symm.trans hRow))
    · exact ⟨⟨row, hRow⟩, (ht.history hRow).accounts⟩

instance : Std.Total Database.later where
  total a b := by
    rcases lt_trichotomy a.startedAt b.startedAt with hLess | hSame | hMore
    · exact .inr (.inl hLess)
    · exact (le_total b.id a.id).imp (fun h => .inr ⟨hSame.symm, h⟩) fun h => .inr ⟨hSame, h⟩
    · exact .inl (.inl hMore)

instance : IsTrans AttemptRow Database.later where
  trans a b c := by
    rintro (hFirst | ⟨hFirst, hIDs⟩) (hSecond | ⟨hSecond, hIDs'⟩)
    · exact .inl (hSecond.trans hFirst)
    · exact .inl (hSecond ▸ hFirst)
    · exact .inl (hFirst ▸ hSecond)
    · exact .inr ⟨hSecond.trans hFirst, hIDs'.trans hIDs⟩

theorem get_isSome {t : Store} {id : UUID} {callerID : String} {row : DeliveryRow} (ht : t.Reachable)
    (hBelongs : Belongs t callerID id) (hRow : (t.db.dossier id).row = some row) :
    (t.db.get callerID id).isSome = true := by
  obtain ⟨hMem, hID⟩ := ht.integrity.dossier_row_iff.mp hRow
  exact List.find?_isSome.mpr ⟨row, hMem, by simp [hID, hBelongs.2 row hRow]⟩

theorem generations_nodup {t : Store} {id : UUID} (ht : t.Reachable) {p : AttemptRow → Bool}
    (hp : ∀ attempt, p attempt = true → attempt.deliveryID = id) :
    ((t.db.deliveryAttempts.filter p).map AttemptRow.generation).Nodup := by
  have hOwned : ((t.db.dossier id).attempts.map AttemptRow.generation).Nodup := by
    refine List.nodup_iff_count_le_one.mpr fun k => ?_
    have hOne := ht.attemptsAt_le_one id k
    rw [Dossier.attemptsAt, owned, ← List.countP_eq_length_filter] at hOne
    rwa [List.count, List.countP_map]
  refine (List.Sublist.map _ ?_).nodup hOwned
  exact List.monotone_filter_right _ fun attempt hAttempt => decide_eq_true (hp attempt hAttempt)

theorem listed_of_list {t : Store} {callerID : String} {delivery : Delivery} (ht : t.Reachable)
    (hBelongs : Belongs t callerID delivery.id)
    (h : Unremoved delivery.id history → (∃ row, (t.db.dossier delivery.id).row = some row) ∧
      Accounts (t.db.dossier delivery.id).attempts (t.db.dossier delivery.id).audits delivery.status
        delivery.generation) :
    Listed history t delivery (t.db.listAttemptSummaries callerID delivery.id statusAttemptLimit) where
  few := by
    rw [Database.listAttemptSummaries, length_batch]
    exact Nat.min_le_left _ _
  sorted := (List.pairwise_insertionSort Database.later _).sublist (List.take_sublist _ _)
  once := by
    refine ((List.take_sublist _ _).map _).nodup (((List.perm_insertionSort _ _).map _).nodup_iff.mpr ?_)
    refine @generations_nodup t delivery.id ht _ fun attempt hAttempt => ?_
    exact of_decide_eq_true ((Bool.and_eq_true _ _).mp hAttempt).1
  complete hFew hKept := by
    obtain ⟨⟨row, hRow⟩, hAccounts⟩ := h hKept
    refine ⟨⟨row, hRow⟩, hAccounts.mono (fun attempt hAttempt => ?_) (List.Subset.refl _)⟩
    obtain ⟨hMem, hOwner⟩ := (mem_owned _).mp hAttempt
    rw [Database.listAttemptSummaries, length_batch] at hFew
    refine (mem_batch_iff _ (by omega)).mpr ⟨hMem, ?_⟩
    rw [get_isSome ht hBelongs hRow]
    simpa using hOwner

end Own

/-- A step of a request gives it the knowledge that its next state rests on. -/
theorem Act.sound (h : Act platform i s x label s' x') (hs : s.store.Reachable)
    (hx : x.Sound platform i history s.store) : x'.Sound platform i (label :: history) s'.store := by
  obtain ⟨action, hStep, hLabel⟩ := h.advances
  have hs' := hs.step hStep
  cases h with
  | arrive request => exact ⟨hx, trivial⟩
  | unauthorized => exact sound_refuse (by decide) (.inr (.inl rfl)) hx.1
  | @authenticate request apiKey t hKey _ =>
    cases hPrincipal : s.store.db.authenticatePrincipal (platform.digest apiKey) s.operators with
    | none => exact sound_refuse (by decide) (.inr (.inl rfl)) hx.1
    | some principal =>
      exact sound_afterAuthenticate (t := (s.wait t).store) (authenticated_of_principal hKey hPrincipal) hx.1
  | resolve => exact sound_afterResolve (t := (s.wait _).store) hx.2 hx.1
  | unresolved | failed => exact sound_unavailable hx.1
  | submit hServed =>
    obtain ⟨hNone, hCaller, hAuthorized, authorization, idempotencyKey, body, rfl, hPrepared⟩ := hx
    refine sound_served hServed hNone (.submit hCaller hPrepared hAuthorized) (fun r value hCommit hAnswer hOne => ?_)
      (fun err _ hNone => sound_afterSubmit_error err rfl hNone) rfl
    exact .submitted hOne (.submit hCaller hPrepared hAuthorized) (hCaller.mono hCommit.grows)
      fun _ => submit_holds hs hCommit hAnswer
  | get hID => exact sound_afterGet (t := (s.wait _).store) hs' hx.2 hID hx.1
  | @list request callerID delivery t _ =>
    obtain ⟨hNone, hSound⟩ := hx
    obtain ⟨hCaller, ⟨authorization, id, rfl, hID⟩, hBelongs, hAccounts⟩ := hSound
    refine .shown hNone hCaller hID hBelongs (listed_of_list (t := (s.wait t).store) hs' hBelongs fun hKept => ?_)
    exact hAccounts hKept.tail
  | replay hID hServed =>
    obtain ⟨hNone, hCaller, authorization, id, raw, hRequest, hReason⟩ := hx
    cases hRequest
    exact sound_served hServed hNone (.replay hCaller hID hReason)
      (fun r value _ _ hOne => .replayed hOne (.replay hCaller hID hReason))
      (fun err _ hNone => sound_afterReplay_error err rfl hNone) rfl

theorem Run.sound (h : Run platform history w) (i : Nat) : (w.procs i).Sound platform i history w.shared.store := by
  obtain ⟨t, hRun⟩ := h
  refine (Interleaving.invariant (G := fun _ _ => True) (L := fun i history s x => x.Sound platform i history s.store)
    trivial (fun _ => rfl) ?_ ?_ hRun).2 i
  · intro history w label s hRun _ hEnv
    refine ⟨trivial, fun i x hx => ?_⟩
    obtain ⟨action, hStep, rfl⟩ := hEnv.advances
    exact hx.step (Run.reachable ⟨t, hRun⟩) hStep (by simp)
  · intro i history w label s x hRun _ hx hAct
    have hs := Run.reachable ⟨t, hRun⟩
    refine ⟨trivial, hAct.sound hs hx, fun j y hj hy => ?_⟩
    obtain ⟨action, hStep, rfl⟩ := hAct.advances
    exact hy.step hs hStep fun hSame => hj (Option.some.inj hSame).symm

/-! ## Operators -/

section Operators

variable {request : Request}

/-- What a request can be after its next step, with what it has read in this step. -/
inductive Outcome (platform : Platform) (s : Shared) (request : Request) : Stage → Handler → Prop
  | refused {stage : Stage} (err : HttpError) : Outcome platform s request stage (refuse request err)
  | failed {stage : Stage} : Outcome platform s request stage (.answered request unavailable)
  | full {stage : Stage} : Outcome platform s request stage (.answered request backlogFull)
  | accepted {stage : Stage} (delivery : Delivery) :
      Outcome platform s request stage (.answered request (accepted delivery))
  | resolving (callerID : String) : Outcome platform s request .authenticating (.working request (.resolving callerID))
  | submitting {callerID : String} (submission : Submission) :
      Outcome platform s request (.resolving callerID) (.working request (.submitting submission))
  | getting (callerID : String) : Outcome platform s request .authenticating (.working request (.getting callerID))
  | listing {authorization id callerID : String} {deliveryID : UUID} {row : DeliveryRow}
      (hRequest : request = .get authorization id) (hID : platform.parseUUID id = some deliveryID)
      (hRow : s.store.db.get callerID deliveryID = some row) :
      Outcome platform s request (.getting callerID) (.working request (.listing callerID row.load))
  | found {callerID : String} {delivery : Delivery} :
      Outcome platform s request (.listing callerID delivery) (.answered request
        (found delivery (s.store.db.listAttemptSummaries callerID delivery.id statusAttemptLimit)))
  | replaying {apiKey operatorID reason : String} (hKey : bearer request.authorization = some apiKey)
      (hOperator : s.store.db.authenticatePrincipal (platform.digest apiKey) s.operators = some ⟨operatorID, true⟩) :
      Outcome platform s request .authenticating (.working request (.replaying operatorID reason))

theorem outcome_afterAuthenticate {apiKey : String} (hKey : bearer request.authorization = some apiKey) :
    Outcome platform s request .authenticating
      (afterAuthenticate request (s.store.db.authenticatePrincipal (platform.digest apiKey) s.operators)) := by
  cases hPrincipal : s.store.db.authenticatePrincipal (platform.digest apiKey) s.operators with
  | none => exact .refused _
  | some principal =>
    obtain ⟨callerID, isOperator⟩ := principal
    cases request with
    | submit => exact .resolving _
    | get => exact .getting _
    | replay authorization id body =>
      cases isOperator with
      | false => exact .refused _
      | true =>
        cases body with
        | none => exact .refused _
        | some raw =>
          simp only [afterAuthenticate, Bool.not_true, Bool.false_eq_true, if_false]
          split
          · exact .refused _
          · exact .replaying hKey hPrincipal

theorem outcome_afterReply {stage : Stage} {after : Except StoreError Delivery → Handler}
    (hAfter : after = afterSubmit request ∨ after = afterReplay request) (reply : Except StoreError Delivery) :
    Outcome platform s request stage (after reply) := by
  rcases hAfter with rfl | rfl
  · unfold afterSubmit
    split
    · exact .refused _
    · exact .full
    · exact .failed
    · exact .accepted _
  · unfold afterReplay
    split
    · exact .refused _
    · exact .refused _
    · exact .failed
    · exact .accepted _

theorem Act.outcome {stage : Stage} (h : Act platform i s (.working request stage) label s' x') :
    Outcome platform s request stage x' := by
  cases h with
  | unauthorized => exact .refused _
  | authenticate hKey => exact outcome_afterAuthenticate hKey
  | resolve =>
    unfold afterResolve
    split
    · exact .refused _
    · exact .submitting _
  | unresolved | failed => exact .failed
  | submit => exact outcome_afterReply (.inl rfl) _
  | get hID =>
    unfold afterGet
    split
    · exact .refused _
    · rename_i hRow
      exact .listing rfl hID hRow
  | list => exact .found
  | replay => exact outcome_afterReply (.inr rfl) _

theorem Act.request_eq {stage : Stage} (h : Act platform i s (.working request stage) label s' x') :
    x'.request = some request := by
  cases h.outcome <;> rfl

/-- A request gets to its replay only by way of the check. -/
theorem Act.checked {operatorID reason : String}
    (h : Act platform i s x label s' (.working request (.replaying operatorID reason))) :
    x = .working request .authenticating ∧ ∃ apiKey, bearer request.authorization = some apiKey ∧
      s.store.db.authenticatePrincipal (platform.digest apiKey) s.operators = some ⟨operatorID, true⟩ := by
  cases x with
  | idle | answered => cases h
  | working asked stage =>
    cases h.outcome with
    | replaying hKey hOperator => exact ⟨rfl, _, hKey, hOperator⟩

/-- The step by which request `i` is authenticated while its caller is an operator. -/
structure Vetted (platform : Platform) (i : Nat) (request : Request) (operatorID : String) (before after : World) :
    Prop where
  asked : before.procs i = .working request .authenticating
  passed : ∃ reason, after.procs i = .working request (.replaying operatorID reason)
  operator : ∃ apiKey, bearer request.authorization = some apiKey ∧
    before.shared.store.db.authenticatePrincipal (platform.digest apiKey) before.shared.operators =
      some ⟨operatorID, true⟩

/-- In whose name the operation replays. -/
def operatorOf : Op → Option String
  | .replay _ _ operatorID _ _ _ _ => some operatorID
  | _ => none

/-- The request is about to replay, or has. -/
def Replays (i : Nat) (request : Request) (operatorID : String) (history : List Label) (x : Handler) : Prop :=
  (∃ reason, x = .working request (.replaying operatorID reason)) ∨
    x.request = some request ∧ ∃ commit ∈ commits i history, operatorOf commit.1 = some operatorID

theorem commit_of_served {β : Type} {s t : Store} {op : Op} {answer : Readings → Except StoreError β}
    {reply : Except StoreError β} {action : Store.Action} {commit : Op × Database}
    (hServed : Served s op answer reply action t) (hNone : commits i history = [])
    (hCommit : commit ∈ commits i (.of (some i) s.db t.db action :: history)) : commit.1 = op := by
  rcases hServed.action.2 with rfl | ⟨r, rfl⟩
  · change commit ∈ commits i history at hCommit
    rw [hNone] at hCommit
    cases hCommit
  · rw [Label.of, commits_own, hNone, List.mem_singleton] at hCommit
    rw [hCommit]

theorem Replays.other {operatorID : String} {actor : Option Nat} {action : Store.Action}
    (h : Replays i request operatorID (.of actor db db' action :: history) x) (hActor : actor ≠ some i) :
    Replays i request operatorID history x := by
  rwa [Replays, commits_of_other hActor] at h

theorem Replays.own {operatorID : String} (h : Replays i request operatorID (label :: history) x')
    (hAct : Act platform i s x label s' x') (hSound : x.Sound platform i history s.store) :
    Replays i request operatorID history x ∨ ∃ reason, x' = .working request (.replaying operatorID reason) := by
  rcases h with hStage | ⟨hRequest, commit, hCommit, hOperator⟩
  · exact .inr hStage
  have hKnown {asked : Request} {stage : Stage} (hx : x = .working asked stage) :
      asked = request ∧ commits i history = [] := by
    subst hx
    exact ⟨Option.some.inj (hAct.request_eq.symm.trans hRequest), hSound.1⟩
  have hOld (hSame : commits i (label :: history) = []) : False := by
    rw [hSame] at hCommit
    cases hCommit
  cases hAct with
  | arrive => exact (hOld hSound).elim
  | unauthorized | authenticate | resolve | unresolved | get | list | failed => exact (hOld (hKnown rfl).2).elim
  | submit hServed =>
    rw [commit_of_served hServed (hKnown rfl).2 hCommit] at hOperator
    cases hOperator
  | @replay authorization id _ reason _ _ _ _ _ _ _ _ _ _ hServed =>
    obtain ⟨rfl, hNone⟩ := hKnown rfl
    rw [commit_of_served hServed hNone hCommit] at hOperator
    cases hOperator
    exact .inl (.inl ⟨reason, rfl⟩)

/-- One of the steps of the run is a step with `R`. -/
def Took (platform : Platform) (history : List Label) (w : World) (R : World → World → Prop) : Prop :=
  ∃ t, Takes (Step platform) (start t) history w R

theorem Run.vetted {operatorID : String} (h : Run platform history w)
    (hReplays : Replays i request operatorID history (w.procs i)) :
    Took platform history w (Vetted platform i request operatorID) := by
  obtain ⟨t, hRun⟩ := h
  refine ⟨t, takes_of_enters (Q := Replays i request operatorID) ?_ ?_ ?_ ?_ hRun hReplays⟩
  · rintro (⟨reason, hStage⟩ | ⟨hRequest, _⟩)
    · cases hStage
    · cases hRequest
  · intro history w label s hEnv hQ
    obtain ⟨action, _, rfl⟩ := hEnv.advances
    exact hQ.other (by simp)
  · intro j history w label s x hj hAct hQ
    obtain ⟨action, _, rfl⟩ := hAct.advances
    exact hQ.other fun hSame => hj (Option.some.inj hSame)
  · intro history w label s x hBefore hAct hQ
    refine (hQ.own hAct (Run.sound ⟨t, hBefore⟩ i)).imp_right ?_
    rintro ⟨reason, rfl⟩
    obtain ⟨hAsked, hOperator⟩ := hAct.checked
    exact ⟨hAsked, ⟨reason, Function.update_self ..⟩, hOperator⟩

end Operators

/-- The delivery that an accepting answer names. -/
theorem id_of_accepted {delivery delivery' : Delivery} (h : accepted delivery = accepted delivery') :
    delivery.id = delivery'.id :=
  uuidText_injective (congrArg DeliveryResponse.id (Payload.delivery.inj (congrArg Reply.payload h)).1)

/-- What a request may commit: what it asks for, and a replay only if its caller was an operator when the request
was authenticated. -/
structure Entitled (platform : Platform) (i : Nat) (history : List Label) (w : World) (request : Request)
    (commit : Op × Database) : Prop where
  asks : Asks platform request commit
  operator : ∀ operatorID, operatorOf commit.1 = some operatorID →
    Took platform history w (Vetted platform i request operatorID)

/-- A request commits at most once, and only what it asks for and may have. It is answered with 202 only if it has
committed, and with anything but 202 or `service_unavailable` only if it has not. -/
theorem answer_tells_commit {request : Request} {reply : Reply} (h : Run platform history w)
    (hAnswered : w.procs i = .answered request reply) :
    (commits i history).length ≤ 1 ∧ (∀ commit ∈ commits i history, Entitled platform i history w request commit) ∧
      (reply.status = 202 → commits i history ≠ []) ∧
      (reply.status ≠ 202 → reply ≠ unavailable → commits i history = []) := by
  have hEntitled (hAsked : ∀ commit ∈ commits i history, Asks platform request commit) :
      ∀ commit ∈ commits i history, Entitled platform i history w request commit := by
    refine fun commit hCommit => ⟨hAsked commit hCommit, fun operatorID hOperator => h.vetted ?_⟩
    rw [hAnswered]
    exact .inr ⟨rfl, commit, hCommit, hOperator⟩
  have hAnswer := h.sound i
  rw [hAnswered] at hAnswer
  cases hAnswer with
  | refused hStatus _ hNone => simp [hNone, hStatus.1]
  | failed hFew hAsked =>
    exact ⟨hFew, hEntitled hAsked, fun hStatus => absurd hStatus (by decide), fun _ hReply => absurd rfl hReply⟩
  | submitted hOne hAsked =>
    have hOwn := hEntitled (hOne ▸ List.forall_mem_singleton.mpr hAsked)
    simpa [hOne, accepted] using hOwn
  | replayed hOne hAsked =>
    have hOwn := hEntitled (hOne ▸ List.forall_mem_singleton.mpr hAsked)
    simpa [hOne, accepted] using hOwn
  | shown hNone => simp [hNone, found]

/-- An operator replays a delivery that has failed for good. -/
theorem answer_tells_commit_replayed :
    ∃ (history : List Label) (w : World), Run Sample.apiPlatform history w ∧
      w.procs 1 = .answered Sample.replayRequest (accepted Sample.replayed) ∧ commits 1 history ≠ [] ∧
      ∀ commit ∈ commits 1 history, Entitled Sample.apiPlatform 1 history w Sample.replayRequest commit := by
  have hPlay : (LabelledRun.play (execute Sample.apiPlatform) [] (start 0) Sample.replayedScript).any (fun run =>
      run.2.procs 1 = .answered Sample.replayRequest (accepted Sample.replayed)) = true := by
    decide +kernel
  obtain ⟨⟨history, w⟩, hRun, hAnswered⟩ := (Option.any_eq_true _ _).mp hPlay
  have hAnswered := of_decide_eq_true hAnswered
  have h := run_of_play hRun
  obtain ⟨_, hEntitled, hCommitted, _⟩ := answer_tells_commit h hAnswered
  exact ⟨history, w, h, hAnswered, hCommitted rfl, hEntitled⟩

/-- All that request `i` committed is the submission. -/
def Submitted (platform : Platform) (i : Nat) (history : List Label) (submission : Submission) : Prop :=
  ∃ deliveryID outboxID traceID before,
    commits i history = [(.submit platform.backlogLimit submission deliveryID outboxID traceID, before)]

theorem Answer.of_accepted {s : Store} {authorization idempotencyKey : String} {body : Except DecodeError Input}
    {delivery : Delivery}
    (h : Answer platform i history s (.submit authorization idempotencyKey body) (accepted delivery)) :
    ∃ submission, Submitted platform i history submission ∧ Prepared platform idempotencyKey body submission ∧
      Authenticated platform s.db authorization submission.callerID ∧
      (Unremoved delivery.id history → Holds s.db submission delivery.id) := by
  generalize hReply : accepted delivery = reply at h
  cases h with
  | refused hStatus => exact absurd (congrArg Reply.status hReply.symm) hStatus.1
  | failed =>
    have hStatus : 202 = 503 := congrArg Reply.status hReply
    omega
  | @submitted _ _ _ _ submission deliveryID outboxID traceID before hOne hAsked hCaller hHolds =>
    rw [id_of_accepted hReply]
    cases hAsked with
    | submit _ hPrepared _ =>
      exact ⟨submission, ⟨deliveryID, outboxID, traceID, before, hOne⟩, hPrepared, hCaller, hHolds⟩

/-- Two accepted submissions of one caller under one key name the same delivery and carry the same request hash,
as long as retention has removed neither. -/
theorem same_key_same_delivery {j : Nat} {authorization authorization' key key' : String}
    {body body' : Except DecodeError Input} {delivery delivery' : Delivery} (h : Run platform history w)
    (hFirst : w.procs i = .answered (.submit authorization key body) (accepted delivery))
    (hSecond : w.procs j = .answered (.submit authorization' key' body') (accepted delivery'))
    (hCaller : bearer authorization = bearer authorization') (hKey : trimmed key = trimmed key')
    (hKept : Unremoved delivery.id history) (hKept' : Unremoved delivery'.id history) :
    delivery.id = delivery'.id ∧ ∃ submission submission', Submitted platform i history submission ∧
      Submitted platform j history submission' ∧ submission.requestHash = submission'.requestHash := by
  have hDb := h.reachable.integrity
  have hAnswer := h.sound i
  have hAnswer' := h.sound j
  rw [hFirst] at hAnswer
  rw [hSecond] at hAnswer'
  obtain ⟨submission, hSubmitted, hPrepared, hOwner, hHolds⟩ := Answer.of_accepted hAnswer
  obtain ⟨submission', hSubmitted', hPrepared', hOwner', hHolds'⟩ := Answer.of_accepted hAnswer'
  obtain ⟨row, hRow, hRowCaller, hRowKey, hHash⟩ := hHolds hKept
  obtain ⟨row', hRow', hRowCaller', hRowKey', hHash'⟩ := hHolds' hKept'
  obtain ⟨hMem, hID⟩ := hDb.dossier_row_iff.mp hRow
  obtain ⟨hMem', hID'⟩ := hDb.dossier_row_iff.mp hRow'
  have hCallerID : row.callerID = row'.callerID := by
    rw [hRowCaller, hRowCaller', hOwner.unique hOwner' hCaller]
  have hIdempotencyKey : row.idempotencyKey = row'.idempotencyKey := by
    rw [hRowKey, hRowKey', hPrepared.key, hPrepared'.key, hKey]
  obtain rfl : row = row' :=
    List.inj_on_of_nodup_map hDb.callerKeys hMem hMem' (Prod.ext hCallerID hIdempotencyKey)
  exact ⟨hID.symm.trans hID', submission, submission', hSubmitted, hSubmitted', hHash.symm.trans hHash'⟩

theorem same_key_same_delivery_repeated :
    ∃ (history : List Label) (w : World) (submission submission' : Submission), Run Sample.apiPlatform history w ∧
      Submitted Sample.apiPlatform 0 history submission ∧ Submitted Sample.apiPlatform 1 history submission' ∧
      submission.requestHash = submission'.requestHash := by
  have hPlay : (LabelledRun.play (execute Sample.apiPlatform) [] (start 0) Sample.repeatedScript).any (fun run =>
      run.2.procs 0 = .answered (Sample.orderRequest "order-1") (accepted (Sample.submission.accepted 100)) &&
      run.2.procs 1 = .answered (Sample.orderRequest " order-1 ")
        (accepted (Sample.submission.row (.instant 4) 100).load) && Unremoved 100 run.1) = true := by
    decide +kernel
  obtain ⟨⟨history, w⟩, hRun, hFacts⟩ := (Option.any_eq_true _ _).mp hPlay
  simp only [Bool.and_eq_true, decide_eq_true_eq] at hFacts
  obtain ⟨⟨hFirst, hSecond⟩, hKept⟩ := hFacts
  have h := run_of_play hRun
  obtain ⟨_, submission, submission', hSame⟩ :=
    same_key_same_delivery h hFirst hSecond rfl (by decide +kernel) hKept hKept
  exact ⟨history, w, submission, submission', h, hSame⟩

/-- A delivery of another caller is answered for as one that does not exist. -/
theorem foreign_delivery_hidden {authorization id : String} {reply : Reply} {row : DeliveryRow}
    (h : Run platform history w) (hAnswered : w.procs i = .answered (.get authorization id) reply)
    (hRow : row ∈ w.shared.store.db.deliveries) (hID : platform.parseUUID id = some row.id)
    (hForeign : ¬Authenticated platform w.shared.store.db authorization row.callerID) :
    reply = .ofError unauthorized ∨ reply = .ofError notFound ∨ reply = unavailable := by
  have hAnswer := h.sound i
  rw [hAnswered] at hAnswer
  cases hAnswer with
  | refused _ hGet _ =>
    rcases hGet with hOther | hUnauthorized | hMissing
    · cases hOther
    · exact .inl hUnauthorized
    · exact .inr (.inl hMissing)
  | failed => exact .inr (.inr rfl)
  | @shown _ _ callerID delivery attempts _ hCaller hShown hBelongs _ =>
    obtain hSame : delivery.id = row.id := Option.some.inj (hShown.symm.trans hID)
    refine absurd ?_ hForeign
    rw [hBelongs.2 row (h.reachable.integrity.dossier_row_iff.mpr ⟨hRow, hSame.symm⟩)]
    exact hCaller

theorem foreign_delivery_hidden_stranger :
    ∃ (history : List Label) (w : World) (reply : Reply), Run Sample.apiPlatform history w ∧
      w.procs 2 = .answered (.get "Bearer other" (uuidText 100)) reply ∧
      (∃ row ∈ w.shared.store.db.deliveries, row.id = 100) ∧
      (reply = .ofError unauthorized ∨ reply = .ofError notFound ∨ reply = unavailable) := by
  have hPlay : (LabelledRun.play (execute Sample.apiPlatform) [] (start 0)
      (Sample.acceptedScript ++ (Sample.getScript 2 "Bearer other").take 3)).any (fun run =>
      run.2.procs 2 = .answered (.get "Bearer other" (uuidText 100)) (.ofError notFound) &&
      run.2.shared.store.db.deliveries.any fun row => row.id = 100 &&
        !decide (Authenticated Sample.apiPlatform run.2.shared.store.db "Bearer other" row.callerID)) = true := by
    decide +kernel
  obtain ⟨⟨history, w⟩, hRun, hFacts⟩ := (Option.any_eq_true _ _).mp hPlay
  obtain ⟨hAnswered, hRow⟩ := Bool.and_eq_true_iff.mp hFacts
  obtain ⟨row, hMem, hRow⟩ := List.any_eq_true.mp hRow
  simp only [Bool.and_eq_true, decide_eq_true_eq, Bool.not_eq_true', decide_eq_false_iff_not] at hRow hAnswered
  have h := run_of_play hRun
  exact ⟨history, w, _, h, hAnswered, ⟨row, hMem, hRow.1⟩, foreign_delivery_hidden h hAnswered hMem
    (by rw [hRow.1]; exact congrArg some (uuidNumber_uuidText 100)) hRow.2⟩

end Api

end ReliableNotifier
