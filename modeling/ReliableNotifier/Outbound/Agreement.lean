import ReliableNotifier.Api.Submit
import ReliableNotifier.Outbound.Headers
import ReliableNotifier.System.Requests

/-! # The API and the sender agree on what can be sent

What the API accepts under a destination version passes the checks that the sender makes
of the stored delivery under the same version, so only the headers that the destination
itself adds can be at fault.
-/

namespace ReliableNotifier

open Checked

namespace Outbound

variable {tables : CaseTables} {destination : DestinationVersion}

theorem containsAny_of_validHeaderName {name : String} (h : validHeaderName name = true) :
    containsAny name " \t\r\n:" = false := by
  rw [containsAny, List.any_eq_false]
  intro c hc hMem
  obtain ⟨hRange, hSeparator⟩ := (validHeaderName_iff.mp h).2 c hc
  have hCases : c = ' ' ∨ c = '\t' ∨ c = '\r' ∨ c = '\n' ∨ c = ':' := by simpa using hMem
  rcases hCases with rfl | rfl | rfl | rfl | rfl
  · exact absurd hRange.1 (by decide)
  · exact absurd hRange.1 (by decide)
  · exact absurd hRange.1 (by decide)
  · exact absurd hRange.1 (by decide)
  · exact hSeparator (by decide)

theorem containsAny_of_validHeaderValue {value : String} (h : validHeaderValue value = true) :
    containsAny value "\r\n" = false := by
  rw [containsAny, List.any_eq_false]
  intro c hc hMem
  have hLine := List.all_eq_true.mp h c hc
  have hCases : c = '\r' ∨ c = '\n' := by simpa using hMem
  rcases hCases with rfl | rfl
  · exact absurd hLine (by decide)
  · exact absurd hLine (by decide)

/-- A header that the API lets through under the destination version. -/
structure Admissible (tables : CaseTables) (destination : DestinationVersion) (entry : String × String) : Prop where
  name : validHeaderName entry.1 = true
  lower : tables.lower entry.1 = entry.1
  value : validHeaderValue entry.2 = true
  unprotected : (protectedHeaders tables destination).contains entry.1 = false
  allowed : (allowedHeaderNames tables destination).contains entry.1 = true

/-- Names that are their own canonical form cannot collide in the loop. -/
theorem validateEntries_ok {headers : List (String × String)} {seen : List String}
    (h : ∀ entry ∈ headers, Admissible tables destination entry) (hDistinct : (headers.map Prod.fst).Nodup)
    (hSeen : ∀ name ∈ seen, name ∉ headers.map Prod.fst) :
    validateEntries tables destination seen headers = .ok () := by
  induction headers generalizing seen with
  | nil => rfl
  | cons entry rest ih =>
    obtain ⟨name, value⟩ := entry
    obtain ⟨hName, hLower, hValue, hUnprotected, hAllowed⟩ := h (name, value) List.mem_cons_self
    obtain ⟨hFresh, hRest⟩ := List.nodup_cons.mp hDistinct
    have hCanonical : tables.lower (trimmed name) = name := by rw [trimmed_of_valid hName, hLower]
    have hUnseen : seen.contains name = false := by
      rw [List.contains_eq_mem, decide_eq_false_iff_not]
      exact fun hMem => hSeen name hMem List.mem_cons_self
    have hNext : validateEntries tables destination (name :: seen) rest = .ok () := by
      refine ih (fun entry hEntry => h entry (List.mem_cons_of_mem _ hEntry)) hRest ?_
      refine List.forall_mem_cons.mpr ⟨hFresh, fun other hOther hMem => ?_⟩
      exact hSeen other hOther (List.mem_cons_of_mem _ hMem)
    simp only [validateEntries, hCanonical, containsAny_of_validHeaderName hName,
      containsAny_of_validHeaderValue hValue, hUnseen, hUnprotected, hAllowed, bind_ok_iff, ensure_ok_iff]
    exact ⟨(), by simpa using (validHeaderName_iff.mp hName).1, (), by simp, (), by simp, (), trivial, hNext⟩

theorem nodup_names (headers : Headers) : (headers.entries.map Prod.fst).Nodup := by
  refine List.pairwise_map.mpr (headers.sorted.imp ?_)
  intro a b hLess hSame
  rw [hSame] at hLess
  exact String.lt_irrefl _ hLess

/-- The sender finds fault with admissible headers only through the names it adds itself. -/
theorem validateStoredHeaders_error_iff {headers : Headers} (order : RangeOrder)
    (h : ∀ entry ∈ headers.entries, Admissible tables destination entry) :
    (∃ message, validateStoredHeaders tables (order.range headers) destination = .error message) ↔
      validInjection tables destination = false := by
  have hEntries : validateEntries tables destination [] (order.range headers) = .ok () := by
    refine validateEntries_ok (fun entry hEntry => h entry ((order.perm headers).mem_iff.mp hEntry)) ?_
      fun _ hNone => (by cases hNone)
    exact ((order.perm headers).map Prod.fst).nodup_iff.mpr (nodup_names headers)
  constructor
  · rintro ⟨message, hError⟩
    rcases bind_error_iff.mp hError with hInjection | ⟨_, _, hRest⟩
    · exact (ensure_error_iff.mp hInjection).1
    · rw [hEntries] at hRest
      cases hRest
  · intro hInjection
    exact ⟨_, bind_error_iff.mpr (.inl (ensure_error_iff.mpr ⟨hInjection, rfl⟩))⟩

/-- No space folds to a letter of a method name. -/
theorem foldRune_of_isSpace {c : Char} (h : isSpace c = true) : foldRune c = c ∧ ¬(97 ≤ c.toNat ∧ c.toNat ≤ 122) := by
  simp only [isSpace, List.contains_eq_mem, List.mem_cons, List.not_mem_nil, or_false, Bool.or_eq_true,
    decide_eq_true_eq, Bool.and_eq_true] at h
  have hUpper : ¬(c.val ≥ 'A'.val ∧ c.val ≤ 'Z'.val) := by
    intro hRange
    have hLow : 65 ≤ c.toNat := UInt32.le_iff_toNat_le.mp hRange.1
    have hHigh : c.toNat ≤ 90 := UInt32.le_iff_toNat_le.mp hRange.2
    omega
  refine ⟨?_, by omega⟩
  rw [foldRune, if_neg (by omega), if_neg (by omega)]
  exact dif_neg hUpper

theorem not_isSpace_of_equalFold {method name : String} (h : equalFold method name = true)
    (hName : ((name.toList.map foldRune).all fun c => 97 ≤ c.toNat && c.toNat ≤ 122) = true) :
    ∀ c ∈ method.toList, isSpace c = false := by
  intro c hc
  by_contra hSpace
  obtain ⟨hFold, hLetter⟩ := foldRune_of_isSpace (Bool.of_not_eq_false hSpace)
  have hMem : foldRune c ∈ method.toList.map foldRune := List.mem_map_of_mem hc
  rw [of_decide_eq_true h, hFold] at hMem
  exact hLetter (by simpa using List.all_eq_true.mp hName c hMem)

theorem trimmed_of_supported {method : String} (h : isSupportedOutboundMethod method = true) :
    trimmed method = method := by
  refine trimmed_eq_self ?_
  simp only [isSupportedOutboundMethod, Bool.or_eq_true] at h
  rcases h with ((h | h) | h) | h
  · exact not_isSpace_of_equalFold h (by decide +kernel)
  · exact not_isSpace_of_equalFold h (by decide +kernel)
  · exact not_isSpace_of_equalFold h (by decide +kernel)
  · exact not_isSpace_of_equalFold h (by decide +kernel)

/-- The API has found the method and the headers fit for the destination version. -/
structure Sendable (tables : CaseTables) (destination : DestinationVersion) (method : String) (headers : Headers) :
    Prop where
  supported : isSupportedOutboundMethod method = true
  allowed : ReliableNotifier.containsFold tables destination.allowedMethods method = true
  headers : ∀ entry ∈ headers.entries, Admissible tables destination entry

theorem Sendable.containsFold {method : String} {headers : Headers} (h : Sendable tables destination method headers) :
    containsFold tables destination.allowedMethods method = true := by
  rw [Outbound.containsFold, trimmed_of_supported h.supported]
  exact h.allowed

theorem sendable_of_prepare {order : RangeOrder} {requestHash : HashInput → Except HeaderError Digest}
    {callerID : String} {authorized : String → Option DestinationVersion} {acceptedAt : GoTime}
    {request : SubmissionRequest} {submission : Submission}
    (h : request.prepare tables order requestHash callerID authorized acceptedAt = .ok submission) :
    ∃ destination, authorized request.destinationID = some destination ∧
      submission.destinationID = destination.destinationID ∧ submission.destinationVersion = destination.version ∧
      Sendable tables destination submission.method submission.callerHeaders := by
  obtain ⟨_, destination, hDestination, hID, hVersion, hSupported, hAllowed, hCanonical, hValid⟩ :=
    SubmissionRequest.prepare_ok h
  refine ⟨destination, hDestination, hID, hVersion, hSupported, hAllowed, fun entry hEntry => ?_⟩
  have hHeaders := canonicalCallerHeaders_canonical hCanonical
  have hChecked := forM_ok_iff.mp hValid entry ((order.perm _).mem_iff.mpr hEntry)
  simp only [bind_ok_iff, ensure_ok_iff, Bool.not_eq_true'] at hChecked
  obtain ⟨_, hUnprotected, hListed⟩ := hChecked
  exact ⟨hHeaders.name entry hEntry, hHeaders.lower entry hEntry, hHeaders.value entry hEntry, hUnprotected, hListed⟩

end Outbound

namespace Store

variable {tables : CaseTables} {s t : Store} {callerID destinationID : String} {destination : DestinationVersion}

theorem authorizedDestination_query {db : Database}
    (h : db.authorizedDestination callerID destinationID = some destination) :
    db.queryDestinationVersion destination.destinationID destination.version = .ok destination := by
  unfold Database.authorizedDestination at h
  split at h
  · obtain ⟨current, _, hVersion⟩ := Option.bind_eq_some_iff.mp h
    obtain ⟨row, hRow, rfl⟩ := Option.map_eq_some_iff.mp hVersion
    have hKey := List.find?_some hRow
    simp only [Bool.and_eq_true, decide_eq_true_eq] at hKey
    rw [← hKey.1, ← hKey.2] at hRow
    unfold Database.queryDestinationVersion
    split
    · rename_i found hFound
      rw [Option.some.inj (hRow.symm.trans hFound)]
    · rename_i hNone
      cases hRow.symm.trans hNone
  · cases h

theorem Later.queryDestinationVersion {version : Int} (h : s.Later t)
    (hQuery : s.db.queryDestinationVersion destinationID version = .ok destination) :
    t.db.queryDestinationVersion destinationID version = .ok destination := by
  obtain ⟨more, hMore⟩ := h.versions
  exact Database.queryDestinationVersion_append hMore hQuery

/-- The delivery can be sent under the destination version it is bound to. -/
def Fits (tables : CaseTables) (s : Store) (row : DeliveryRow) : Prop :=
  ∃ destination, s.db.queryDestinationVersion row.destinationID row.destinationVersion = .ok destination ∧
    Outbound.Sendable tables destination row.method row.callerHeaders

end Store

/-- `API.submit` read the destination in one state and commits what it made of the request in a later one. -/
def Submission.Requested (tables : CaseTables) (submission : Submission) (before : Database) : Prop :=
  ∃ (order : RangeOrder) (requestHash : HashInput → Except HeaderError Digest) (callerID : String)
    (acceptedAt : GoTime) (request : SubmissionRequest) (s t : Store),
    s.Reachable ∧ s.Later t ∧ t.db = before ∧
    request.prepare tables order requestHash callerID (fun id => s.db.authorizedDestination callerID id) acceptedAt =
      .ok submission

/-- Every submission that the history commits was requested through the API. -/
def Requested (tables : CaseTables) (history : List Label) : Prop :=
  ∀ actor r backlogLimit submission deliveryID outboxID traceID before,
    .commit actor r (.submit backlogLimit submission deliveryID outboxID traceID) before ∈ history →
      submission.Requested tables before

theorem Submission.Requested.fits {tables : CaseTables} {submission : Submission} {before : Database}
    (h : submission.Requested tables before) :
    ∃ destination,
      before.queryDestinationVersion submission.destinationID submission.destinationVersion = .ok destination ∧
      Outbound.Sendable tables destination submission.method submission.callerHeaders := by
  obtain ⟨order, requestHash, callerID, acceptedAt, request, s, t, _, hLater, rfl, hPrepare⟩ := h
  obtain ⟨destination, hDestination, hID, hVersion, hSendable⟩ := Outbound.sendable_of_prepare hPrepare
  rw [hID, hVersion]
  exact ⟨destination, hLater.queryDestinationVersion (Store.authorizedDestination_query hDestination), hSendable⟩

theorem Store.Step.fits {tables : CaseTables} {s t : Store} {action : Store.Action} (hs : s.Reachable)
    (hStep : Store.Step s action t)
    (hSubmit : ∀ r backlogLimit submission deliveryID outboxID traceID,
      action = .commit r (.submit backlogLimit submission deliveryID outboxID traceID) →
        submission.Requested tables s.db)
    (h : ∀ id row, (s.db.dossier id).row = some row → s.Fits tables row) :
    ∀ id row, (t.db.dossier id).row = some row → t.Fits tables row := by
  intro id row' hRow'
  obtain ⟨more, hMore⟩ := hStep.versions
  have hFit : s.Fits tables row' := by
    cases hStep.advance hs.integrity id with
    | stay _ _ hSame => exact h id row' (hSame ▸ hRow')
    | move _ _ _ _ _ hMove =>
      rcases hMove.row_cases hRow' with ⟨_, submission, _, _, _, rfl, rfl⟩ | ⟨row, hRow, hSame⟩
      · exact (hSubmit _ _ _ _ _ _ rfl).fits
      · have hRequest := DeliveryRow.sameRequest_of_identity hSame
        unfold Fits
        rw [hRequest.destinationID, hRequest.destinationVersion, hRequest.method, hRequest.callerHeaders]
        exact h id row hRow
  obtain ⟨destination, hQuery, hSendable⟩ := hFit
  exact ⟨destination, Database.queryDestinationVersion_append hMore hQuery, hSendable⟩

namespace System

variable {setting : Setting} {history : List Label} {w : System} {tables : CaseTables}

theorem Run.fits (h : Run setting history w) (hAPI : Requested tables history) :
    ∀ id row, (w.shared.store.db.dossier id).row = some row → w.shared.store.Fits tables row := by
  obtain ⟨t, hRun⟩ := h
  induction hRun with
  | refl => exact fun _ _ h => (by cases h)
  | @next history v u label hPrior hStep ih =>
    have hBefore : Run setting history v := ⟨t, hPrior⟩
    have hPast := ih fun _ _ _ _ _ _ _ _ hMem => hAPI _ _ _ _ _ _ _ _ (List.mem_cons_of_mem _ hMem)
    cases Step.advances hStep with
    | keep _ hStore => exact hStore.fits hBefore.reachable (fun _ _ _ _ _ _ hAction => by cases hAction) hPast
    | commit hStore =>
      refine hStore.fits hBefore.reachable (fun _ _ _ _ _ _ hAction => ?_) hPast
      cases hAction
      exact hAPI _ _ _ _ _ _ _ _ List.mem_cons_self

/-- Whatever the API accepted passes the sender's checks of the method, and of its headers the sender complains
exactly when the names that the destination adds are at fault themselves. -/
theorem api_and_sender_agree (h : Run setting history w) (hAPI : Requested tables history) :
    ∀ i task destination result err, .send i task destination result err ∈ history →
      isSupportedOutboundMethod task.method = true ∧
      Outbound.containsFold tables destination.allowedMethods task.method = true ∧
      ∀ order : RangeOrder,
        (∃ message, Outbound.validateStoredHeaders tables (order.range task.callerHeaders) destination =
          .error message) ↔
        (Outbound.validInjectedHeader tables destination.credentialHeader = false ∨
          Outbound.validInjectedHeader tables destination.idempotencyHeader = false ∨
          tables.equalFold destination.credentialHeader destination.idempotencyHeader = true) := by
  intro i task destination result err hSend
  obtain ⟨past, v, row, hPast, hSuffix, hRow, hCarries⟩ := h.grant_origin (h.granted.sent _ _ _ _ _ hSend)
  obtain ⟨bound, hQuery, hSendable⟩ :=
    hPast.fits (fun _ _ _ _ _ _ _ _ hMem => hAPI _ _ _ _ _ _ _ _ (hSuffix.subset hMem)) _ row hRow
  obtain rfl : destination = bound := Except.ok.inj (hCarries.destination.symm.trans hQuery)
  rw [← hCarries.method, ← hCarries.callerHeaders] at hSendable
  refine ⟨hSendable.supported, hSendable.containsFold, fun order => ?_⟩
  rw [Outbound.validateStoredHeaders_error_iff order hSendable.headers, Outbound.validInjection]
  simp only [Bool.and_eq_false_iff, Bool.not_eq_false', or_assoc]

end System

namespace Sample

def mapOrder : RangeOrder := ⟨Headers.entries, fun _ => .refl _⟩

def headerDestination : DestinationVersion := { destination with allowedHeaders := some ["X-Request-Id "] }

def request : SubmissionRequest where
  idempotencyKey := " order-1"
  destinationID := "orders"
  method := "post"
  headers := ⟨[("X-REQUEST-ID", " 7 ")], List.pairwise_singleton _ _⟩
  body := some []

def requested : Submission :=
  { submission with callerHeaders := ⟨[("x-request-id", "7")], List.pairwise_singleton _ _⟩ }

end Sample

namespace System

/-- The submission a label commits, with the tables it started from. -/
def submissionOf : Label → Option (Submission × Database)
  | .commit _ _ (.submit _ submission _ _ _) before => some (submission, before)
  | _ => none

/-- A request in another spelling is accepted, stored, claimed and sent. -/
theorem api_and_sender_agree_spelling :
    ∃ (history : List Label) (w : System) (i : Nat) (task : Delivery) (destination : DestinationVersion)
      (result : Result) (err : Option SendError), Run closedSetting history w ∧ Requested Sample.caseTables history ∧
      .send i task destination result err ∈ history ∧
      Outbound.containsFold Sample.caseTables destination.allowedMethods task.method = true := by
  have hPlay : ((Store.start 0).play [(1, .bootstrap 3 ⟨"shop", "key", Sample.headerDestination⟩)]).any (fun s =>
      ((start 0).play [] [.commit 1 (.bootstrap 3 ⟨"shop", "key", Sample.headerDestination⟩),
        .commit 5 (.submit 10 Sample.requested 100 101 102),
        .claimOutbox 0 6 "publisher" 30000000000 10 103, .publish 0, .mark 0 7, .receive 1 ⟨100, 0, 102⟩,
        .check 1 8, .observe 1 8, .acquire 1 true, .claim 1 8 "worker" 90000000000 104,
        .send 1 8000 9000 ⟨200, ""⟩ none]).any fun run =>
          run.1.any (Label.sends 100 0) && (run.1.all fun label => (submissionOf label).all fun pair =>
            pair = (Sample.requested, s.db)) &&
          (Sample.request.prepare Sample.caseTables Sample.mapOrder (fun _ => .ok 7) "shop"
            (fun id => s.db.authorizedDestination "shop" id) 5000).toOption = some Sample.requested) = true := by
    decide +kernel
  obtain ⟨s, hFirst, hPlay⟩ := (Option.any_eq_true _ _).mp hPlay
  obtain ⟨⟨history, w⟩, hRun, hFacts⟩ := (Option.any_eq_true _ _).mp hPlay
  simp only [Bool.and_eq_true] at hFacts
  obtain ⟨⟨hSent, hSubmissions⟩, hPrepare⟩ := hFacts
  have h : Run closedSetting history w := run_of_play ⟨0, .refl⟩ hRun
  have hs : s.Reachable := Store.reachable_of_play hFirst
  have hAPI : Requested Sample.caseTables history := by
    intro actor r backlogLimit submission deliveryID outboxID traceID before hMem
    have hPair := List.all_eq_true.mp hSubmissions _ hMem
    obtain ⟨rfl, rfl⟩ : submission = Sample.requested ∧ before = s.db := by simpa [submissionOf] using hPair
    exact ⟨Sample.mapOrder, fun _ => .ok 7, "shop", 5000, Sample.request, s, s, hs, .refl, rfl,
      toOption_eq_some_iff.mp (of_decide_eq_true hPrepare)⟩
  obtain ⟨i, task, destination, result, err, hSend, _⟩ := exists_send_of_any hSent
  exact ⟨history, w, i, task, destination, result, err, h, hAPI, hSend,
    (api_and_sender_agree h hAPI i task destination result err hSend).2.1⟩

end System

end ReliableNotifier
