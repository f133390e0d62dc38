import ReliableNotifier.Api.Canonical
import ReliableNotifier.Library.Transaction

/-! # Bootstrapping the registry, call by call

`Bootstrap` over Go strings as bytes and over a session with the server, any call of which can
fail or be served with its reply lost. What it does is all or nothing, and once a configuration
is stored exactly that configuration passes. Its error tells that nothing was done unless it is
that of a commit whose reply was lost. The tables it does not touch are a parameter.
-/

namespace ReliableNotifier.Raw

open Checked GoStrings RowTable Transaction

/-- The values of a `float64`, with one zero. -/
inductive Float64 where
  | nan
  | infinite (negative : Bool)
  | finite (value : Rat)
  deriving DecidableEq

/-- `==`, for which NaN is not equal to itself. -/
def Float64.equal (a b : Float64) : Bool := a = b && a ≠ .nan

/-- `> 0` on `numeric`, where NaN is above all numbers. -/
def Float64.positive : Float64 → Bool
  | nan => true
  | infinite negative => !negative
  | finite value => 0 < value

structure DestinationVersion where
  destinationID : Bytes
  version : Int
  url : Bytes
  networkPolicy : Bytes
  allowedMethods : Slice Bytes
  allowedHeaders : Slice Bytes
  secretRef : Bytes
  credentialHeader : Bytes
  idempotencyHeader : Bytes
  successStatuses : Slice Int
  retryStatuses : Slice Int
  connectTimeout : Duration
  requestTimeout : Duration
  ratePerSecond : Float64
  maxConcurrency : Int
  deriving DecidableEq

structure BootstrapConfig where
  callerID : Bytes
  callerAPIKey : Bytes
  destination : DestinationVersion
  deriving DecidableEq

structure CallerRow where
  id : Bytes
  apiKeyHash : Bytes
  isOperator : Bool
  deriving DecidableEq

structure DestinationRow where
  id : Bytes
  currentVersion : Int
  deriving DecidableEq

structure DestinationVersionRow where
  destinationID : Bytes
  version : Int
  url : Bytes
  networkPolicy : Bytes
  allowedMethods : List Bytes
  allowedHeaders : List Bytes
  secretRef : Bytes
  credentialHeader : Bytes
  idempotencyHeader : Bytes
  successStatuses : List Int
  retryStatuses : List Int
  connectTimeoutMS : Int
  requestTimeoutMS : Int
  ratePerSecond : Float64
  maxConcurrency : Int
  deriving DecidableEq

/-- The tables of callers and destinations, and the others. -/
structure Registry (γ : Type) where
  callers : List CallerRow
  destinations : List DestinationRow
  destinationVersions : List DestinationVersionRow
  callerDestinations : List (Bytes × Bytes)
  others : γ
  deriving DecidableEq

inductive SqlError where
  | invalidText | nullValue | outOfRange | checkViolation | uniqueViolation | foreignKeyViolation | noRows
  | transactionAborted | connectionLost
  deriving DecidableEq, Repr

/-- The calls of `Bootstrap`, by the text that wraps their errors. -/
inductive BootstrapCall where
  | begin | caller | verifyCaller | destination | destinationVersion | verifyDestinationVersion
  | destinationAuthorization | commit
  deriving DecidableEq, Repr

inductive BootstrapError where
  | incomplete
  | unsupportedMethod (method : Bytes)
  | callerConflict
  | destinationVersionConflict
  | failed (call : BootstrapCall) (err : SqlError)
  deriving DecidableEq, Repr

/-- `strings.EqualFold`, as far as the method names go. -/
def equalFold (a b : Bytes) : Bool :=
  (runes 0 a).map (fun rune => foldRune (.ofNat (runeValue rune))) =
    (runes 0 b).map fun rune => foldRune (.ofNat (runeValue rune))

def isSupportedOutboundMethod (method : Bytes) : Bool :=
  equalFold method (encode "POST") || equalFold method (encode "PUT") || equalFold method (encode "PATCH") ||
    equalFold method (encode "DELETE")

/-- A value of a `text` column: UTF-8 without the byte 0. -/
def isText (s : Bytes) : Bool := validString s && s.all (· ≠ 0)

/-- `reflect.DeepEqual`. -/
def deepEqual (a b : DestinationVersion) : Bool :=
  a.ratePerSecond.equal b.ratePerSecond && { a with ratePerSecond := b.ratePerSecond } = b

namespace DestinationVersion

def texts (config : DestinationVersion) : List Bytes :=
  [config.destinationID, config.url, config.networkPolicy, config.secretRef, config.credentialHeader,
    config.idempotencyHeader] ++ elements config.allowedMethods ++ elements config.allowedHeaders

/-- The values of the insert. A nil slice is a NULL, and all the columns are `NOT NULL`. -/
def row (config : DestinationVersion) : Except SqlError DestinationVersionRow :=
  match config.allowedMethods, config.allowedHeaders, config.successStatuses, config.retryStatuses with
  | some allowedMethods, some allowedHeaders, some successStatuses, some retryStatuses =>
    .ok {
      destinationID := config.destinationID
      version := config.version
      url := config.url
      networkPolicy := config.networkPolicy
      allowedMethods := allowedMethods
      allowedHeaders := allowedHeaders
      secretRef := config.secretRef
      credentialHeader := config.credentialHeader
      idempotencyHeader := config.idempotencyHeader
      successStatuses := successStatuses
      retryStatuses := retryStatuses
      connectTimeoutMS := config.connectTimeout.tdiv 1000000
      requestTimeoutMS := config.requestTimeout.tdiv 1000000
      ratePerSecond := config.ratePerSecond
      maxConcurrency := config.maxConcurrency }
  | _, _, _, _ => .error .nullValue

end DestinationVersion

namespace DestinationVersionRow

def load (row : DestinationVersionRow) : DestinationVersion where
  destinationID := row.destinationID
  version := row.version
  url := row.url
  networkPolicy := row.networkPolicy
  allowedMethods := some row.allowedMethods
  allowedHeaders := some row.allowedHeaders
  secretRef := row.secretRef
  credentialHeader := row.credentialHeader
  idempotencyHeader := row.idempotencyHeader
  successStatuses := some row.successStatuses
  retryStatuses := some row.retryStatuses
  connectTimeout := row.connectTimeoutMS * 1000000
  requestTimeout := row.requestTimeoutMS * 1000000
  ratePerSecond := row.ratePerSecond
  maxConcurrency := row.maxConcurrency

/-- The `integer` columns hold 32 bits. -/
def inRange (row : DestinationVersionRow) : Bool :=
  [row.connectTimeoutMS, row.requestTimeoutMS, row.maxConcurrency].all fun n => -2 ^ 31 ≤ n && n < 2 ^ 31

def satisfiesChecks (row : DestinationVersionRow) : Bool :=
  0 < row.version && 0 < row.connectTimeoutMS && 0 < row.requestTimeoutMS && row.requestTimeoutMS ≤ 60000 &&
    row.ratePerSecond.positive && 0 < row.maxConcurrency

end DestinationVersionRow

namespace Registry

variable {γ : Type}

/-- `INSERT INTO callers ... ON CONFLICT (id) DO NOTHING`. -/
def insertCaller (callerID apiKeyHash : Bytes) (t : Registry γ) : Except SqlError (Registry γ) := do
  ensure (isText callerID) .invalidText
  if t.callers.any fun caller => caller.id = callerID then return t
  ensure (t.callers.all fun caller => caller.apiKeyHash ≠ apiKeyHash) .uniqueViolation
  return { t with callers := t.callers ++ [⟨callerID, apiKeyHash, false⟩] }

def caller (callerID : Bytes) (t : Registry γ) : Option CallerRow :=
  t.callers.find? fun caller => caller.id = callerID

/-- `SELECT api_key_hash = $2 FROM callers WHERE id = $1`. -/
def callerMatches (callerID apiKeyHash : Bytes) (t : Registry γ) : Except SqlError Bool :=
  match t.caller callerID with
  | some caller => .ok (caller.apiKeyHash = apiKeyHash)
  | none => .error .noRows

/-- `INSERT INTO destinations ... ON CONFLICT (id) DO UPDATE SET current_version`. -/
def setCurrentVersion (destinationID : Bytes) (version : Int) (t : Registry γ) : Except SqlError (Registry γ) := do
  ensure (isText destinationID) .invalidText
  ensure (0 < version) .checkViolation
  if t.destinations.any fun destination => destination.id = destinationID then
    return { t with
      destinations := updateWhere (fun destination => destination.id = destinationID)
        (fun destination => { destination with currentVersion := version }) t.destinations }
  return { t with destinations := t.destinations ++ [⟨destinationID, version⟩] }

def destinationVersion (destinationID : Bytes) (version : Int) (t : Registry γ) : Option DestinationVersionRow :=
  t.destinationVersions.find? fun row => row.destinationID = destinationID && row.version = version

/-- `INSERT INTO destination_versions ... ON CONFLICT (destination_id, version) DO NOTHING`. The row is
checked before the conflict is looked for. -/
def insertDestinationVersion (config : DestinationVersion) (t : Registry γ) : Except SqlError (Registry γ) := do
  ensure (config.texts.all isText) .invalidText
  let row ← config.row
  ensure row.inRange .outOfRange
  ensure row.satisfiesChecks .checkViolation
  if (t.destinationVersion row.destinationID row.version).isSome then return t
  ensure (t.destinations.any fun destination => destination.id = row.destinationID) .foreignKeyViolation
  return { t with destinationVersions := t.destinationVersions ++ [row] }

def queryDestinationVersion (destinationID : Bytes) (version : Int) (t : Registry γ) :
    Except SqlError DestinationVersion :=
  match t.destinationVersion destinationID version with
  | some row => .ok row.load
  | none => .error .noRows

/-- `INSERT INTO caller_destinations ... ON CONFLICT DO NOTHING`. -/
def authorize (callerID destinationID : Bytes) (t : Registry γ) : Except SqlError (Registry γ) := do
  if t.callerDestinations.any fun pair => pair = (callerID, destinationID) then return t
  ensure (t.callers.any fun caller => caller.id = callerID) .foreignKeyViolation
  ensure (t.destinations.any fun destination => destination.id = destinationID) .foreignKeyViolation
  return { t with callerDestinations := t.callerDestinations ++ [(callerID, destinationID)] }

/-- `destinations_current_version_fk`, which is deferred to the commit. -/
def currentVersionReference (destinationID : Bytes) (t : Registry γ) : Except SqlError Unit :=
  ensure (t.destinations.all fun destination => destination.id ≠ destinationID ||
    (t.destinationVersion destinationID destination.currentVersion).isSome) .foreignKeyViolation

end Registry

section Program

variable {γ : Type}

open Client BootstrapError

def bootstrapStatements (server : Server SqlError) (sha256 : Bytes → Bytes) (config : BootstrapConfig) :
    Client BootstrapError (Registry γ) Unit := do
  let apiKeyHash := sha256 config.callerAPIKey
  wrap (failed .caller) (exec server (Registry.insertCaller config.callerID apiKeyHash))
  let callerMatches ← wrap (failed .verifyCaller) (query server (Registry.callerMatches config.callerID apiKeyHash))
  check callerMatches callerConflict
  wrap (failed .destination)
    (exec server (Registry.setCurrentVersion config.destination.destinationID config.destination.version))
  wrap (failed .destinationVersion) (exec server (Registry.insertDestinationVersion config.destination))
  let existingDestination ← wrap (failed .verifyDestinationVersion)
    (query server (Registry.queryDestinationVersion config.destination.destinationID config.destination.version))
  check (deepEqual existingDestination config.destination) destinationVersionConflict
  wrap (failed .destinationAuthorization)
    (exec server (Registry.authorize config.callerID config.destination.destinationID))
  wrap (failed .commit) (commit server (Registry.currentVersionReference config.destination.destinationID))
  return ()

def bootstrap (server : Server SqlError) (sha256 : Bytes → Bytes) (config : BootstrapConfig) :
    Client BootstrapError (Registry γ) Unit :=
  if config.callerID = [] || config.callerAPIKey = [] || config.destination.destinationID = [] ||
      config.destination.version ≤ 0 then fail incomplete
  else
    match (elements config.destination.allowedMethods).find? fun method => !isSupportedOutboundMethod method with
    | some method => fail (unsupportedMethod method)
    | none =>
      transaction server (failed .begin) (bootstrapStatements server sha256 config)

end Program

/-- The statements of `Bootstrap` as one function on the tables. -/
def register {γ : Type} (apiKeyHash : Bytes) (config : BootstrapConfig) (t : Registry γ) :
    Except BootstrapError (Registry γ) := do
  let t ← (t.insertCaller config.callerID apiKeyHash).mapError (.failed .caller)
  let callerMatches ← (t.callerMatches config.callerID apiKeyHash).mapError (.failed .verifyCaller)
  ensure callerMatches .callerConflict
  let t ← (t.setCurrentVersion config.destination.destinationID config.destination.version).mapError
    (.failed .destination)
  let t ← (t.insertDestinationVersion config.destination).mapError (.failed .destinationVersion)
  let existingDestination ←
    (t.queryDestinationVersion config.destination.destinationID config.destination.version).mapError
      (.failed .verifyDestinationVersion)
  ensure (deepEqual existingDestination config.destination) .destinationVersionConflict
  (t.authorize config.callerID config.destination.destinationID).mapError (.failed .destinationAuthorization)

/-- The error of a commit whose reply was lost. -/
def CommitUnheard (server : Server SqlError) (err : BootstrapError) : Prop :=
  ∃ n cause, server.fate n = .unheard cause ∧ err = .failed .commit cause

theorem statements_commit {γ : Type} (server : Server SqlError) (sha256 : Bytes → Bytes) (config : BootstrapConfig) :
    Commits server (CommitUnheard server)
      (bootstrapStatements server sha256 config : Client BootstrapError (Registry γ) Unit)
      fun t => register (sha256 config.callerAPIKey) config t >>= fun next => (fun _ => ((), next)) <$>
        (next.currentVersionReference config.destination.destinationID).mapError (.failed .commit) := by
  unfold register bootstrapStatements
  simp only [bind_assoc]
  exact .exec_bind (.query_bind fun _ => .check_bind (.exec_bind (.exec_bind (.query_bind fun _ =>
    .check_bind (.exec_bind (.commit _ () fun n cause hFate => ⟨n, cause, hFate, rfl⟩))))))

/-! ## The statements on the tables -/

namespace Registry

variable {γ : Type} {t t' : Registry γ} {callerID apiKeyHash destinationID : Bytes} {version : Int}
  {config : DestinationVersion}

/-- Callers and versions are only ever added, and the other tables stay. -/
structure Extends (t t' : Registry γ) : Prop where
  callers : t.callers <+: t'.callers
  destinationVersions : t.destinationVersions <+: t'.destinationVersions
  others : t'.others = t.others

theorem Extends.refl (t : Registry γ) : t.Extends t := ⟨List.prefix_rfl, List.prefix_rfl, rfl⟩

theorem Extends.trans {t'' : Registry γ} (h : t.Extends t') (h' : t'.Extends t'') : t.Extends t'' :=
  ⟨h.callers.trans h'.callers, h.destinationVersions.trans h'.destinationVersions, h'.others.trans h.others⟩

theorem Extends.caller {row : CallerRow} (h : t.Extends t') (hRow : t.caller callerID = some row) :
    t'.caller callerID = some row := h.callers.find?_eq_some hRow

theorem Extends.destinationVersion {row : DestinationVersionRow} (h : t.Extends t')
    (hRow : t.destinationVersion destinationID version = some row) :
    t'.destinationVersion destinationID version = some row := h.destinationVersions.find?_eq_some hRow

theorem any_of_caller {row : CallerRow} (h : t.caller callerID = some row) :
    (t.callers.any fun caller => caller.id = callerID) = true :=
  List.any_eq_true.mpr ⟨row, List.mem_of_find?_eq_some h, by simpa using List.find?_some h⟩

theorem insertCaller_ok (h : t.insertCaller callerID apiKeyHash = .ok t') :
    isText callerID = true ∧ ∃ callers, t.callers <+: callers ∧ t' = { t with callers } := by
  simp only [insertCaller, bind_ok_iff, ensure_ok_iff] at h
  obtain ⟨_, hText, h⟩ := h
  refine ⟨hText, ?_⟩
  split at h
  · cases h
    exact ⟨_, List.prefix_rfl, rfl⟩
  · simp only [bind_ok_iff, pure_ok_iff] at h
    obtain ⟨_, _, rfl⟩ := h
    exact ⟨_, List.prefix_append _ _, rfl⟩

theorem callerMatches_ok (h : t.callerMatches callerID apiKeyHash = .ok true) :
    ∃ row, t.caller callerID = some row ∧ row.apiKeyHash = apiKeyHash := by
  unfold callerMatches at h
  split at h
  · rename_i row hRow
    exact ⟨row, hRow, of_decide_eq_true (Except.ok.inj h)⟩
  · cases h

/-- The destination is there, with the given version as its current one. -/
def Current (destinationID : Bytes) (version : Int) (destinations : List DestinationRow) : Prop :=
  (∃ destination ∈ destinations, destination.id = destinationID) ∧
    ∀ destination ∈ destinations, destination.id = destinationID → destination.currentVersion = version

theorem setCurrentVersion_ok (h : t.setCurrentVersion destinationID version = .ok t') :
    ∃ destinations, Current destinationID version destinations ∧ t' = { t with destinations } := by
  simp only [setCurrentVersion, bind_ok_iff] at h
  obtain ⟨_, _, _, _, h⟩ := h
  split at h
  · rename_i hAny
    cases h
    obtain ⟨destination, hMem, hID⟩ := List.any_eq_true.mp hAny
    refine ⟨_, ⟨⟨{ destination with currentVersion := version }, ?_, of_decide_eq_true hID⟩, ?_⟩, rfl⟩
    · exact mem_updateWhere.mpr ⟨destination, hMem, if_pos hID⟩
    · intro other hOther hSame
      obtain ⟨old, _, rfl⟩ := mem_updateWhere.mp hOther
      split
      · rfl
      · rename_i hNot
        rw [if_neg hNot] at hSame
        exact absurd (decide_eq_true hSame) hNot
  · rename_i hNone
    cases h
    refine ⟨_, ⟨⟨_, List.mem_append_right _ (List.mem_singleton_self _), rfl⟩, fun other hOther hSame => ?_⟩, rfl⟩
    rcases List.mem_append.mp hOther with hOld | hNew
    · exact absurd (List.any_eq_true.mpr ⟨other, hOld, decide_eq_true hSame⟩) hNone
    · rw [List.mem_singleton.mp hNew]

end Registry

namespace DestinationVersion

/-- What the insert asks of a version whatever is in the tables. -/
structure Storable (config : DestinationVersion) : Prop where
  texts : config.texts.all isText = true
  row : ∃ row, config.row = .ok row ∧ row.inRange = true ∧ row.satisfiesChecks = true

theorem key_of_row {config : DestinationVersion} {row : DestinationVersionRow} (h : config.row = .ok row) :
    row.destinationID = config.destinationID ∧ row.version = config.version := by
  unfold DestinationVersion.row at h
  split at h
  · cases h
    exact ⟨rfl, rfl⟩
  · cases h

theorem Storable.version_pos {config : DestinationVersion} (h : config.Storable) : 0 < config.version := by
  obtain ⟨row, hRow, _, hChecks⟩ := h.row
  rw [← (key_of_row hRow).2]
  simp only [DestinationVersionRow.satisfiesChecks, Bool.and_eq_true, decide_eq_true_eq] at hChecks
  exact hChecks.1.1.1.1.1

end DestinationVersion

namespace Registry

variable {γ : Type} {t t' : Registry γ} {callerID apiKeyHash destinationID : Bytes} {version : Int}
  {config : DestinationVersion}

theorem exists_setCurrentVersion (t : Registry γ) (hText : isText destinationID = true) (hVersion : 0 < version) :
    ∃ t', t.setCurrentVersion destinationID version = .ok t' := by
  simp only [setCurrentVersion, bind_ok_iff, ensure_ok_iff]
  by_cases hAny : (t.destinations.any fun destination => destination.id = destinationID) = true
  · exact ⟨_, (), hText, (), decide_eq_true hVersion, if_pos hAny⟩
  · exact ⟨_, (), hText, (), decide_eq_true hVersion, if_neg hAny⟩

theorem exists_authorize (hCaller : ∃ row, t.caller callerID = some row)
    (hDestination : ∃ destination ∈ t.destinations, destination.id = destinationID) :
    ∃ t', t.authorize callerID destinationID = .ok t' := by
  obtain ⟨row, hRow⟩ := hCaller
  obtain ⟨destination, hMem, hID⟩ := hDestination
  unfold authorize
  split
  · exact ⟨_, rfl⟩
  · simp only [bind_ok_iff, ensure_ok_iff]
    exact ⟨_, (), any_of_caller hRow, (), List.any_eq_true.mpr ⟨destination, hMem, decide_eq_true hID⟩, rfl⟩

theorem insertDestinationVersion_of_some {row : DestinationVersionRow} (h : config.Storable)
    (hRow : t.destinationVersion config.destinationID config.version = some row) :
    t.insertDestinationVersion config = .ok t := by
  obtain ⟨new, hNew, hRange, hChecks⟩ := h.row
  obtain ⟨hID, hVersion⟩ := DestinationVersion.key_of_row hNew
  simp only [insertDestinationVersion, bind_ok_iff, ensure_ok_iff]
  refine ⟨(), h.texts, new, hNew, (), hRange, (), hChecks, if_pos ?_⟩
  rw [hID, hVersion, hRow]
  rfl

theorem insertDestinationVersion_ok (h : t.insertDestinationVersion config = .ok t') :
    config.Storable ∧ ∃ destinationVersions, t.destinationVersions <+: destinationVersions ∧
      t' = { t with destinationVersions } := by
  simp only [insertDestinationVersion, bind_ok_iff, ensure_ok_iff] at h
  obtain ⟨_, hTexts, row, hRow, _, hRange, _, hChecks, h⟩ := h
  refine ⟨⟨hTexts, row, hRow, hRange, hChecks⟩, ?_⟩
  split at h
  · cases h
    exact ⟨_, List.prefix_rfl, rfl⟩
  · simp only [bind_ok_iff, pure_ok_iff] at h
    obtain ⟨_, _, rfl⟩ := h
    exact ⟨_, List.prefix_append _ _, rfl⟩

theorem queryDestinationVersion_ok {loaded : DestinationVersion}
    (h : t.queryDestinationVersion destinationID version = .ok loaded) :
    ∃ row, t.destinationVersion destinationID version = some row ∧ row.load = loaded := by
  unfold queryDestinationVersion at h
  split at h
  · rename_i row hRow
    exact ⟨row, hRow, Except.ok.inj h⟩
  · cases h

theorem authorize_ok (h : t.authorize callerID destinationID = .ok t') :
    ∃ callerDestinations, (callerID, destinationID) ∈ callerDestinations ∧ t' = { t with callerDestinations } := by
  unfold authorize at h
  split at h
  · rename_i hAny
    cases h
    obtain ⟨pair, hPair, hSame⟩ := List.any_eq_true.mp hAny
    exact ⟨_, of_decide_eq_true hSame ▸ hPair, rfl⟩
  · simp only [bind_ok_iff, pure_ok_iff] at h
    obtain ⟨_, _, _, _, rfl⟩ := h
    exact ⟨_, List.mem_append_right _ (List.mem_singleton_self _), rfl⟩

end Registry

theorem deepEqual_iff {a b : DestinationVersion} : deepEqual a b = true ↔ a = b ∧ b.ratePerSecond ≠ .nan := by
  simp only [deepEqual, Float64.equal, Bool.and_eq_true, decide_eq_true_eq]
  constructor
  · rintro ⟨⟨hRate, hNumber⟩, hSame⟩
    rw [← hRate] at hSame ⊢
    exact ⟨hSame, hNumber⟩
  · rintro ⟨rfl, hNumber⟩
    exact ⟨⟨rfl, hNumber⟩, rfl⟩

/-- What the tables hold after a `Bootstrap` with the configuration. -/
structure Stored {γ : Type} (apiKeyHash : Bytes) (config : BootstrapConfig) (t : Registry γ) : Prop where
  caller : ∃ row, t.caller config.callerID = some row ∧ row.apiKeyHash = apiKeyHash
  destinationVersion : ∃ row,
    t.destinationVersion config.destination.destinationID config.destination.version = some row ∧
      row.load = config.destination
  current : Registry.Current config.destination.destinationID config.destination.version t.destinations
  authorized : (config.callerID, config.destination.destinationID) ∈ t.callerDestinations

section Register

variable {γ : Type} {apiKeyHash : Bytes} {config : BootstrapConfig} {t t' : Registry γ}

theorem register_ok (h : register apiKeyHash config t = .ok t') :
    isText config.callerID = true ∧ config.destination.Storable ∧ config.destination.ratePerSecond ≠ .nan ∧
      Stored apiKeyHash config t' ∧ t.Extends t' := by
  simp only [register, bind_ok_iff, mapError_ok_iff, ensure_ok_iff] at h
  obtain ⟨t₁, hInsert, callerMatches, hMatches, _, rfl, t₂, hCurrent, t₃, hVersion, loaded, hQuery, _, hEqual,
    hAuthorize⟩ := h
  obtain ⟨hText, callers, hCallers, rfl⟩ := Registry.insertCaller_ok hInsert
  obtain ⟨row, hRow, hHash⟩ := Registry.callerMatches_ok hMatches
  obtain ⟨destinations, hSet, rfl⟩ := Registry.setCurrentVersion_ok hCurrent
  obtain ⟨hStorable, versions, hVersions, rfl⟩ := Registry.insertDestinationVersion_ok hVersion
  obtain ⟨stored, hStored, rfl⟩ := Registry.queryDestinationVersion_ok hQuery
  obtain ⟨hSame, hNumber⟩ := deepEqual_iff.mp hEqual
  obtain ⟨pairs, hPair, rfl⟩ := Registry.authorize_ok hAuthorize
  exact ⟨hText, hStorable, hNumber, ⟨⟨row, hRow, hHash⟩, ⟨stored, hStored, hSame⟩, hSet, hPair⟩,
    ⟨hCallers, hVersions, rfl⟩⟩

/-- A configuration that is stored passes again, if it passes the checks that do not depend on the tables. -/
theorem register_of_stored {caller : CallerRow} {row : DestinationVersionRow}
    (hText : isText config.callerID = true) (hStorable : config.destination.Storable)
    (hNumber : config.destination.ratePerSecond ≠ .nan) (hCaller : t.caller config.callerID = some caller)
    (hHash : caller.apiKeyHash = apiKeyHash)
    (hRow : t.destinationVersion config.destination.destinationID config.destination.version = some row)
    (hLoad : row.load = config.destination) : ∃ t', register apiKeyHash config t = .ok t' := by
  have hInsert : t.insertCaller config.callerID apiKeyHash = .ok t := by
    simp only [Registry.insertCaller, bind_ok_iff, ensure_ok_iff]
    exact ⟨(), hText, if_pos (Registry.any_of_caller hCaller)⟩
  have hMatches : t.callerMatches config.callerID apiKeyHash = .ok true := by
    rw [Registry.callerMatches, hCaller]
    exact congrArg _ (decide_eq_true hHash)
  have hID := List.all_eq_true.mp hStorable.texts _ List.mem_cons_self
  obtain ⟨t₂, hSet⟩ := Registry.exists_setCurrentVersion t hID hStorable.version_pos
  obtain ⟨destinations, hCurrent, rfl⟩ := Registry.setCurrentVersion_ok hSet
  have hFound : Registry.destinationVersion config.destination.destinationID config.destination.version
      { t with destinations } = some row := hRow
  have hQuery : Registry.queryDestinationVersion config.destination.destinationID config.destination.version
      { t with destinations } = .ok config.destination := by
    rw [Registry.queryDestinationVersion, hFound]
    exact congrArg _ hLoad
  obtain ⟨t', hAuthorize⟩ : ∃ t', Registry.authorize config.callerID config.destination.destinationID
      { t with destinations } = .ok t' := Registry.exists_authorize ⟨caller, hCaller⟩ hCurrent.1
  refine ⟨t', ?_⟩
  simp only [register, bind_ok_iff, mapError_ok_iff, ensure_ok_iff]
  exact ⟨t, hInsert, true, hMatches, (), rfl, _, hSet, _, Registry.insertDestinationVersion_of_some hStorable hFound,
    _, hQuery, (), deepEqual_iff.mpr ⟨rfl, hNumber⟩, hAuthorize⟩

theorem Stored.reference (h : Stored apiKeyHash config t) :
    t.currentVersionReference config.destination.destinationID = .ok () := by
  obtain ⟨row, hRow, _⟩ := h.destinationVersion
  refine ensure_ok_iff.mpr (List.all_eq_true.mpr fun destination hDestination => ?_)
  by_cases hID : destination.id = config.destination.destinationID
  · rw [h.current.2 destination hDestination hID, hRow]
    simp
  · simp [hID]

end Register

/-! ## The whole call -/

/-- What `Bootstrap` asks of a configuration before it talks to the server. -/
structure BootstrapConfig.Complete (config : BootstrapConfig) : Prop where
  callerID : config.callerID ≠ []
  callerAPIKey : config.callerAPIKey ≠ []
  destinationID : config.destination.destinationID ≠ []
  version : 0 < config.destination.version
  methods : ∀ method ∈ elements config.destination.allowedMethods, isSupportedOutboundMethod method = true

/-- The result of `Bootstrap`, and the tables after it. -/
def bootstrapped {γ : Type} (server : Server SqlError) (sha256 : Bytes → Bytes) (config : BootstrapConfig)
    (t : Registry γ) : Except BootstrapError Unit × Registry γ :=
  ((bootstrap server sha256 config ⟨t, none, 0⟩).1, (bootstrap server sha256 config ⟨t, none, 0⟩).2.stored)

theorem bootstrapped_cases {γ : Type} (server : Server SqlError) (sha256 : Bytes → Bytes) (config : BootstrapConfig)
    (t : Registry γ) :
    (∃ err, bootstrapped server sha256 config t = (.error err, t) ∧
      (server.Up → config.Complete → ∀ t', register (sha256 config.callerAPIKey) config t ≠ .ok t')) ∨
    (∃ err t', bootstrapped server sha256 config t = (.error err, t') ∧ CommitUnheard server err ∧ ¬server.Up ∧
      register (sha256 config.callerAPIKey) config t = .ok t') ∨
    ∃ t', bootstrapped server sha256 config t = (.ok (), t') ∧ config.Complete ∧
      register (sha256 config.callerAPIKey) config t = .ok t' := by
  unfold bootstrapped bootstrap
  split
  · rename_i hIncomplete
    refine .inl ⟨_, rfl, fun _ hComplete => ?_⟩
    simp [hComplete.callerID, hComplete.callerAPIKey, hComplete.destinationID] at hIncomplete
    exact absurd hComplete.version (not_lt.mpr hIncomplete)
  · rename_i hNames
    cases hMethods : (elements config.destination.allowedMethods).find? fun method =>
      !isSupportedOutboundMethod method with
    | some method =>
      refine .inl ⟨_, rfl, fun _ hComplete => ?_⟩
      have hBad := List.find?_some hMethods
      rw [hComplete.methods method (List.mem_of_find?_eq_some hMethods)] at hBad
      cases hBad
    | none =>
      have hComplete : config.Complete := by
        simp only [Bool.or_eq_true, decide_eq_true_eq, not_or, not_le] at hNames
        refine ⟨hNames.1.1.1, hNames.1.1.2, hNames.1.2, hNames.2, fun method hMem => ?_⟩
        simpa using List.find?_eq_none.mp hMethods method hMem
      have hRegistered {value : Unit} {stored : Registry γ}
          (hDone : (register (sha256 config.callerAPIKey) config t >>= fun next => (fun _ => ((), next)) <$>
            (next.currentVersionReference config.destination.destinationID).mapError (.failed .commit)) =
              .ok (value, stored)) : register (sha256 config.callerAPIKey) config t = .ok stored := by
        obtain ⟨t', hRegister, hCommit⟩ := bind_ok_iff.mp hDone
        obtain ⟨_, _, hPair⟩ := map_ok_iff.mp hCommit
        rw [hRegister, ← (Prod.mk.inj hPair).2]
      dsimp only
      rcases transaction_cases (statements_commit server sha256 config) (.failed .begin) ⟨t, none, 0⟩ with
        ⟨err, next, hOut, hStored, hRefused⟩ | ⟨err, _, next, hOut, hLost, hDown, hDone⟩ | ⟨_, next, hOut, hDone⟩
      · refine .inl ⟨err, ?_, fun hUp _ t' hRegister => ?_⟩
        · rw [hOut, hStored]
        -- the reference that is deferred to the commit holds: the statements have stored the version it names
        · have hError := hRefused hUp
          rw [hRegister] at hError
          change (fun _ => ((), t')) <$> (t'.currentVersionReference _).mapError _ = _ at hError
          rw [(register_ok hRegister).2.2.2.1.reference] at hError
          cases hError
      · refine .inr (.inl ⟨err, next.stored, ?_, hLost, hDown, hRegistered hDone⟩)
        rw [hOut]
      · refine .inr (.inr ⟨next.stored, ?_, hComplete, hRegistered hDone⟩)
        rw [hOut]

theorem bootstrapped_ok {γ : Type} {server : Server SqlError} {sha256 : Bytes → Bytes} {config : BootstrapConfig}
    {t t' : Registry γ} (h : bootstrapped server sha256 config t = (.ok (), t')) :
    config.Complete ∧ register (sha256 config.callerAPIKey) config t = .ok t' := by
  rcases bootstrapped_cases server sha256 config t with
    ⟨err, hOut, _⟩ | ⟨err, _, hOut, _⟩ | ⟨t₂, hOut, hComplete, hRegister⟩
  · rw [hOut] at h
    cases h
  · rw [hOut] at h
    cases h
  · rw [hOut] at h
    cases h
    exact ⟨hComplete, hRegister⟩

/-- Any number of further calls, each with the outages it meets. -/
def bootstrappedAll {γ : Type} (sha256 : Bytes → Bytes) (calls : List (Server SqlError × BootstrapConfig))
    (t : Registry γ) : Registry γ :=
  calls.foldl (fun t call => (bootstrapped call.1 sha256 call.2 t).2) t

theorem extends_bootstrapped {γ : Type} (server : Server SqlError) (sha256 : Bytes → Bytes) (config : BootstrapConfig)
    (t : Registry γ) : t.Extends (bootstrapped server sha256 config t).2 := by
  rcases bootstrapped_cases server sha256 config t with
    ⟨err, hOut, _⟩ | ⟨err, t', hOut, _, _, hRegister⟩ | ⟨t', hOut, _, hRegister⟩
  · rw [hOut]
    exact .refl t
  · rw [hOut]
    exact (register_ok hRegister).2.2.2.2
  · rw [hOut]
    exact (register_ok hRegister).2.2.2.2

theorem extends_bootstrappedAll {γ : Type} (sha256 : Bytes → Bytes) (calls : List (Server SqlError × BootstrapConfig))
    (t : Registry γ) : t.Extends (bootstrappedAll sha256 calls t) := by
  induction calls generalizing t with
  | nil => exact .refl t
  | cons call rest ih => exact (extends_bootstrapped call.1 sha256 call.2 t).trans (ih _)

theorem bootstrap_again_iff {γ : Type} {server : Server SqlError} {sha256 : Bytes → Bytes}
    {first second : BootstrapConfig} {t t₁ : Registry γ} (calls : List (Server SqlError × BootstrapConfig))
    (hFirst : bootstrapped server sha256 first t = (.ok (), t₁)) (hCaller : second.callerID = first.callerID)
    (hID : second.destination.destinationID = first.destination.destinationID)
    (hVersion : second.destination.version = first.destination.version) {up : Server SqlError} (hUp : up.Up) :
    (bootstrapped up sha256 second (bootstrappedAll sha256 calls t₁)).1 = .ok () ↔
      second.callerAPIKey ≠ [] ∧ sha256 second.callerAPIKey = sha256 first.callerAPIKey ∧
        second.destination = first.destination := by
  obtain ⟨hComplete, hRegister⟩ := bootstrapped_ok hFirst
  obtain ⟨hText, hStorable, hNumber, hStored, _⟩ := register_ok hRegister
  have hLater := extends_bootstrappedAll sha256 calls t₁
  obtain ⟨caller, hRow, hHash⟩ := hStored.caller
  obtain ⟨row, hVersionRow, hLoad⟩ := hStored.destinationVersion
  have hRow := hLater.caller hRow
  have hVersionRow := hLater.destinationVersion hVersionRow
  rw [← hCaller] at hRow hText
  rw [← hID, ← hVersion] at hVersionRow
  rcases bootstrapped_cases up sha256 second (bootstrappedAll sha256 calls t₁) with
    ⟨err, hOut', hRefused⟩ | ⟨_, _, _, _, hDown, _⟩ | ⟨t₂, hOut', hComplete', hRegister'⟩
  · rw [hOut']
    constructor
    · intro h
      cases h
    · rintro ⟨hKey, hSameHash, hSame⟩
      have hComplete' : second.Complete := by
        refine ⟨hCaller ▸ hComplete.callerID, hKey, hID ▸ hComplete.destinationID, hVersion ▸ hComplete.version, ?_⟩
        rw [hSame]
        exact hComplete.methods
      rw [← hSame] at hStorable hNumber hLoad
      obtain ⟨t₂, hOk⟩ := register_of_stored hText hStorable hNumber hRow (hHash.trans hSameHash.symm) hVersionRow hLoad
      exact absurd hOk (hRefused hUp hComplete' t₂)
  · exact absurd hUp hDown
  -- the rows under these names are those of the first call, and the second one has compared itself with them
  · rw [hOut']
    obtain ⟨_, _, _, hStored', hExtends⟩ := register_ok hRegister'
    obtain ⟨caller', hRow', hHash'⟩ := hStored'.caller
    obtain ⟨row', hVersionRow', hLoad'⟩ := hStored'.destinationVersion
    rw [hExtends.caller hRow] at hRow'
    rw [hExtends.destinationVersion hVersionRow] at hVersionRow'
    cases hRow'
    cases hVersionRow'
    exact ⟨fun _ => ⟨hComplete'.callerAPIKey, hHash'.symm.trans hHash, hLoad'.symm.trans hLoad⟩, fun _ => rfl⟩

/-- `Bootstrap` is all or nothing, whatever calls fail on the way: it fails and nothing has changed, unless the reply
to its commit is lost. When it succeeds, and then, the tables hold its configuration and no caller or version that was
there has changed. From a success on, after any further calls, it is the same key hash and the same destination that
pass under these names. -/
theorem bootstrap_all_or_nothing {γ : Type} (sha256 : Bytes → Bytes) :
    (∀ server config (t t' : Registry γ) err, bootstrapped server sha256 config t = (.error err, t') →
      t' = t ∨ CommitUnheard server err ∧ Stored (sha256 config.callerAPIKey) config t' ∧ t.Extends t') ∧
    (∀ server config (t t' : Registry γ), bootstrapped server sha256 config t = (.ok (), t') →
      Stored (sha256 config.callerAPIKey) config t' ∧ t.Extends t') ∧
    ∀ server first (t t₁ : Registry γ), bootstrapped server sha256 first t = (.ok (), t₁) →
      ∀ calls second up, second.callerID = first.callerID →
        second.destination.destinationID = first.destination.destinationID →
        second.destination.version = first.destination.version → Server.Up up →
        ((bootstrapped up sha256 second (bootstrappedAll sha256 calls t₁)).1 = .ok () ↔
          second.callerAPIKey ≠ [] ∧ sha256 second.callerAPIKey = sha256 first.callerAPIKey ∧
            second.destination = first.destination) ∧
        ((∀ key, sha256 key = sha256 [] → key = []) →
          ((bootstrapped up sha256 second (bootstrappedAll sha256 calls t₁)).1 = .ok () ↔
            sha256 second.callerAPIKey = sha256 first.callerAPIKey ∧ second.destination = first.destination)) := by
  refine ⟨?_, ?_, ?_⟩
  · intro server config t t' err h
    rcases bootstrapped_cases server sha256 config t with
      ⟨err', hOut, _⟩ | ⟨err', t₂, hOut, hLost, _, hRegister⟩ | ⟨t₂, hOut, _⟩
    · rw [hOut] at h
      cases h
      exact .inl rfl
    · rw [hOut] at h
      cases h
      exact .inr ⟨hLost, (register_ok hRegister).2.2.2⟩
    · rw [hOut] at h
      cases h
  · intro server config t t' h
    exact (register_ok (bootstrapped_ok h).2).2.2.2
  · intro server first t t₁ hFirst calls second up hCaller hID hVersion hUp
    have hAgain := bootstrap_again_iff calls hFirst hCaller hID hVersion hUp
    refine ⟨hAgain, fun hEmpty => hAgain.trans (and_iff_right_of_imp ?_)⟩
    rintro ⟨hHash, _⟩ hKey
    rw [hKey] at hHash
    exact (bootstrapped_ok hFirst).1.callerAPIKey (hEmpty _ hHash.symm)

def upServer : Server SqlError := ⟨fun _ => .answered, .transactionAborted⟩

def ordersConfig (url : String) : BootstrapConfig where
  callerID := encode "shop"
  callerAPIKey := encode "key"
  destination := {
    destinationID := encode "orders"
    version := 1
    url := encode url
    networkPolicy := encode "public"
    allowedMethods := some [encode "POST"]
    allowedHeaders := some []
    secretRef := []
    credentialHeader := []
    idempotencyHeader := encode "Idempotency-Key"
    successStatuses := some []
    retryStatuses := some [429]
    connectTimeout := 3000000000
    requestTimeout := 15000000000
    ratePerSecond := .finite 1
    maxConcurrency := 1 }

/-- The tables after a first `Bootstrap`. -/
def ordersTables {γ : Type} (others : γ) : Registry γ :=
  (bootstrapped upServer id (ordersConfig "https://shop.test/a") ⟨[], [], [], [], others⟩).2

/-- The configuration passes again, and one with another address under its version fails and changes nothing. -/
theorem bootstrap_all_or_nothing_orders :
    Stored (encode "key") (ordersConfig "https://shop.test/a") (ordersTables ()) ∧
      (bootstrapped upServer id (ordersConfig "https://shop.test/a") (ordersTables ())).1 = .ok () ∧
      bootstrapped upServer id (ordersConfig "https://shop.test/b") (ordersTables ()) =
        (.error .destinationVersionConflict, ordersTables ()) := by
  obtain ⟨hFailed, hDone, hAgain⟩ := bootstrap_all_or_nothing (γ := Unit) id
  have hFirst : bootstrapped upServer id (ordersConfig "https://shop.test/a") ⟨[], [], [], [], ()⟩ =
      (.ok (), ordersTables ()) := Prod.ext (by decide +kernel) rfl
  have hOther : (bootstrapped upServer id (ordersConfig "https://shop.test/b") (ordersTables ())).1 =
      .error .destinationVersionConflict := by
    decide +kernel
  have hSame := (hFailed _ _ _ _ _ (Prod.ext hOther rfl)).resolve_right fun h => by
    obtain ⟨⟨_, _, hFate, _⟩, _⟩ := h
    cases hFate
  refine ⟨(hDone _ _ _ _ hFirst).1, ?_, Prod.ext hOther hSame⟩
  exact (hAgain _ _ _ _ hFirst [] _ upServer rfl rfl rfl fun _ => rfl).1.mpr ⟨by decide, rfl, rfl⟩

/-- The server commits, and the connection is lost before it can say so. -/
def unheardServer : Server SqlError :=
  ⟨fun n => if n = 7 then .unheard .connectionLost else .answered, .transactionAborted⟩

/-- The eighth call is the commit: `Bootstrap` fails, and every table has a new row. -/
theorem bootstrap_commit_unheard :
    bootstrapped unheardServer id (ordersConfig "https://shop.test/a") ⟨[], [], [], [], ()⟩ =
        (.error (.failed .commit .connectionLost), ordersTables ()) ∧
      (ordersTables ()).callers ≠ [] ∧ (ordersTables ()).destinations ≠ [] ∧
      (ordersTables ()).destinationVersions ≠ [] ∧ (ordersTables ()).callerDestinations ≠ [] := by
  decide +kernel

end ReliableNotifier.Raw
