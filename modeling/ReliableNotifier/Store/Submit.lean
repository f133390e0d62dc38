import ReliableNotifier.Schema

/-! # Accepting submissions and bootstrapping the registry

Both functions are one transaction. A failure at any statement returns before the
commit, so an error result carries no database.
-/

namespace ReliableNotifier

open Checked RowTable

structure Submission where
  callerID : String
  idempotencyKey : String
  requestHash : Digest
  destinationID : String
  destinationVersion : Int
  method : String
  callerHeaders : Headers
  body : List UInt8
  supplierIdempotencyValue : String
  acceptedAt : GoTime
  retryDeadline : GoTime
  deriving DecidableEq

structure BootstrapConfig where
  callerID : String
  callerAPIKey : String
  destination : DestinationVersion
  deriving DecidableEq

namespace Submission

/-- What `API.submit` passes on: no supplier value of the caller, and a day for the first cycle. -/
def FromAPI (submission : Submission) : Prop :=
  submission.supplierIdempotencyValue = "" ∧
    submission.retryDeadline = submission.acceptedAt + day

def supplierValue (submission : Submission) (deliveryID : UUID) : String :=
  if submission.supplierIdempotencyValue = "" then uuidText deliveryID
  else submission.supplierIdempotencyValue

def row (submission : Submission) (r : Readings) (deliveryID : UUID) : DeliveryRow where
  id := deliveryID
  callerID := submission.callerID
  idempotencyKey := submission.idempotencyKey
  requestHash := submission.requestHash
  destinationID := submission.destinationID
  destinationVersion := submission.destinationVersion
  method := submission.method
  callerHeaders := submission.callerHeaders
  body := submission.body
  supplierIdempotencyValue := submission.supplierValue deliveryID
  status := .pending
  generation := 0
  acceptedAt := microseconds submission.acceptedAt
  retryDeadline := microseconds submission.retryDeadline
  nextAttemptAt := microseconds submission.acceptedAt
  createdAt := r.write deliveryID 0
  updatedAt := r.write deliveryID 1
  leaseOwner := none
  leaseToken := none
  leaseUntil := none

def event (submission : Submission) (r : Readings) (deliveryID outboxID traceID : UUID) :
    OutboxEventRow where
  id := outboxID
  deliveryID := deliveryID
  generation := 0
  traceID := traceID
  availableAt := microseconds submission.acceptedAt
  publishedAt := none
  leaseOwner := none
  leaseToken := none
  leaseUntil := none
  createdAt := r.write deliveryID 2
  observedAt := none

/-- The answer to a new submission is put together from its arguments, not read back. -/
def accepted (submission : Submission) (deliveryID : UUID) : Delivery where
  id := deliveryID
  callerID := submission.callerID
  destinationID := submission.destinationID
  destinationVersion := submission.destinationVersion
  method := submission.method
  callerHeaders := submission.callerHeaders
  body := submission.body
  supplierIdempotencyValue := submission.supplierValue deliveryID
  status := .pending
  generation := 0
  acceptedAt := submission.acceptedAt
  retryDeadline := submission.retryDeadline
  nextAttemptAt := submission.acceptedAt
  leaseOwner := none
  leaseToken := none
  leaseUntil := none

end Submission

namespace Database

/-- `queryDeliveryByIdempotency`. -/
def deliveryByIdempotency (callerID idempotencyKey : String) (db : Database) : Option DeliveryRow :=
  db.deliveries.find? fun row => row.callerID = callerID && row.idempotencyKey = idempotencyKey

def activeCount (db : Database) : Nat :=
  db.deliveries.countP fun row => row.status = .pending || row.status = .delivering

/-- The two inserts of a new submission. -/
def insertSubmission (r : Readings) (submission : Submission) (deliveryID outboxID traceID : UUID)
    (db : Database) : Except StoreError Database := do
  let db ← db.insertDelivery (submission.row r deliveryID)
  db.insertEvent (submission.event r deliveryID outboxID traceID)

end Database

def submit (r : Readings) (backlogLimit : Int) (submission : Submission)
    (deliveryID outboxID traceID : UUID) (db : Database) : Except StoreError (Delivery × Database) :=
  match db.deliveryByIdempotency submission.callerID submission.idempotencyKey with
  | some existing =>
    if existing.requestHash ≠ submission.requestHash then .error .idempotencyConflict
    else .ok (existing.load, db)
  | none =>
    if backlogLimit ≤ db.activeCount then .error .backlogCapacity
    else do
      let db ← db.insertSubmission r submission deliveryID outboxID traceID
      return (submission.accepted deliveryID, db)

theorem submit_ok {r : Readings} {backlogLimit : Int} {submission : Submission}
    {deliveryID outboxID traceID : UUID} {db db' : Database} {reply : Delivery}
    (h : submit r backlogLimit submission deliveryID outboxID traceID db = .ok (reply, db')) :
    (∃ existing, db.deliveryByIdempotency submission.callerID submission.idempotencyKey = some existing ∧
      existing.requestHash = submission.requestHash ∧ reply = existing.load ∧ db' = db) ∨
    (db.deliveryByIdempotency submission.callerID submission.idempotencyKey = none ∧
      db.activeCount < backlogLimit ∧ reply = submission.accepted deliveryID ∧
      db.insertSubmission r submission deliveryID outboxID traceID = .ok db') := by
  unfold submit at h
  split at h
  · rename_i existing hExisting
    split at h
    · cases h
    · rename_i hHash
      cases h
      exact .inl ⟨existing, hExisting, not_not.mp hHash, rfl, rfl⟩
  · rename_i hNone
    split at h
    · cases h
    · rename_i hLimit
      obtain ⟨inserted, hInsert, hReply⟩ := bind_ok_iff.mp h
      cases hReply
      exact .inr ⟨hNone, not_le.mp hLimit, rfl, hInsert⟩

theorem insertSubmission_ok {r : Readings} {submission : Submission} {deliveryID outboxID traceID : UUID}
    {db db' : Database} (h : db.insertSubmission r submission deliveryID outboxID traceID = .ok db') :
    ∃ middle, db.insertDelivery (submission.row r deliveryID) = .ok middle ∧
      middle.insertEvent (submission.event r deliveryID outboxID traceID) = .ok db' :=
  bind_ok_iff.mp h

/-- Simple case folding on the letters of the method names: U+017F folds to `s`, U+212A to `k`. -/
def foldRune (c : Char) : Char :=
  if c.toNat = 0x17F then 's' else if c.toNat = 0x212A then 'k' else c.toLower

def equalFold (a b : String) : Bool := a.toList.map foldRune = b.toList.map foldRune

def isSupportedOutboundMethod (method : String) : Bool :=
  equalFold method "POST" || equalFold method "PUT" || equalFold method "PATCH" || equalFold method "DELETE"

namespace Database

/-- `INSERT INTO callers ... ON CONFLICT (id) DO NOTHING`. -/
def insertCaller (callerID : String) (apiKeyHash : Digest) (db : Database) :
    Except StoreError Database :=
  if db.callers.any fun caller => caller.id = callerID then .ok db
  else do
    ensure (db.callers.all fun caller => caller.apiKeyHash ≠ apiKeyHash) (.constraint .callerKeyHash)
    return { db with callers := db.callers ++ [⟨callerID, apiKeyHash, false⟩] }

/-- `INSERT INTO destinations ... ON CONFLICT (id) DO UPDATE SET current_version`. -/
def setCurrentVersion (destinationID : String) (version : Int) (db : Database) : Database :=
  if db.destinations.any fun destination => destination.id = destinationID then
    { db with
      destinations := updateWhere (fun destination => destination.id = destinationID)
        (fun destination => { destination with currentVersion := version }) db.destinations }
  else { db with destinations := db.destinations ++ [⟨destinationID, version⟩] }

/-- The row `Bootstrap` writes for a version. A nil slice is a NULL in a `NOT NULL` column. -/
def destinationVersionRow (config : DestinationVersion) : Option DestinationVersionRow := do
  let allowedMethods ← config.allowedMethods
  let allowedHeaders ← config.allowedHeaders
  let successStatuses ← config.successStatuses
  let retryStatuses ← config.retryStatuses
  return {
    destinationID := config.destinationID
    version := config.version
    url := config.url
    networkPolicy := config.networkPolicy
    allowedMethods := allowedMethods
    allowedHeaders := allowedHeaders
    secretRef := config.secretRef
    credentialHeader := config.credentialHeader
    idempotencyHeader := config.idempotencyHeader
    successStatuses := successStatuses
    retryStatuses := retryStatuses
    connectTimeoutMS := config.connectTimeout.tdiv 1000000
    requestTimeoutMS := config.requestTimeout.tdiv 1000000
    ratePerSecond := config.ratePerSecond
    maxConcurrency := config.maxConcurrency }

def destinationVersionValues (row : DestinationVersionRow) : Bool :=
  0 < row.version && 0 < row.connectTimeoutMS && row.connectTimeoutMS < 2 ^ 31 &&
  0 < row.requestTimeoutMS && row.requestTimeoutMS ≤ 60000 &&
  0 < row.ratePerSecond && 0 < row.maxConcurrency && row.maxConcurrency < 2 ^ 31

/-- `INSERT INTO destination_versions ... ON CONFLICT (destination_id, version) DO NOTHING`. The row is checked
before the conflict is looked for. -/
def insertDestinationVersion (config : DestinationVersion) (db : Database) :
    Except StoreError Database :=
  match destinationVersionRow config with
  | none => .error (.constraint .destinationVersionValues)
  | some row => do
    ensure (destinationVersionValues row) (.constraint .destinationVersionValues)
    if db.destinationVersions.any fun other =>
      other.destinationID = row.destinationID && other.version = row.version then return db
    return { db with destinationVersions := db.destinationVersions ++ [row] }

def authorize (callerID destinationID : String) (db : Database) : Database :=
  if db.callerDestinations.any fun pair => pair = (callerID, destinationID) then db
  else { db with callerDestinations := db.callerDestinations ++ [(callerID, destinationID)] }

end Database

/-- `apiKeyHash` is the SHA-256 digest of the configured API key. -/
def bootstrap (apiKeyHash : Digest) (config : BootstrapConfig) (db : Database) :
    Except StoreError Database := do
  ensure (config.callerID ≠ "" && config.callerAPIKey ≠ "" &&
    config.destination.destinationID ≠ "" && 0 < config.destination.version) .invalidArguments
  ensure ((elements config.destination.allowedMethods).all isSupportedOutboundMethod) .invalidArguments
  let db ← db.insertCaller config.callerID apiKeyHash
  ensure (db.callers.any fun caller => caller.id = config.callerID && caller.apiKeyHash = apiKeyHash)
    .bootstrapConflict
  let db := db.setCurrentVersion config.destination.destinationID config.destination.version
  let db ← db.insertDestinationVersion config.destination
  let existing ← db.queryDestinationVersion config.destination.destinationID config.destination.version
  ensure (existing = config.destination) .bootstrapConflict
  return db.authorize config.callerID config.destination.destinationID

section Bootstrap

variable {db db' : Database}

theorem Database.insertCaller_ok {callerID : String} {apiKeyHash : Digest}
    (h : db.insertCaller callerID apiKeyHash = .ok db') : ∃ callers, db' = { db with callers } := by
  unfold insertCaller at h
  split at h
  · cases h
    exact ⟨_, rfl⟩
  · simp only [bind_ok_iff, ensure_ok_iff, pure_ok_iff] at h
    obtain ⟨_, _, rfl⟩ := h
    exact ⟨_, rfl⟩

theorem Database.setCurrentVersion_eq (destinationID : String) (version : Int) (db : Database) :
    ∃ destinations, db.setCurrentVersion destinationID version = { db with destinations } := by
  unfold setCurrentVersion
  split
  · exact ⟨_, rfl⟩
  · exact ⟨_, rfl⟩

theorem Database.authorize_eq (callerID destinationID : String) (db : Database) :
    ∃ callerDestinations, db.authorize callerID destinationID = { db with callerDestinations } := by
  unfold authorize
  split
  · exact ⟨_, rfl⟩
  · exact ⟨_, rfl⟩

/-- A version is added under a key that no version has, or none is. -/
theorem Database.insertDestinationVersion_ok {config : DestinationVersion}
    (h : db.insertDestinationVersion config = .ok db') :
    db' = db ∨ ∃ row, db' = { db with destinationVersions := db.destinationVersions ++ [row] } ∧
      ∀ other ∈ db.destinationVersions, ¬(other.destinationID = row.destinationID ∧ other.version = row.version) := by
  unfold insertDestinationVersion at h
  split at h
  · cases h
  · rename_i row _
    obtain ⟨_, _, h⟩ := bind_ok_iff.mp h
    split at h
    · cases h
      exact .inl rfl
    · rename_i hFree
      cases h
      exact .inr ⟨row, rfl, by simpa using hFree⟩

theorem bootstrap_versions {apiKeyHash : Digest} {config : BootstrapConfig}
    (h : bootstrap apiKeyHash config db = .ok db') :
    ∃ callers destinations callerDestinations destinationVersions,
      db' = { db with callers, destinations, callerDestinations, destinationVersions } ∧
      (destinationVersions = db.destinationVersions ∨ ∃ row, destinationVersions = db.destinationVersions ++ [row] ∧
        ∀ other ∈ db.destinationVersions,
          ¬(other.destinationID = row.destinationID ∧ other.version = row.version)) := by
  simp only [bootstrap, bind_ok_iff, ensure_ok_iff, pure_ok_iff] at h
  obtain ⟨_, _, _, _, withCaller, hCaller, _, _, withVersion, hVersion, _, _, _, _, rfl⟩ := h
  obtain ⟨callers, rfl⟩ := Database.insertCaller_ok hCaller
  obtain ⟨destinations, hSet⟩ := Database.setCurrentVersion_eq config.destination.destinationID
    config.destination.version { db with callers }
  obtain ⟨pairs, hAuthorize⟩ := Database.authorize_eq config.callerID config.destination.destinationID withVersion
  rw [hAuthorize]
  rw [hSet] at hVersion
  rcases Database.insertDestinationVersion_ok hVersion with rfl | ⟨row, rfl, hFree⟩
  · exact ⟨_, _, _, _, rfl, .inl rfl⟩
  · exact ⟨_, _, _, _, rfl, .inr ⟨row, rfl, hFree⟩⟩

/-- `Bootstrap` leaves the four tables of deliveries alone and only ever appends versions. -/
theorem bootstrap_ok {apiKeyHash : Digest} {config : BootstrapConfig}
    (h : bootstrap apiKeyHash config db = .ok db') :
    db'.deliveries = db.deliveries ∧ db'.outboxEvents = db.outboxEvents ∧
      db'.deliveryAttempts = db.deliveryAttempts ∧ db'.replayAudits = db.replayAudits ∧
      ∃ more, db'.destinationVersions = db.destinationVersions ++ more := by
  obtain ⟨_, _, _, versions, rfl, rfl | ⟨row, rfl, _⟩⟩ := bootstrap_versions h
  · exact ⟨rfl, rfl, rfl, rfl, [], by simp⟩
  · exact ⟨rfl, rfl, rfl, rfl, [row], rfl⟩

end Bootstrap

end ReliableNotifier
