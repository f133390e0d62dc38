import ReliableNotifier.Store.Answers

/-! # Bytes and texts

`Bootstrap` and `Submit` have two models: over bytes and a server any call of which can fail, and
over texts with the result of the whole transaction. On texts without the character 0, and where
the calls get through, the first does what the second does.
-/

namespace ReliableNotifier.Raw

open Checked GoStrings RowTable Transaction

/-! ## Texts -/

/-- PostgreSQL has no text with the character 0. -/
def Plain (text : String) : Prop := ∀ c ∈ text.toList, c.toNat ≠ 0

theorem encode_inj {text text' : String} : encode text = encode text' ↔ text = text' :=
  ⟨encode_injective, congrArg encode⟩

theorem isText_encode {text : String} (h : Plain text) : isText (encode text) = true := by
  refine Bool.and_eq_true_iff.mpr ⟨validString_utf8 _, List.all_eq_true.mpr fun b hb => decide_eq_true ?_⟩
  rintro rfl
  obtain ⟨c, hc, hb⟩ := List.mem_flatMap.mp hb
  obtain ⟨hSmall, hZero⟩ := mem_encodeRune (by decide) (toNat_lt c) hb
  refine h c hc ?_
  have hValue : (UInt8.ofNat c.toNat).toNat = c.toNat := UInt8.toNat_ofNat_of_lt (Nat.lt_trans hSmall (by decide))
  rw [← hValue, ← hZero]
  rfl

/-! ## Rows and configurations -/

section Encode

variable (code : Digest → Vector UInt8 32)

def encodeCaller (row : ReliableNotifier.CallerRow) : CallerRow :=
  ⟨encode row.id, (code row.apiKeyHash).toList, row.isOperator⟩

def encodeDestination (row : ReliableNotifier.DestinationRow) : DestinationRow := ⟨encode row.id, row.currentVersion⟩

def encodeVersionRow (row : ReliableNotifier.DestinationVersionRow) : DestinationVersionRow where
  destinationID := encode row.destinationID
  version := row.version
  url := encode row.url
  networkPolicy := encode row.networkPolicy
  allowedMethods := row.allowedMethods.map encode
  allowedHeaders := row.allowedHeaders.map encode
  secretRef := encode row.secretRef
  credentialHeader := encode row.credentialHeader
  idempotencyHeader := encode row.idempotencyHeader
  successStatuses := row.successStatuses
  retryStatuses := row.retryStatuses
  connectTimeoutMS := row.connectTimeoutMS
  requestTimeoutMS := row.requestTimeoutMS
  ratePerSecond := .finite row.ratePerSecond
  maxConcurrency := row.maxConcurrency

def encodeVersion (config : ReliableNotifier.DestinationVersion) : DestinationVersion where
  destinationID := encode config.destinationID
  version := config.version
  url := encode config.url
  networkPolicy := encode config.networkPolicy
  allowedMethods := config.allowedMethods.map (List.map encode)
  allowedHeaders := config.allowedHeaders.map (List.map encode)
  secretRef := encode config.secretRef
  credentialHeader := encode config.credentialHeader
  idempotencyHeader := encode config.idempotencyHeader
  successStatuses := config.successStatuses
  retryStatuses := config.retryStatuses
  connectTimeout := config.connectTimeout
  requestTimeout := config.requestTimeout
  ratePerSecond := .finite config.ratePerSecond
  maxConcurrency := config.maxConcurrency

def encodeConfig (config : ReliableNotifier.BootstrapConfig) : BootstrapConfig :=
  ⟨encode config.callerID, encode config.callerAPIKey, encodeVersion config.destination⟩

def encodeHeaders (headers : Headers) : HeaderMap := .fill .empty (headers.entries.map encodeEntry)

def encodeRow (row : ReliableNotifier.DeliveryRow) : DeliveryRow where
  id := row.id
  callerID := encode row.callerID
  idempotencyKey := encode row.idempotencyKey
  requestHash := (code row.requestHash).toList
  destinationID := encode row.destinationID
  destinationVersion := row.destinationVersion
  method := encode row.method
  callerHeaders := .object (encodeHeaders row.callerHeaders)
  body := row.body
  supplierIdempotencyValue := encode row.supplierIdempotencyValue
  status := row.status
  generation := row.generation
  acceptedAt := row.acceptedAt
  retryDeadline := row.retryDeadline
  nextAttemptAt := row.nextAttemptAt

def encodeEvent (event : ReliableNotifier.OutboxEventRow) : OutboxEventRow :=
  ⟨event.id, event.deliveryID, event.generation, event.traceID, event.availableAt⟩

def encodeTables (db : Database) : Tables where
  callers := db.callers.map (encodeCaller code)
  destinations := db.destinations.map encodeDestination
  destinationVersions := db.destinationVersions.map encodeVersionRow
  callerDestinations := db.callerDestinations.map encodeEntry
  others := ⟨db.deliveries.map (encodeRow code), db.outboxEvents.map encodeEvent⟩

def encodeSubmission (submission : ReliableNotifier.Submission) : Submission where
  callerID := encode submission.callerID
  idempotencyKey := encode submission.idempotencyKey
  requestHash := code submission.requestHash
  destinationID := encode submission.destinationID
  destinationVersion := submission.destinationVersion
  method := encode submission.method
  callerHeaders := some (encodeHeaders submission.callerHeaders)
  body := some submission.body
  supplierIdempotencyValue := encode submission.supplierIdempotencyValue
  acceptedAt := submission.acceptedAt
  retryDeadline := submission.retryDeadline

/-- A delivery that has not been claimed. -/
def encodeDelivery (delivery : ReliableNotifier.Delivery) : Delivery where
  id := Json.ascii (uuidText delivery.id)
  callerID := encode delivery.callerID
  destinationID := encode delivery.destinationID
  destinationVersion := delivery.destinationVersion
  method := encode delivery.method
  callerHeaders := some (encodeHeaders delivery.callerHeaders)
  body := some delivery.body
  supplierIdempotencyValue := encode delivery.supplierIdempotencyValue
  status := delivery.status
  generation := delivery.generation
  acceptedAt := delivery.acceptedAt
  retryDeadline := delivery.retryDeadline
  nextAttemptAt := delivery.nextAttemptAt
  leaseOwner := []
  leaseToken := []
  leaseUntil := none

end Encode

/-! ## Registering a configuration -/

section Register

variable {code : Digest → Vector UInt8 32} {db : Database} {callerID destinationID : String} {version : Int}

theorem any_callers : ((encodeTables code db).callers.any fun caller => caller.id = encode callerID) =
    db.callers.any fun caller => caller.id = callerID := by
  simp only [encodeTables, List.any_map, Function.comp_def, encodeCaller, encode_inj]

theorem any_destinations :
    ((encodeTables code db).destinations.any fun destination => destination.id = encode destinationID) =
      db.destinations.any fun destination => destination.id = destinationID := by
  simp only [encodeTables, List.any_map, Function.comp_def, encodeDestination, encode_inj]

theorem destinationVersion_encode : (encodeTables code db).destinationVersion (encode destinationID) version =
    (db.destinationVersions.find? fun row => row.destinationID = destinationID && row.version = version).map
      encodeVersionRow := by
  have hSame : (fun row => decide (row.destinationID = encode destinationID) && decide (row.version = version)) ∘
      encodeVersionRow = fun row => decide (row.destinationID = destinationID) && decide (row.version = version) := by
    funext row
    exact congrArg (· && decide (row.version = version)) (decide_eq_decide.mpr encode_inj)
  rw [Registry.destinationVersion, encodeTables, List.find?_map, hSame]

theorem insertCaller_corresponds (hCode : Function.Injective code) (hPlain : Plain callerID) (digest : Digest) :
    Corresponds (encodeTables code) (db.insertCaller callerID digest)
      ((encodeTables code db).insertCaller (encode callerID) (code digest).toList) := by
  have hFree : ((encodeTables code db).callers.all fun caller => caller.apiKeyHash ≠ (code digest).toList) =
      db.callers.all fun caller => caller.apiKeyHash ≠ digest := by
    simp only [encodeTables, List.all_map, Function.comp_def, encodeCaller, ne_eq, Vector.toList_inj, hCode.eq_iff]
  rw [Registry.insertCaller, isText_encode hPlain, any_callers]
  unfold Database.insertCaller
  cases db.callers.any fun caller => caller.id = callerID with
  | true => exact .ok db
  | false =>
    simp only [ensure_true_bind, Bool.false_eq_true, if_false]
    refine .ensure_bind hFree fun _ => .ok_of_eq ?_
    simp only [encodeTables, encodeCaller, List.map_append, List.map_cons, List.map_nil]

theorem caller_encode : (encodeTables code db).caller (encode callerID) =
    (db.callers.find? fun caller => caller.id = callerID).map (encodeCaller code) := by
  have hSame : (fun caller => decide (caller.id = encode callerID)) ∘ encodeCaller code =
      fun caller => decide (caller.id = callerID) := funext fun _ => decide_eq_decide.mpr encode_inj
  rw [Registry.caller, encodeTables, List.find?_map, hSame]

/-- After the insert there is one caller of that name. -/
theorem insertCaller_unique {digest : Digest} {db' : Database} (hKeys : (db.callers.map (·.id)).Nodup)
    (h : db.insertCaller callerID digest = .ok db') :
    (db'.callers.map (·.id)).Nodup ∧ ∃ row, db'.callers.find? (fun caller => caller.id = callerID) = some row := by
  unfold Database.insertCaller at h
  split at h
  · rename_i hAny
    cases h
    exact ⟨hKeys, Option.isSome_iff_exists.mp (List.find?_isSome.mpr (List.any_eq_true.mp hAny))⟩
  · rename_i hNone
    simp only [bind_ok_iff, pure_ok_iff] at h
    obtain ⟨_, _, rfl⟩ := h
    have hNew : ∀ caller ∈ db.callers, caller.id ≠ callerID := by simpa using hNone
    constructor
    · rw [List.map_append, List.nodup_append]
      refine ⟨hKeys, List.nodup_singleton _, fun id hID other hOther => ?_⟩
      obtain ⟨caller, hCaller, rfl⟩ := List.mem_map.mp hID
      rw [List.mem_singleton.mp hOther]
      exact hNew caller hCaller
    · refine ⟨_, find?_append_new (fun caller hCaller => ?_) (decide_eq_true rfl)⟩
      exact decide_eq_false (hNew caller hCaller)

/-- It is the hash of the one caller of that name that is compared. -/
theorem callerMatches_encode {digest : Digest} {row : ReliableNotifier.CallerRow} (hCode : Function.Injective code)
    (hKeys : (db.callers.map (·.id)).Nodup)
    (hRow : db.callers.find? (fun caller => caller.id = callerID) = some row) :
    (encodeTables code db).callerMatches (encode callerID) (code digest).toList =
      .ok (db.callers.any fun caller => caller.id = callerID && caller.apiKeyHash = digest) := by
  have hMem := List.mem_of_find?_eq_some hRow
  have hID : row.id = callerID := by simpa using List.find?_some hRow
  rw [Registry.callerMatches, caller_encode, hRow]
  refine congrArg Except.ok (Bool.eq_iff_iff.mpr ?_)
  simp only [encodeCaller, Vector.toList_inj, hCode.eq_iff, decide_eq_true_eq, List.any_eq_true, Bool.and_eq_true]
  constructor
  · intro hHash
    exact ⟨row, hMem, hID, hHash⟩
  · rintro ⟨caller, hCaller, hSame, hHash⟩
    rwa [List.inj_on_of_nodup_map hKeys hMem hCaller (hID.trans hSame.symm)]

theorem setCurrentVersion_encode (hPlain : Plain destinationID) (hVersion : 0 < version) :
    (encodeTables code db).setCurrentVersion (encode destinationID) version =
      .ok (encodeTables code (db.setCurrentVersion destinationID version)) := by
  rw [Registry.setCurrentVersion, isText_encode hPlain, decide_eq_true hVersion, any_destinations,
    Database.setCurrentVersion]
  cases db.destinations.any fun destination => destination.id = destinationID with
  | true =>
    refine congrArg (fun destinations => Except.ok { encodeTables code db with destinations }) ?_
    exact updateWhere_map encodeDestination (fun _ => decide_eq_decide.mpr encode_inj) (fun _ => rfl) _
  | false =>
    refine congrArg Except.ok ?_
    simp [encodeTables, encodeDestination]

variable {config : ReliableNotifier.DestinationVersion}

/-- The texts of a version are texts of PostgreSQL. -/
structure PlainVersion (config : ReliableNotifier.DestinationVersion) : Prop where
  columns : ∀ text ∈ [config.destinationID, config.url, config.networkPolicy, config.secretRef,
    config.credentialHeader, config.idempotencyHeader], Plain text
  elements : ∀ text ∈ elements config.allowedMethods ++ elements config.allowedHeaders, Plain text

theorem elements_encode (texts : Slice String) :
    elements (texts.map (List.map encode)) = (elements texts).map encode := by
  cases texts <;> rfl

theorem texts_encode (h : PlainVersion config) : (encodeVersion config).texts.all isText = true := by
  have hTexts : (encodeVersion config).texts = ([config.destinationID, config.url, config.networkPolicy,
      config.secretRef, config.credentialHeader, config.idempotencyHeader] ++ (elements config.allowedMethods ++
        elements config.allowedHeaders)).map encode := by
    simp only [DestinationVersion.texts, encodeVersion, elements_encode, List.map_append, List.append_assoc]
    rfl
  rw [hTexts, List.all_map]
  refine List.all_eq_true.mpr fun text hText => isText_encode ?_
  rcases List.mem_append.mp hText with hColumn | hElement
  · exact h.columns text hColumn
  · exact h.elements text hElement

theorem row_encode : ((encodeVersion config).row.toOption) =
    (Database.destinationVersionRow config).map encodeVersionRow := by
  rcases config with ⟨_, _, _, _, _ | methods, _ | headers, _, _, _, _ | success, _ | retry, _, _, _, _⟩ <;> rfl

theorem values_encode (row : ReliableNotifier.DestinationVersionRow) :
    ((encodeVersionRow row).inRange && (encodeVersionRow row).satisfiesChecks) =
      Database.destinationVersionValues row := by
  have hChecks : (encodeVersionRow row).satisfiesChecks = (decide (0 < row.version) &&
      decide (0 < row.connectTimeoutMS) && decide (0 < row.requestTimeoutMS) && decide (row.requestTimeoutMS ≤ 60000) &&
      decide (0 < row.ratePerSecond) && decide (0 < row.maxConcurrency)) := rfl
  rw [DestinationVersionRow.inRange, hChecks, Database.destinationVersionValues]
  by_cases hRate : 0 < row.ratePerSecond
  · rw [Bool.eq_iff_iff]
    simp only [encodeVersionRow, List.all_cons, List.all_nil, Bool.and_eq_true, decide_eq_true_eq, hRate, and_true]
    omega
  · simp only [hRate, decide_false, Bool.and_false, Bool.false_and]

theorem insertDestinationVersion_corresponds (hPlain : PlainVersion config)
    (hDestination : (db.destinations.any fun destination => destination.id = config.destinationID) = true) :
    Corresponds (encodeTables code) (db.insertDestinationVersion config)
      ((encodeTables code db).insertDestinationVersion (encodeVersion config)) := by
  have hRows := @row_encode config
  rw [Registry.insertDestinationVersion, texts_encode hPlain]
  unfold Database.insertDestinationVersion
  cases hRow : Database.destinationVersionRow config with
  | none =>
    cases hNone : (encodeVersion config).row with
    | error err => exact .error _ _
    | ok row =>
      rw [hRow, hNone] at hRows
      cases hRows
  | some row =>
    rw [hRow] at hRows
    have hOk := toOption_eq_some_iff.mp hRows
    rw [hOk]
    have hThere : ((encodeTables code db).destinationVersion (encodeVersionRow row).destinationID
        (encodeVersionRow row).version).isSome = db.destinationVersions.any fun other =>
          other.destinationID = row.destinationID && other.version = row.version := by
      rw [show (encodeVersionRow row).destinationID = encode row.destinationID from rfl, destinationVersion_encode,
        Option.isSome_map, List.isSome_find?]
      rfl
    have hOwner : ((encodeTables code db).destinations.any fun destination =>
        destination.id = (encodeVersionRow row).destinationID) = true := by
      rw [show (encodeVersionRow row).destinationID = encode row.destinationID from rfl, any_destinations]
      rwa [encode_inj.mp (DestinationVersion.key_of_row hOk).1]
    have hAdded : encodeTables code { db with destinationVersions := db.destinationVersions ++ [row] } =
        { encodeTables code db with
          destinationVersions := (encodeTables code db).destinationVersions ++ [encodeVersionRow row] } := by
      simp [encodeTables]
    simp only [ok_bind, ensure_true_bind, ← values_encode row, hThere, hOwner]
    cases (encodeVersionRow row).inRange with
    | false => exact .error _ _
    | true =>
      cases (encodeVersionRow row).satisfiesChecks with
      | false => exact .error _ _
      | true =>
        cases db.destinationVersions.any fun other =>
          other.destinationID = row.destinationID && other.version = row.version with
        | true => exact .ok db
        | false => exact .ok_of_eq hAdded

theorem queryDestinationVersion_corresponds :
    Corresponds encodeVersion (db.queryDestinationVersion destinationID version)
      ((encodeTables code db).queryDestinationVersion (encode destinationID) version) := by
  rw [Registry.queryDestinationVersion, destinationVersion_encode, Database.queryDestinationVersion]
  cases db.destinationVersions.find? fun row => row.destinationID = destinationID && row.version = version with
  | none => exact .error _ _
  | some row => exact .ok row.load

theorem encodeVersion_injective : Function.Injective encodeVersion := by
  have hTexts : Function.Injective (Option.map (List.map encode)) :=
    Option.map_injective (List.map_injective_iff.mpr fun _ _ => encode_injective)
  intro config config' h
  cases config
  cases config'
  simpa only [encodeVersion, DestinationVersion.mk.injEq, encode_inj, hTexts.eq_iff, Float64.finite.injEq,
    ReliableNotifier.DestinationVersion.mk.injEq] using h

theorem deepEqual_encode (config config' : ReliableNotifier.DestinationVersion) :
    deepEqual (encodeVersion config) (encodeVersion config') = decide (config = config') := by
  rw [Bool.eq_iff_iff, deepEqual_iff, decide_eq_true_eq, encodeVersion_injective.eq_iff]
  exact and_iff_left nofun

theorem authorize_encode (hCaller : (db.callers.any fun caller => caller.id = callerID) = true)
    (hDestination : (db.destinations.any fun destination => destination.id = destinationID) = true) :
    (encodeTables code db).authorize (encode callerID) (encode destinationID) =
      .ok (encodeTables code (db.authorize callerID destinationID)) := by
  have hThere : ((encodeTables code db).callerDestinations.any fun pair =>
      pair = (encode callerID, encode destinationID)) =
      db.callerDestinations.any fun pair => pair = (callerID, destinationID) := by
    simp only [encodeTables, List.any_map, Function.comp_def, encodeEntry, encode_inj, Prod.ext_iff]
  rw [Registry.authorize, hThere, any_callers, any_destinations, hCaller, hDestination, Database.authorize]
  cases db.callerDestinations.any fun pair => pair = (callerID, destinationID) with
  | true => rfl
  | false =>
    refine congrArg Except.ok ?_
    simp [encodeTables, encodeEntry]

theorem setCurrentVersion_there (db : Database) (destinationID : String) (version : Int) :
    (db.setCurrentVersion destinationID version).callers = db.callers ∧
      ((db.setCurrentVersion destinationID version).destinations.any fun destination =>
        destination.id = destinationID) = true := by
  unfold Database.setCurrentVersion
  split
  · rename_i hAny
    obtain ⟨destination, hMem, hID⟩ := List.any_eq_true.mp hAny
    refine ⟨rfl, List.any_eq_true.mpr ⟨{ destination with currentVersion := version }, ?_, hID⟩⟩
    exact mem_updateWhere.mpr ⟨destination, hMem, if_pos hID⟩
  · refine ⟨rfl, List.any_eq_true.mpr ⟨⟨destinationID, version⟩, ?_, decide_eq_true rfl⟩⟩
    exact List.mem_append_right _ (List.mem_singleton_self _)

theorem encode_eq_nil_iff {text : String} : encode text = [] ↔ text = "" := @encode_inj text ""

theorem isSupportedOutboundMethod_encode (method : String) :
    isSupportedOutboundMethod (encode method) = ReliableNotifier.isSupportedOutboundMethod method := by
  have hFold (a b : String) : equalFold (encode a) (encode b) = ReliableNotifier.equalFold a b := by
    have hRunes (text : String) : (runes 0 (encode text)).map (fun rune => foldRune (.ofNat (runeValue rune))) =
        text.toList.map foldRune := by
      rw [encode, runes_utf8, List.map_map]
      exact List.map_congr_left fun c _ => congrArg foldRune (ofNat_runeValue c)
    rw [equalFold, hRunes, hRunes, ReliableNotifier.equalFold]
  simp only [isSupportedOutboundMethod, hFold, ReliableNotifier.isSupportedOutboundMethod]

variable {registered : ReliableNotifier.BootstrapConfig}

theorem complete_encode_iff : (encodeConfig registered).Complete ↔
    (decide (registered.callerID ≠ "") && decide (registered.callerAPIKey ≠ "") &&
      decide (registered.destination.destinationID ≠ "") && decide (0 < registered.destination.version)) = true ∧
    ((elements registered.destination.allowedMethods).all ReliableNotifier.isSupportedOutboundMethod) = true := by
  simp only [Bool.and_eq_true, decide_eq_true_eq, List.all_eq_true]
  constructor
  · intro h
    refine ⟨⟨⟨⟨?_, ?_⟩, ?_⟩, h.version⟩, fun method hMethod => ?_⟩
    · exact fun hEmpty => h.callerID (encode_eq_nil_iff.mpr hEmpty)
    · exact fun hEmpty => h.callerAPIKey (encode_eq_nil_iff.mpr hEmpty)
    · exact fun hEmpty => h.destinationID (encode_eq_nil_iff.mpr hEmpty)
    · rw [← isSupportedOutboundMethod_encode]
      refine h.methods _ ?_
      rw [encodeConfig, encodeVersion, elements_encode]
      exact List.mem_map_of_mem hMethod
  · rintro ⟨⟨⟨⟨hCaller, hKey⟩, hID⟩, hVersion⟩, hMethods⟩
    refine ⟨?_, ?_, ?_, hVersion, fun method hMethod => ?_⟩
    · exact fun hEmpty => hCaller (encode_eq_nil_iff.mp hEmpty)
    · exact fun hEmpty => hKey (encode_eq_nil_iff.mp hEmpty)
    · exact fun hEmpty => hID (encode_eq_nil_iff.mp hEmpty)
    · rw [encodeConfig, encodeVersion, elements_encode] at hMethod
      obtain ⟨text, hText, rfl⟩ := List.mem_map.mp hMethod
      rw [isSupportedOutboundMethod_encode]
      exact hMethods text hText

/-- What `Bootstrap` does once the configuration is known to be complete. -/
theorem register_corresponds (hCode : Function.Injective code) (hKeys : (db.callers.map (·.id)).Nodup)
    (hCaller : Plain registered.callerID) (hVersion : PlainVersion registered.destination)
    (hComplete : (encodeConfig registered).Complete) (digest : Digest) :
    Corresponds (encodeTables code) (ReliableNotifier.bootstrap digest registered db)
      (register (code digest).toList (encodeConfig registered) (encodeTables code db)) := by
  -- statement by statement; a failure of either side is a failure of the other
  obtain ⟨hNames, hMethods⟩ := complete_encode_iff.mp hComplete
  have hID := hVersion.columns _ List.mem_cons_self
  rw [ReliableNotifier.bootstrap, hNames, hMethods, ensure_true_bind, ensure_true_bind, register]
  refine ((insertCaller_corresponds hCode hCaller digest).mapError _).bind fun withCaller hInsert => ?_
  obtain ⟨hUnique, row, hRow⟩ := insertCaller_unique hKeys hInsert
  have hMatches : (encodeTables code withCaller).callerMatches (encodeConfig registered).callerID (code digest).toList =
      .ok (withCaller.callers.any fun caller => caller.id = registered.callerID && caller.apiKeyHash = digest) :=
    callerMatches_encode hCode hUnique hRow
  have hSet : (encodeTables code withCaller).setCurrentVersion (encodeConfig registered).destination.destinationID
      (encodeConfig registered).destination.version = .ok (encodeTables code (withCaller.setCurrentVersion
        registered.destination.destinationID registered.destination.version)) :=
    setCurrentVersion_encode hID hComplete.version
  rw [hMatches, mapError_ok, ok_bind, hSet, mapError_ok, ok_bind]
  cases withCaller.callers.any fun caller => caller.id = registered.callerID && caller.apiKeyHash = digest with
  | false => exact .error _ _
  | true =>
    obtain ⟨hCallers, hThere⟩ := setCurrentVersion_there withCaller registered.destination.destinationID
      registered.destination.version
    refine ((insertDestinationVersion_corresponds hVersion hThere).mapError _).bind fun withVersion hInserted => ?_
    refine (queryDestinationVersion_corresponds.mapError _).bind fun existing _ => ?_
    rw [encodeConfig, deepEqual_encode]
    cases decide (existing = registered.destination) with
    | false => exact .error _ _
    | true =>
      have hKept : withVersion.callers = withCaller.callers ∧ withVersion.destinations =
          (withCaller.setCurrentVersion registered.destination.destinationID
            registered.destination.version).destinations := by
        rcases Database.insertDestinationVersion_ok hInserted with rfl | ⟨_, rfl, _⟩
        · exact ⟨hCallers, rfl⟩
        · exact ⟨hCallers, rfl⟩
      have hAuthorize : (encodeTables code withVersion).authorize (encode registered.callerID)
          (encodeVersion registered.destination).destinationID =
          .ok (encodeTables code (withVersion.authorize registered.callerID registered.destination.destinationID)) := by
        refine authorize_encode ?_ ?_
        · have hFound := List.find?_some hRow
          rw [hKept.1]
          exact List.any_eq_true.mpr ⟨row, List.mem_of_find?_eq_some hRow, hFound⟩
        · rw [hKept.2]
          exact hThere
      rw [ensure_true_bind, ensure_true_bind, hAuthorize]
      exact .ok _

/-- Where the calls get through, `Bootstrap` over bytes does to the bytes of the tables what `Bootstrap` over texts
does to the tables. -/
theorem bootstrapped_corresponds (hCode : Function.Injective code) (hKeys : (db.callers.map (·.id)).Nodup)
    (hCaller : Plain registered.callerID) (hVersion : PlainVersion registered.destination) {digest : Digest}
    {sha256 : Bytes → Bytes} (hDigest : sha256 (encode registered.callerAPIKey) = (code digest).toList)
    {server : Server SqlError} (hUp : server.Up) :
    (∃ db', ReliableNotifier.bootstrap digest registered db = .ok db' ∧
      bootstrapped server sha256 (encodeConfig registered) (encodeTables code db) = (.ok (), encodeTables code db')) ∨
    ∃ err err', ReliableNotifier.bootstrap digest registered db = .error err ∧
      bootstrapped server sha256 (encodeConfig registered) (encodeTables code db) =
        (.error err', encodeTables code db) := by
  rcases bootstrapped_cases server sha256 (encodeConfig registered) (encodeTables code db) with
    ⟨err', hOut, hRefused⟩ | ⟨_, _, _, _, hDown, _⟩ | ⟨t', hOut, hComplete, hRegister⟩
  · cases hTexts : ReliableNotifier.bootstrap digest registered db with
    | error err => exact .inr ⟨err, err', rfl, hOut⟩
    | ok db' =>
      have hComplete : (encodeConfig registered).Complete := by
        simp only [ReliableNotifier.bootstrap, bind_ok_iff, ensure_ok_iff] at hTexts
        obtain ⟨_, hNames, _, hMethods, _⟩ := hTexts
        exact complete_encode_iff.mpr ⟨hNames, hMethods⟩
      have hSame := register_corresponds hCode hKeys hCaller hVersion hComplete digest
      rw [hTexts, ← hDigest] at hSame
      exact absurd hSame.of_ok (hRefused hUp hComplete _)
  · exact absurd hUp hDown
  · have hSame := register_corresponds hCode hKeys hCaller hVersion hComplete digest
    rw [← hDigest] at hSame
    obtain ⟨db', hTexts, rfl⟩ := (hRegister ▸ hSame).exists_of_ok
    exact .inl ⟨db', hTexts, hOut⟩

end Register

/-! ## Accepting a submission -/

section Accept

variable {code : Digest → Vector UInt8 32} {db : Database}

theorem byKey_encode (callerID idempotencyKey : String) :
    (encodeTables code db).queryDelivery (fun row =>
        row.callerID = encode callerID && row.idempotencyKey = encode idempotencyKey) =
      (db.deliveryByIdempotency callerID idempotencyKey).map fun row =>
        (encodeDelivery row.load, (code row.requestHash).toList) := by
  have hSame : (fun row => decide (row.callerID = encode callerID) &&
      decide (row.idempotencyKey = encode idempotencyKey)) ∘ encodeRow code =
      fun row => decide (row.callerID = callerID) && decide (row.idempotencyKey = idempotencyKey) := by
    funext row
    exact congrArg₂ (· && ·) (decide_eq_decide.mpr encode_inj) (decide_eq_decide.mpr encode_inj)
  rw [Tables.queryDelivery, encodeTables, List.find?_map, hSame, Option.map_map]
  rfl

theorem activeCount_encode : (encodeTables code db).activeCount = db.activeCount := by
  rw [Tables.activeCount, encodeTables, List.countP_map]
  rfl

theorem uuidText_characters {id : UUID} {c : Char} (h : c ∈ (uuidText id).toList) : c.toNat ≠ 0 ∧ c.toNat < 0x80 := by
  have hDigit : ∀ k < 16, (Nat.digitChar k).toNat ≠ 0 ∧ (Nat.digitChar k).toNat < 0x80 := by
    decide
  rcases Wire.uuidText_digits c h with rfl | ⟨k, hk, rfl⟩
  · decide
  · exact hDigit k hk

theorem encode_uuidText (id : UUID) : encode (uuidText id) = Json.ascii (uuidText id) := by
  rw [encode, utf8, Json.ascii, List.map_eq_flatMap]
  exact List.flatMap_congr fun c hc => encodeRune_ascii (uuidText_characters hc).2

/-- The names and values of the headers are texts of PostgreSQL. -/
def PlainHeaders (headers : Headers) : Prop := ∀ entry ∈ headers.entries, Plain entry.1 ∧ Plain entry.2

theorem input_encodeHeaders {headers : Headers} (h : PlainHeaders headers) :
    Jsonb.input (marshalHeaders (some (encodeHeaders headers))) = .ok (.object (encodeHeaders headers)) := by
  have hEntries : ∀ entry ∈ (encodeHeaders headers).entries, isText entry.1 = true ∧ isText entry.2 = true := by
    intro entry hEntry
    rcases SortedMap.mem_of_mem_fill hEntry with hNew | hOld
    · obtain ⟨pair, hPair, rfl⟩ := List.mem_map.mp hNew
      exact ⟨isText_encode (h pair hPair).1, isText_encode (h pair hPair).2⟩
    · cases hOld
  have hValid : ∀ entry ∈ (encodeHeaders headers).entries, validString entry.1 = true ∧ validString entry.2 = true := by
    intro entry hEntry
    obtain ⟨hName, hValue⟩ := hEntries entry hEntry
    exact ⟨(Bool.and_eq_true_iff.mp hName).1, (Bool.and_eq_true_iff.mp hValue).1⟩
  have hZero : ((encodeHeaders headers).entries.all fun entry => (entry.1 ++ entry.2).all (· ≠ 0)) = true := by
    refine List.all_eq_true.mpr fun entry hEntry => ?_
    obtain ⟨hName, hValue⟩ := hEntries entry hEntry
    rw [List.all_append, (Bool.and_eq_true_iff.mp hName).2, (Bool.and_eq_true_iff.mp hValue).2]
    rfl
  have hKept : SortedMap.fill .empty (encodeHeaders headers).entries = encodeHeaders headers :=
    SortedMap.eq_of_perm (SortedMap.perm_fill_empty (encodeHeaders headers).nodup_keys)
  rw [marshalHeaders, Jsonb.input, Json.document_of_reads (Json.reads_marshalMap _)]
  simp only [Json.stringMembers_members, Json.map_replaceInvalid hValid, hZero, ensure_true_bind, hKept]
  rfl

theorem uuidInput_newUUID (random : Vector UInt8 16) :
    uuidInput (Wire.newUUID random) = .ok (Wire.uuidValue (Wire.newUUID random)) := by
  rw [uuidInput, Wire.validUUID_iff.mpr (Wire.uuidForm_newUUID random)]
  rfl

/-- The submission with the value that the supplier recognises repeats by. -/
def supplied (submission : ReliableNotifier.Submission) (id : UUID) : ReliableNotifier.Submission :=
  { submission with supplierIdempotencyValue := submission.supplierValue id }

theorem withSupplierValue_encode (submission : ReliableNotifier.Submission) (random : Vector UInt8 16) :
    (encodeSubmission code submission).withSupplierValue (Wire.newUUID random) =
      encodeSubmission code (supplied submission (Wire.uuidValue (Wire.newUUID random))) := by
  have hText : encode (uuidText (Wire.uuidValue (Wire.newUUID random))) = Wire.newUUID random :=
    (encode_uuidText _).trans (Wire.uuidText_newUUID random)
  have hNone : (encodeSubmission code submission).supplierIdempotencyValue = [] ↔
      submission.supplierIdempotencyValue = "" := encode_eq_nil_iff
  rw [Submission.withSupplierValue, supplied, ReliableNotifier.Submission.supplierValue]
  by_cases hEmpty : submission.supplierIdempotencyValue = ""
  · rw [if_pos (hNone.mpr hEmpty), if_pos hEmpty, encodeSubmission, encodeSubmission, hText]
  · rw [if_neg fun h => hEmpty (hNone.mp h), if_neg hEmpty]

variable {submission : ReliableNotifier.Submission}

/-- The texts of a submission are texts of PostgreSQL. -/
structure PlainSubmission (submission : ReliableNotifier.Submission) : Prop where
  columns : ∀ text ∈ [submission.callerID, submission.idempotencyKey, submission.destinationID, submission.method,
    submission.supplierIdempotencyValue], Plain text
  headers : PlainHeaders submission.callerHeaders

theorem plain_supplierValue (h : PlainSubmission submission) (id : UUID) : Plain (submission.supplierValue id) := by
  unfold ReliableNotifier.Submission.supplierValue
  split
  · exact fun c hc => (uuidText_characters hc).1
  · exact h.columns _ (by simp)

theorem texts_supplied (h : PlainSubmission submission) (id : UUID) :
    [encode submission.callerID, encode submission.idempotencyKey, encode submission.destinationID,
      encode submission.method, encode (submission.supplierValue id)].all isText = true := by
  have hColumns := h.columns
  simp only [List.forall_mem_cons] at hColumns
  obtain ⟨hCaller, hKey, hDestination, hMethod, _⟩ := hColumns
  simp only [List.all_cons, List.all_nil, isText_encode hCaller, isText_encode hKey, isText_encode hDestination,
    isText_encode hMethod, isText_encode (plain_supplierValue h id), Bool.and_true]

theorem insertDelivery_corresponds (h : PlainSubmission submission) (r : Readings) (random : Vector UInt8 16) :
    Corresponds (encodeTables code) (db.insertDelivery (submission.row r (Wire.uuidValue (Wire.newUUID random))))
      ((encodeTables code db).insertDelivery (Wire.newUUID random)
        (encodeSubmission code (supplied submission (Wire.uuidValue (Wire.newUUID random))))
        (marshalHeaders (some (encodeHeaders submission.callerHeaders)))) := by
  generalize hID : Wire.uuidValue (Wire.newUUID random) = id
  have hIDs : ((encodeTables code db).others.deliveries.all fun other => other.id ≠ id) =
      db.deliveries.all fun other => other.id ≠ id := by
    rw [encodeTables, List.all_map]
    rfl
  have hKeys : ((encodeTables code db).others.deliveries.all fun other =>
      !(other.callerID = encode submission.callerID && other.idempotencyKey = encode submission.idempotencyKey)) =
      db.deliveries.all fun other => other.callerID ≠ submission.callerID ||
        other.idempotencyKey ≠ submission.idempotencyKey := by
    simp only [encodeTables, List.all_map, Function.comp_def, encodeRow, encode_inj, Bool.not_and, decide_not, ne_eq]
  have hVersion : ((encodeTables code db).destinationVersion (encode submission.destinationID)
      submission.destinationVersion).isSome = db.destinationVersions.any fun version =>
        version.destinationID = submission.destinationID && version.version = submission.destinationVersion := by
    rw [destinationVersion_encode, Option.isSome_map, List.isSome_find?]
  have hAdded (row : ReliableNotifier.DeliveryRow) :
      encodeTables code { db with deliveries := db.deliveries ++ [row] } =
        { encodeTables code db with
          others := ⟨(encodeTables code db).others.deliveries ++ [encodeRow code row],
            (encodeTables code db).others.outboxEvents⟩ } := by
    simp only [encodeTables, List.map_append, List.map_cons, List.map_nil]
  rw [Tables.insertDelivery, uuidInput_newUUID, hID, ok_bind, Database.insertDelivery]
  simp only [encodeSubmission, supplied, texts_supplied h, ensure_true_bind, input_encodeHeaders h.headers, ok_bind,
    notNull]
  refine .ensure_bind hIDs fun _ => .ensure_bind hKeys fun _ => .ensure_bind any_callers fun _ =>
    .ensure_bind hVersion fun _ => ?_
  exact .ok_of_eq (hAdded (submission.row r id))

theorem insertEvent_corresponds (r : Readings) (delivery outbox trace : Vector UInt8 16) :
    Corresponds (encodeTables code)
      (db.insertEvent (submission.event r (Wire.uuidValue (Wire.newUUID delivery))
        (Wire.uuidValue (Wire.newUUID outbox)) (Wire.uuidValue (Wire.newUUID trace))))
      ((encodeTables code db).insertEvent (Wire.newUUID outbox) (Wire.newUUID delivery) (Wire.newUUID trace)
        submission.acceptedAt) := by
  rw [Tables.insertEvent, uuidInput_newUUID, uuidInput_newUUID, uuidInput_newUUID, ok_bind, ok_bind, ok_bind,
    Database.insertEvent]
  generalize Wire.uuidValue (Wire.newUUID delivery) = deliveryID
  generalize Wire.uuidValue (Wire.newUUID outbox) = outboxID
  generalize Wire.uuidValue (Wire.newUUID trace) = traceID
  have hIDs : ((encodeTables code db).others.outboxEvents.all fun other => other.id ≠ outboxID) =
      db.outboxEvents.all fun other => other.id ≠ outboxID := by
    rw [encodeTables, List.all_map]
    rfl
  have hSlots : ((encodeTables code db).others.outboxEvents.all fun other =>
      !(other.deliveryID = deliveryID && other.generation = 0)) =
      db.outboxEvents.all fun other => !(submission.event r deliveryID outboxID traceID).sameSlot other := by
    rw [encodeTables, List.all_map]
    refine congrArg (db.outboxEvents.all ·) (funext fun other => ?_)
    exact congrArg (!·) (congrArg₂ (· && ·) (decide_eq_decide.mpr eq_comm) (decide_eq_decide.mpr eq_comm))
  have hOwner : ((encodeTables code db).others.deliveries.any fun row => row.id = deliveryID) =
      db.deliveries.any fun row => row.id = deliveryID := by
    rw [encodeTables, List.any_map]
    rfl
  have hAdded (event : ReliableNotifier.OutboxEventRow) :
      encodeTables code { db with outboxEvents := db.outboxEvents ++ [event] } =
        { encodeTables code db with
          others := ⟨(encodeTables code db).others.deliveries,
            (encodeTables code db).others.outboxEvents ++ [encodeEvent event]⟩ } := by
    simp only [encodeTables, List.map_append, List.map_cons, List.map_nil]
  refine .ensure_bind hIDs fun _ => .ensure_bind hSlots fun _ => .ensure_bind hOwner fun _ => ?_
  exact .ok_of_eq (hAdded (submission.event r deliveryID outboxID traceID))

def encodeAnswer (code : Digest → Vector UInt8 32) (result : ReliableNotifier.Delivery × Database) :
    Delivery × Tables :=
  (encodeDelivery result.1, encodeTables code result.2)

theorem queryDeliveryByIdempotency_encode (h : PlainSubmission submission) :
    (encodeTables code db).queryDeliveryByIdempotency (encode submission.callerID) (encode submission.idempotencyKey) =
      .ok ((db.deliveryByIdempotency submission.callerID submission.idempotencyKey).map fun row =>
        (encodeDelivery row.load, (code row.requestHash).toList)) := by
  have hColumns := h.columns
  simp only [List.forall_mem_cons] at hColumns
  rw [Tables.queryDeliveryByIdempotency, isText_encode hColumns.1, isText_encode hColumns.2.1, byKey_encode]
  rfl

/-- The answer to a submission whose key is new. -/
theorem answer_none_corresponds (h : PlainSubmission submission) (r : Readings) (backlogLimit : Int)
    (delivery outbox trace : Vector UInt8 16) :
    Corresponds (encodeAnswer code)
      (if backlogLimit ≤ db.activeCount then .error .backlogCapacity
        else do
          let db ← db.insertSubmission r submission (Wire.uuidValue (Wire.newUUID delivery))
            (Wire.uuidValue (Wire.newUUID outbox)) (Wire.uuidValue (Wire.newUUID trace))
          return (submission.accepted (Wire.uuidValue (Wire.newUUID delivery)), db) : Except StoreError _)
      (answer backlogLimit ⟨some delivery, some outbox, some trace⟩ (encodeSubmission code submission) none
        (encodeTables code db)) := by
  rw [answer, activeCount_encode]
  by_cases hFull : backlogLimit ≤ db.activeCount
  · rw [if_pos hFull, decide_eq_false (not_lt.mpr hFull)]
    exact .error _ _
  · have hID : (submission.accepted (Wire.uuidValue (Wire.newUUID delivery))).id =
        Wire.uuidValue (Wire.newUUID delivery) := rfl
    rw [if_neg hFull, decide_eq_true (not_le.mp hFull), ensure_true_bind, Database.insertSubmission, bind_assoc]
    simp only [newUUID, ok_bind, withSupplierValue_encode]
    refine ((insertDelivery_corresponds h r delivery).mapError _).bind fun withDelivery _ => ?_
    refine ((insertEvent_corresponds r delivery outbox trace).mapError _).bind fun withEvent _ => .ok_of_eq ?_
    refine Prod.ext ?_ rfl
    rw [encodeAnswer, encodeDelivery, hID, Wire.uuidText_newUUID]
    rfl

theorem accept_corresponds (hCode : Function.Injective code) (h : PlainSubmission submission) (r : Readings)
    (backlogLimit : Int) (delivery outbox trace : Vector UInt8 16) :
    Corresponds (encodeAnswer code)
      (ReliableNotifier.submit r backlogLimit submission (Wire.uuidValue (Wire.newUUID delivery))
        (Wire.uuidValue (Wire.newUUID outbox)) (Wire.uuidValue (Wire.newUUID trace)) db)
      (accept backlogLimit ⟨some delivery, some outbox, some trace⟩ (encodeSubmission code submission)
        (encodeTables code db)) := by
  have hFound : (encodeTables code db).queryDeliveryByIdempotency (encodeSubmission code submission).callerID
      (encodeSubmission code submission).idempotencyKey = _ := queryDeliveryByIdempotency_encode h
  rw [accept, hFound, mapError_ok, ok_bind, ReliableNotifier.submit]
  cases db.deliveryByIdempotency submission.callerID submission.idempotencyKey with
  | none => exact answer_none_corresponds h r backlogLimit delivery outbox trace
  | some existing =>
    have hHash : decide ((code existing.requestHash).toList = (code submission.requestHash).toList) =
        decide (existing.requestHash = submission.requestHash) :=
      decide_eq_decide.mpr (Vector.toList_inj.trans hCode.eq_iff)
    change Corresponds _ (if existing.requestHash ≠ submission.requestHash then _ else _)
      (ensure (decide ((code existing.requestHash).toList = (code submission.requestHash).toList)) _ >>= _)
    rw [hHash]
    by_cases hSame : existing.requestHash = submission.requestHash
    · rw [if_neg (not_not.mpr hSame), decide_eq_true hSame]
      exact .ok (existing.load, db)
    · rw [if_pos hSame, decide_eq_false hSame]
      exact .error _ _

/-- Where the calls get through, `Submit` over bytes gives the bytes of the answer that `Submit` over texts gives, and
does to the bytes of the tables what that does to the tables. -/
theorem submitted_corresponds (hCode : Function.Injective code) (h : PlainSubmission submission) (r : Readings)
    (backlogLimit : Int) (delivery outbox trace : Vector UInt8 16) {server : Server SqlError} (hUp : server.Up) :
    (∃ reply db', ReliableNotifier.submit r backlogLimit submission (Wire.uuidValue (Wire.newUUID delivery))
        (Wire.uuidValue (Wire.newUUID outbox)) (Wire.uuidValue (Wire.newUUID trace)) db = .ok (reply, db') ∧
      submitted server backlogLimit ⟨some delivery, some outbox, some trace⟩ (encodeSubmission code submission)
        (encodeTables code db) = (.ok (encodeDelivery reply), encodeTables code db')) ∨
    ∃ err err', ReliableNotifier.submit r backlogLimit submission (Wire.uuidValue (Wire.newUUID delivery))
        (Wire.uuidValue (Wire.newUUID outbox)) (Wire.uuidValue (Wire.newUUID trace)) db = .error err ∧
      submitted server backlogLimit ⟨some delivery, some outbox, some trace⟩ (encodeSubmission code submission)
        (encodeTables code db) = (.error err', encodeTables code db) := by
  have hSame := @accept_corresponds code db submission hCode h r backlogLimit delivery outbox trace
  rcases submitted_cases server backlogLimit ⟨some delivery, some outbox, some trace⟩ (encodeSubmission code submission)
    (encodeTables code db) with ⟨err', hOut, hRefused⟩ | ⟨_, _, _, hDown⟩ | ⟨answered, t', hOut, hAccept⟩
  · rw [hRefused hUp] at hSame
    obtain ⟨err, hTexts⟩ := hSame.exists_of_error
    exact .inr ⟨err, err', hTexts, hOut⟩
  · exact absurd hUp hDown
  · rw [hAccept] at hSame
    obtain ⟨⟨reply, db'⟩, hTexts, hAnswer⟩ := hSame.exists_of_ok
    rw [encodeAnswer] at hAnswer
    obtain ⟨rfl, rfl⟩ := Prod.mk.inj hAnswer
    exact .inl ⟨reply, db', hTexts, hOut⟩

end Accept

end ReliableNotifier.Raw
