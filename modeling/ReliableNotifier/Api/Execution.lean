import ReliableNotifier.Api.Server
import ReliableNotifier.Outbound.Agreement
import ReliableNotifier.Wire.UUID

/-! # Computed runs of the API

A script lets requests arrive and has the store serve their next calls, at once and at a
standing clock.
-/

namespace ReliableNotifier.Api

open Checked Interleaving

inductive Command where
  | commit (t : Time) (op : Op)
  | appoint (operatorID : String)
  | arrive (i : Nat) (request : Request)
  | next (i : Nat) (t : Time) (acceptedAt : GoTime) (ids : UUID × UUID × UUID)

/-- The store serves a call at `t`, which commits `op` or is refused. -/
def serve (i : Nat) (s : Shared) (t : Time) (op : Op) (answer : Readings → Except StoreError Delivery)
    (after : Except StoreError Delivery → Handler) : Option (Label × Shared × Handler) :=
  match answer (.instant t) with
  | .ok value => (s.store.perform t op).map fun store =>
    (.commit (some i) (.instant t) op s.store.db store.db, { s with store := store }, after (.ok value))
  | .error err => if s.store.now ≤ t then some (.quiet, s.wait t, after (.error err)) else none

def proceed (platform : Platform) (i : Nat) (s : Shared) (t : Time) (acceptedAt : GoTime)
    (ids : UUID × UUID × UUID) : Handler → Option (Label × Shared × Handler)
  | .working request .authenticating =>
    (bearer request.authorization).bind fun apiKey =>
      if s.store.now ≤ t then some (.quiet, s.wait t,
        afterAuthenticate request (s.store.db.authenticatePrincipal (platform.digest apiKey) s.operators))
      else none
  | .working (.submit authorization key body) (.resolving callerID) =>
    if s.store.now ≤ t then some (.quiet, s.wait t, afterResolve (.submit authorization key body)
      (admission platform callerID key body (s.store.db.authorizedDestination callerID) acceptedAt))
    else none
  | .working request (.submitting submission) =>
    serve i s t (.submit platform.backlogLimit submission ids.1 ids.2.1 ids.2.2)
      (fun r => Prod.fst <$> submit r platform.backlogLimit submission ids.1 ids.2.1 ids.2.2 s.store.db)
      (afterSubmit request)
  | .working (.get authorization id) (.getting callerID) =>
    (platform.parseUUID id).bind fun deliveryID =>
      if s.store.now ≤ t then some (.quiet, s.wait t,
        afterGet (.get authorization id) callerID (s.store.db.get callerID deliveryID))
      else none
  | .working request (.listing callerID delivery) =>
    if s.store.now ≤ t then some (.quiet, s.wait t, .answered request
      (found delivery (s.store.db.listAttemptSummaries callerID delivery.id statusAttemptLimit)))
    else none
  | .working (.replay authorization id body) (.replaying operatorID reason) =>
    (platform.parseUUID id).bind fun deliveryID =>
      serve i s t (.replay t deliveryID operatorID reason ids.1 ids.2.1 ids.2.2)
        (fun r => Prod.fst <$> replay t r deliveryID operatorID reason ids.1 ids.2.1 ids.2.2 s.store.db)
        (afterReplay (.replay authorization id body))
  | _ => none

def execute (platform : Platform) (w : World) : Command → Option (Label × World)
  | .commit t op => (w.shared.store.perform t op).map fun store =>
    (.commit none (.instant t) op w.shared.store.db store.db, { w with shared := { w.shared with store := store } })
  | .appoint operatorID =>
    some (.quiet, { w with shared := { w.shared with operators := fun callerID => callerID = operatorID } })
  | .arrive i request => match w.procs i with
    | .idle => some (.quiet, ⟨w.shared, Function.update w.procs i (.working request .authenticating)⟩)
    | _ => none
  | .next i t acceptedAt ids => (proceed platform i w.shared t acceptedAt ids (w.procs i)).map fun next =>
    (next.1, ⟨next.2.1, Function.update w.procs i next.2.2⟩)

variable {platform : Platform} {i : Nat} {s s' : Shared} {x x' : Handler} {t : Time} {label : Label}

theorem served_of_serve {op : Op} {answer : Readings → Except StoreError Delivery}
    {after : Except StoreError Delivery → Handler} (h : serve i s t op answer after = some (label, s', x')) :
    ∃ reply action store, Served s.store op answer reply action store ∧
      label = .of (some i) s.store.db store.db action ∧ s' = { s with store := store } ∧ x' = after reply := by
  unfold serve at h
  split at h
  · rename_i value hAnswer
    obtain ⟨store, hStore, hPair⟩ := Option.map_eq_some_iff.mp h
    cases hPair
    exact ⟨_, _, store, .done (Store.step_of_perform hStore) hAnswer, rfl, rfl, rfl⟩
  · rename_i err hAnswer
    split at h
    · rename_i hClock
      cases h
      exact ⟨_, _, _, .refused (r := .instant t) hClock hAnswer, rfl, rfl, rfl⟩
    · cases h

theorem act_of_proceed {acceptedAt : GoTime} {ids : UUID × UUID × UUID}
    (h : proceed platform i s t acceptedAt ids x = some (label, s', x')) : Act platform i s x label s' x' := by
  unfold proceed at h
  split at h
  · obtain ⟨apiKey, hKey, h⟩ := Option.bind_eq_some_iff.mp h
    split at h
    · cases h
      exact .authenticate hKey ‹_›
    · cases h
  · split at h
    · cases h
      exact .resolve ‹_›
    · cases h
  · obtain ⟨_, _, _, hServed, rfl, rfl, rfl⟩ := served_of_serve h
    exact .submit hServed
  · obtain ⟨deliveryID, hID, h⟩ := Option.bind_eq_some_iff.mp h
    split at h
    · cases h
      exact .get hID ‹_›
    · cases h
  · split at h
    · cases h
      exact .list ‹_›
    · cases h
  · obtain ⟨deliveryID, hID, h⟩ := Option.bind_eq_some_iff.mp h
    obtain ⟨_, _, _, hServed, rfl, rfl, rfl⟩ := served_of_serve h
    exact .replay hID hServed
  · cases h

theorem step_of_execute {w w' : World} {command : Command} (h : execute platform w command = some (label, w')) :
    Step platform w label w' := by
  cases command with
  | commit t op =>
    obtain ⟨store, hStore, hPair⟩ := Option.map_eq_some_iff.mp h
    cases hPair
    exact .env (.store (Store.step_of_perform hStore))
  | appoint operatorID =>
    cases h
    exact .env (.appoint _)
  | arrive i request =>
    simp only [execute] at h
    split at h
    · rename_i hHere
      cases h
      exact .act i (hHere ▸ .arrive request)
    · cases h
  | next i t acceptedAt ids =>
    obtain ⟨⟨label, shared, x⟩, hNext, hPair⟩ := Option.map_eq_some_iff.mp h
    cases hPair
    exact .act i (act_of_proceed hNext)

theorem later_of_play {w w' : World} {history : List Label} {script : List Command}
    (h : LabelledRun.play (execute platform) [] w script = some (history, w')) :
    LabelledRun.Run (Step platform) w history w' :=
  LabelledRun.run_of_play step_of_execute .refl h

theorem run_of_play {w : World} {t : Time} {history : List Label} {script : List Command}
    (h : LabelledRun.play (execute platform) [] (start t) script = some (history, w)) : Run platform history w :=
  ⟨t, later_of_play h⟩

end ReliableNotifier.Api

namespace ReliableNotifier.Sample

open Api

/-! Two callers, and submissions of the first that go through. -/

def apiPlatform : Platform where
  tables := caseTables
  order := mapOrder
  requestHash _ := .ok 7
  digest apiKey := if apiKey = "key" then 3 else 4
  parseUUID text := some (uuidNumber text)
  backlogLimit := 10

def otherConfig : BootstrapConfig := { config with callerID := "stranger" }

def orderRequest (idempotencyKey : String) : Request :=
  .submit "Bearer key" idempotencyKey (.ok ⟨"orders", "post", some .empty, some []⟩)

def acceptedScript : List Command :=
  [.commit 1 (.bootstrap 3 config), .commit 1 (.bootstrap 4 otherConfig), .arrive 0 (orderRequest "order-1"),
   .next 0 2 0 (0, 0, 0), .next 0 3 5000 (0, 0, 0), .next 0 4 0 (100, 101, 102)]

/-- The caller repeats itself with blanks around the key. -/
def repeatedScript : List Command :=
  acceptedScript ++ [.arrive 1 (orderRequest " order-1 "), .next 1 5 0 (0, 0, 0), .next 1 6 9000 (0, 0, 0),
    .next 1 7 0 (200, 201, 202)]

/-- The hash is the length of the body. -/
def lengthPlatform : Platform := { apiPlatform with requestHash := fun input => .ok input.body.length }

/-- The caller uses its key for another body. -/
def conflictScript : List Command :=
  acceptedScript ++ [.arrive 1 (.submit "Bearer key" "order-1" (.ok ⟨"orders", "post", some .empty, some [1]⟩)),
    .next 1 5 0 (0, 0, 0), .next 1 6 9000 (0, 0, 0), .next 1 7 0 (200, 201, 202)]

/-- A worker delivers what was submitted. -/
def succeededScript : List Command :=
  acceptedScript ++ [.commit 8 (.claimDelivery 100 0 "worker" 90000000000 104),
    .commit 9 (.complete .success result 105)]

def attempt : AttemptRow := result.row .succeeded 105

def succeeded : Delivery := { (submission.row (.instant 4) 100).load with status := .succeeded }

def replayRequest : Request := .replay "Bearer key" (uuidText 100) (some " repaired ")

/-- The supplier refuses for good, and the caller, made an operator, replays. -/
def replayedScript : List Command :=
  acceptedScript ++ [.commit 8 (.claimDelivery 100 0 "worker" 90000000000 104),
    .commit 9 (.complete .permanent result 105), .appoint "shop", .arrive 1 replayRequest,
    .next 1 10 0 (0, 0, 0), .next 1 11 0 (110, 111, 112)]

def replayed : Delivery := ((submission.row (.instant 4) 100).replay 11).load

def getScript (i : Nat) (authorization : String) : List Command :=
  [.arrive i (.get authorization (uuidText 100)), .next i 20 0 (0, 0, 0), .next i 21 0 (0, 0, 0),
   .next i 22 0 (0, 0, 0)]

end ReliableNotifier.Sample
