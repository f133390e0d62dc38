import ReliableNotifier.Store.Submit
import ReliableNotifier.Store.Worker
import ReliableNotifier.Store.Maintenance

/-! # Runs of the store operations

An operation that commits is one step on the database; one that fails leaves the
database as it was and is no step at all. The clock never goes back, and the
identifiers drawn by an operation were never drawn before.
-/

namespace ReliableNotifier

open RowTable

inductive Completion where
  | success
  | retry (nextAttemptAt : GoTime)
  | permanent
  deriving DecidableEq

namespace Completion

def resultClass : Completion → ResultClass
  | .success => .succeeded
  | .retry _ => .retryableFailure
  | .permanent => .permanentFailure

def nextAttemptAt : Completion → Option GoTime
  | .retry next => some next
  | _ => none

end Completion

inductive Op where
  | bootstrap (apiKeyHash : Digest) (config : BootstrapConfig)
  | submit (backlogLimit : Int) (submission : Submission) (deliveryID outboxID traceID : UUID)
  | claimOutbox (owner : String) (leaseDuration : Duration) (limit : Int) (locked : UUID → Bool) (token : UUID)
  | markOutboxPublished (event : OutboxEvent)
  | releaseOutbox (event : OutboxEvent)
  | observeSignal (deliveryID : UUID) (generation : Nat)
  | claimDelivery (deliveryID : UUID) (generation : Nat) (owner : String) (leaseDuration : Duration)
      (token : UUID)
  | complete (completion : Completion) (result : AttemptResult) (attemptID : UUID)
  | scheduleDueRetries (limit : Int) (locked : UUID → Bool) (eventIDs traceIDs : UUID → UUID)
  | recoverExpiredDeliveries (limit : Int) (locked : UUID → Bool) (attemptIDs eventIDs traceIDs : UUID → UUID)
  | reconcileStalledSignals (watchdog : Duration) (limit : Int) (locked : UUID → Bool) (traceIDs : UUID → UUID)
  | replay (replayedAt : Time) (deliveryID : UUID) (operatorID reason : String)
      (auditID outboxID traceID : UUID)
  | deleteExpiredTerminal (successRetention failureRetention : Duration) (limit : Int) (locked : UUID → Bool)

namespace Op

def apply (r : Readings) (db : Database) : Op → Except StoreError Database
  | bootstrap apiKeyHash config => ReliableNotifier.bootstrap apiKeyHash config db
  | submit backlogLimit submission deliveryID outboxID traceID =>
    Prod.snd <$> ReliableNotifier.submit r backlogLimit submission deliveryID outboxID traceID db
  | claimOutbox owner leaseDuration limit locked token =>
    Prod.snd <$> ReliableNotifier.claimOutbox r owner leaseDuration limit locked token db
  | markOutboxPublished event => ReliableNotifier.markOutboxPublished r event db
  | releaseOutbox event => ReliableNotifier.releaseOutbox event db
  | observeSignal deliveryID generation => ReliableNotifier.observeSignal r deliveryID generation db
  | claimDelivery deliveryID generation owner leaseDuration token =>
    Prod.snd <$> ReliableNotifier.claimDelivery r deliveryID generation owner leaseDuration token db
  | complete .success result attemptID => completeSuccess r result attemptID db
  | complete (.retry next) result attemptID => completeRetry r result next attemptID db
  | complete .permanent result attemptID => completePermanent r result attemptID db
  | scheduleDueRetries limit locked eventIDs traceIDs =>
    ReliableNotifier.scheduleDueRetries r limit locked eventIDs traceIDs db
  | recoverExpiredDeliveries limit locked attemptIDs eventIDs traceIDs =>
    ReliableNotifier.recoverExpiredDeliveries r limit locked attemptIDs eventIDs traceIDs db
  | reconcileStalledSignals watchdog limit locked traceIDs =>
    ReliableNotifier.reconcileStalledSignals r watchdog limit locked traceIDs db
  | replay replayedAt deliveryID operatorID reason auditID outboxID traceID =>
    Prod.snd <$> ReliableNotifier.replay replayedAt r deliveryID operatorID reason auditID outboxID traceID db
  | deleteExpiredTerminal successRetention failureRetention limit locked =>
    Prod.snd <$> ReliableNotifier.deleteExpiredTerminal r successRetention failureRetention limit locked db

theorem apply_complete {r : Readings} {db db' : Database} {completion : Completion} {result : AttemptResult}
    {attemptID : UUID} (h : (complete completion result attemptID).apply r db = .ok db') :
    completeResult r result completion.resultClass completion.nextAttemptAt attemptID db = .ok db' := by
  cases completion <;> exact h

/-- The identifiers an operation draws from `newUUID` and `gen_random_uuid`. -/
def generated (r : Readings) (db : Database) : Op → List UUID
  | submit _ _ deliveryID outboxID traceID => [deliveryID, outboxID, traceID]
  | claimOutbox _ _ _ _ token => [token]
  | claimDelivery _ _ _ _ token => [token]
  | complete _ _ attemptID => [attemptID]
  | scheduleDueRetries limit locked eventIDs traceIDs =>
    let rows := dueDeliveries r limit locked db
    rows.map (fun row => eventIDs row.id) ++ rows.map (fun row => traceIDs row.id)
  | recoverExpiredDeliveries limit locked attemptIDs eventIDs traceIDs =>
    let rows := expiredDeliveries r limit locked db
    rows.map (fun row => attemptIDs row.id) ++
      (rows.map (fun row => eventIDs row.id) ++ rows.map (fun row => traceIDs row.id))
  | reconcileStalledSignals watchdog limit locked traceIDs =>
    (stalledEvents r watchdog limit locked db).map fun row => traceIDs row.id
  | replay _ _ _ _ auditID outboxID traceID => [auditID, outboxID, traceID]
  | _ => []

/-- A replay stamps rows with an instant read earlier in its own transaction. -/
def Timely (r : Readings) : Op → Prop
  | replay replayedAt .. => replayedAt ≤ r.statement
  | _ => True

/-- `Timely` at a standing clock. -/
def timely (t : Time) : Op → Bool
  | replay replayedAt .. => replayedAt ≤ t
  | _ => true

theorem timely_iff {t : Time} {op : Op} : op.timely t = true ↔ op.Timely (.instant t) := by
  cases op <;> simp [timely, Timely, Readings.instant]

end Op

structure Store where
  db : Database
  now : Time
  issued : List UUID

namespace Store

inductive Action where
  | wait
  | commit (r : Readings) (op : Op)

inductive Step : Store → Action → Store → Prop
  | wait {s : Store} {t : Time} (hClock : s.now ≤ t) : Step s .wait { s with now := t }
  | commit {s : Store} {r : Readings} {op : Op} {db : Database} (hClock : s.now ≤ r.statement)
      (hTimely : op.Timely r)
      (hFresh : (op.generated r s.db).Nodup ∧ ∀ id ∈ op.generated r s.db, id ∉ s.issued)
      (hApply : op.apply r s.db = .ok db) :
      Step s (.commit r op) ⟨db, r.finish, op.generated r s.db ++ s.issued⟩

def start (t : Time) : Store := ⟨.empty, t, []⟩

def Reachable (s : Store) : Prop := ∃ t, LabelledRun.Reachable Step (start t) s

/-- `t` is a later point of a run through `s`. -/
def Later (s t : Store) : Prop := LabelledRun.Reachable Step s t

theorem Step.now_le {s t : Store} {action : Action} (h : Step s action t) : s.now ≤ t.now := by
  cases h with
  | wait hClock => exact hClock
  | @commit r op db hClock => exact hClock.trans r.statement_le_finish

theorem Step.applied {s t : Store} {r : Readings} {op : Op} (h : Step s (.commit r op) t) :
    op.apply r s.db = .ok t.db ∧ s.now ≤ r.statement ∧ t.now = r.finish := by
  cases h with
  | commit hClock _ _ hApply => exact ⟨hApply, hClock, rfl⟩

/-- What an operation draws was not drawn before, and counts as drawn after it. -/
theorem Step.drawn {s t : Store} {r : Readings} {op : Op} {id : UUID} (h : Step s (.commit r op) t)
    (hID : id ∈ op.generated r s.db) : id ∉ s.issued ∧ id ∈ t.issued := by
  cases h with
  | commit _ _ hFresh _ => exact ⟨hFresh.2 id hID, List.mem_append_left _ hID⟩

theorem Step.waited {s t : Store} (h : Step s .wait t) : t.db = s.db ∧ t.issued = s.issued := by
  cases h with
  | wait _ => exact ⟨rfl, rfl⟩

theorem Reachable.step {s t : Store} {action : Action} (hs : Reachable s) (h : Step s action t) :
    Reachable t :=
  let ⟨first, hRun⟩ := hs
  ⟨first, hRun.next h⟩

theorem Reachable.later {s t : Store} (hs : Reachable s) (h : Later s t) : Reachable t :=
  let ⟨first, hRun⟩ := hs
  ⟨first, hRun.trans h⟩

/-- What holds in a reachable state and is kept by every step holds in every later state. -/
theorem Later.invariant {I : Store → Prop} {s t : Store} (hs : Reachable s) (hFirst : I s)
    (hStep : ∀ u action v, Reachable u → I u → Step u action v → I v) (h : Later s t) : I t := by
  obtain ⟨history, hRun⟩ := h
  induction hRun with
  | refl => exact hFirst
  | next hPrior hLast ih => exact hStep _ _ _ (hs.later ⟨_, hPrior⟩) ih hLast

/-- What holds at the start and is kept by every step holds in every reachable state. -/
theorem Reachable.invariant {I : Store → Prop} (hStart : ∀ t, I (start t))
    (hStep : ∀ s action t, I s → Step s action t → I t) {s : Store} (hs : Reachable s) : I s :=
  let ⟨first, hRun⟩ := hs
  LabelledRun.Reachable.invariant (hStart first) hStep hRun

/-- One committed operation at a standing clock, computed. -/
def perform (s : Store) (t : Time) (op : Op) : Option Store :=
  if s.now ≤ t ∧ op.timely t = true ∧ (op.generated (.instant t) s.db).Nodup ∧
      ∀ id ∈ op.generated (.instant t) s.db, id ∉ s.issued then
    match op.apply (.instant t) s.db with
    | .ok db => some ⟨db, t, op.generated (.instant t) s.db ++ s.issued⟩
    | .error _ => none
  else none

def play (s : Store) : List (Time × Op) → Option Store
  | [] => some s
  | (t, op) :: rest => (s.perform t op).bind fun next => next.play rest

theorem step_of_perform {s next : Store} {t : Time} {op : Op} (h : s.perform t op = some next) :
    Step s (.commit (.instant t) op) next := by
  unfold perform at h
  split at h
  · rename_i hGuard
    obtain ⟨hClock, hTimely, hFresh⟩ := hGuard
    split at h
    · rename_i db hApply
      cases h
      exact .commit hClock (Op.timely_iff.mp hTimely) hFresh hApply
    · cases h
  · cases h

theorem later_of_play {s t : Store} {script : List (Time × Op)} (h : s.play script = some t) : Later s t := by
  induction script generalizing s with
  | nil =>
    cases h
    exact .refl
  | cons head rest ih =>
    obtain ⟨next, hNext, hRest⟩ := Option.bind_eq_some_iff.mp h
    exact (LabelledRun.Reachable.refl.next (step_of_perform hNext)).trans (ih hRest)

theorem reachable_of_play {s : Store} {t : Time} {script : List (Time × Op)}
    (h : (start t).play script = some s) : Reachable s :=
  ⟨t, later_of_play h⟩

end Store

/-! A small registry and one accepted submission, for concrete runs. -/

namespace Sample

def destination : DestinationVersion where
  destinationID := "orders"
  version := 1
  url := "https://supplier.example/notify"
  networkPolicy := "public_https"
  allowedMethods := some ["POST"]
  allowedHeaders := some []
  secretRef := "orders"
  credentialHeader := "Authorization"
  idempotencyHeader := "Idempotency-Key"
  successStatuses := some [200]
  retryStatuses := some []
  connectTimeout := 1000000000
  requestTimeout := 5000000000
  ratePerSecond := 10
  maxConcurrency := 4

def config : BootstrapConfig := ⟨"shop", "key", destination⟩

def submission : Submission where
  callerID := "shop"
  idempotencyKey := "order-1"
  requestHash := 7
  destinationID := "orders"
  destinationVersion := 1
  method := "POST"
  callerHeaders := .empty
  body := []
  supplierIdempotencyValue := ""
  acceptedAt := 5000
  retryDeadline := 5000 + day

/-- Delivery 100 with event 101, accepted five microseconds after the start. -/
def accepted : List (Time × Op) :=
  [(1, .bootstrap 3 config), (5, .submit 10 submission 100 101 102)]

def result : AttemptResult := ⟨100, 0, "worker", 104, some 200, "", 8000, 9000⟩

end Sample

end ReliableNotifier
