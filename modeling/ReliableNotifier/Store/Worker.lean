import ReliableNotifier.Schema

/-! # Eligibility, claims and fenced results

The guards read `clock_timestamp()` once for each comparison, in the order of the
`WHERE` clause. PostgreSQL evaluates the assignments of an `UPDATE` in column order,
so a claim stamps `updated_at` before it computes `lease_until`.
-/

namespace ReliableNotifier

open Checked RowTable

structure AttemptResult where
  deliveryID : UUID
  generation : Nat
  leaseOwner : String
  leaseToken : UUID
  responseStatus : Option Int
  errorCategory : String
  startedAt : GoTime
  finishedAt : GoTime
  deriving DecidableEq

namespace DeliveryRow

def due (r : Readings) (reader : UUID) (deliveryID : UUID) (generation : Nat) (row : DeliveryRow) : Bool :=
  row.id = deliveryID && row.generation = generation && row.status = .pending &&
  row.nextAttemptAt ≤ r.scan reader 0 && r.scan reader 1 < row.retryDeadline

def claim (r : Readings) (owner : String) (leaseDuration : Duration) (token : UUID)
    (row : DeliveryRow) : DeliveryRow :=
  { row with
    status := .delivering
    updatedAt := r.write row.id 0
    leaseOwner := some owner
    leaseToken := some token
    leaseUntil := some (r.write row.id 1 + interval leaseDuration) }

/-- The row as `ClaimDelivery` returns it, with its lease. -/
def loadClaimed (row : DeliveryRow) : Delivery :=
  { row.load with
    leaseOwner := row.leaseOwner
    leaseToken := row.leaseToken
    leaseUntil := row.leaseUntil.map nanoseconds }

def leasedTo (r : Readings) (result : AttemptResult) (row : DeliveryRow) : Bool :=
  row.id = result.deliveryID && row.generation = result.generation && row.status = .delivering &&
  row.leaseOwner = some result.leaseOwner && row.leaseToken = some result.leaseToken &&
  row.leaseUntil.any (r.scan row.id 0 < ·)

def complete (r : Readings) (resultClass : ResultClass) (nextAttemptAt : Option Time)
    (row : DeliveryRow) : DeliveryRow :=
  { row with
    status := match resultClass with
      | .retryableFailure => .pending
      | .permanentFailure => .failedPermanent
      | .succeeded => .succeeded
    generation := if resultClass = .retryableFailure then row.generation + 1 else row.generation
    nextAttemptAt := if resultClass = .retryableFailure then nextAttemptAt.getD row.nextAttemptAt
      else row.nextAttemptAt
    updatedAt := r.write row.id 0
    leaseOwner := none
    leaseToken := none
    leaseUntil := none }

end DeliveryRow

def eligibleDestination (r : Readings) (deliveryID : UUID) (generation : Nat) (db : Database) :
    Except StoreError DestinationVersion :=
  match db.deliveries.find? fun row => row.due r row.id deliveryID generation with
  | some row => db.queryDestinationVersion row.destinationID row.destinationVersion
  | none => .error .deliveryNotClaimable

def observeSignal (r : Readings) (deliveryID : UUID) (generation : Nat) (db : Database) :
    Except StoreError Database :=
  db.updateEvents
    (fun event => event.deliveryID = deliveryID && event.generation = generation &&
      db.deliveries.any (·.due r event.id event.deliveryID event.generation))
    (fun event => { event with observedAt := some (r.write event.id 0) })

def claimDelivery (r : Readings) (deliveryID : UUID) (generation : Nat) (owner : String)
    (leaseDuration : Duration) (token : UUID) (db : Database) :
    Except StoreError ((Delivery × DestinationVersion) × Database) := do
  ensure (owner ≠ "" && 0 < leaseDuration) .invalidArguments
  match db.deliveries.find? fun row => row.due r row.id deliveryID generation with
  | none => .error .deliveryNotClaimable
  | some row =>
    let claimed ← db.updateDeliveries (fun row => row.due r row.id deliveryID generation)
      (DeliveryRow.claim r owner leaseDuration token)
    let destination ← db.queryDestinationVersion row.destinationID row.destinationVersion
    return (((row.claim r owner leaseDuration token).loadClaimed, destination), claimed)

/-- `NULLIF($7, '')`. -/
def nullIfEmpty (text : String) : Option String := if text = "" then none else some text

def AttemptResult.row (result : AttemptResult) (resultClass : ResultClass) (attemptID : UUID) :
    AttemptRow where
  id := attemptID
  deliveryID := result.deliveryID
  generation := result.generation
  leaseToken := some result.leaseToken
  resultClass := resultClass
  responseStatus := result.responseStatus
  errorCategory := nullIfEmpty result.errorCategory
  startedAt := microseconds result.startedAt
  finishedAt := microseconds result.finishedAt

def completeResult (r : Readings) (result : AttemptResult) (resultClass : ResultClass)
    (nextAttemptAt : Option GoTime) (attemptID : UUID) (db : Database) :
    Except StoreError Database := do
  let next := nextAttemptAt.map microseconds
  let matching (row : DeliveryRow) : Bool := row.leasedTo r result &&
    (resultClass ≠ .retryableFailure || next.any (· < row.retryDeadline))
  let completed ← db.updateDeliveries matching (DeliveryRow.complete r resultClass next)
  ensure (db.deliveries.countP matching = 1) .workerLeaseLost
  completed.insertAttempt (result.row resultClass attemptID)

def completeSuccess (r : Readings) (result : AttemptResult) (attemptID : UUID) (db : Database) :
    Except StoreError Database :=
  completeResult r result .succeeded none attemptID db

def completeRetry (r : Readings) (result : AttemptResult) (nextAttemptAt : GoTime) (attemptID : UUID)
    (db : Database) : Except StoreError Database :=
  completeResult r result .retryableFailure (some nextAttemptAt) attemptID db

def completePermanent (r : Readings) (result : AttemptResult) (attemptID : UUID) (db : Database) :
    Except StoreError Database :=
  completeResult r result .permanentFailure none attemptID db

section Accepted

variable {r : Readings} {db db' : Database}

theorem DeliveryRow.due_iff {reader deliveryID : UUID} {generation : Nat} {row : DeliveryRow} :
    row.due r reader deliveryID generation = true ↔
      row.id = deliveryID ∧ row.generation = generation ∧ row.status = .pending ∧
        row.nextAttemptAt ≤ r.scan reader 0 ∧ r.scan reader 1 < row.retryDeadline := by
  simp only [DeliveryRow.due, Bool.and_eq_true, decide_eq_true_eq, and_assoc]

theorem claimDelivery_ok {deliveryID : UUID} {generation : Nat} {owner : String} {leaseDuration : Duration}
    {token : UUID} {reply : Delivery × DestinationVersion}
    (h : claimDelivery r deliveryID generation owner leaseDuration token db = .ok (reply, db')) :
    ∃ row, db.deliveries.find? (fun row => row.due r row.id deliveryID generation) = some row ∧
      db.updateDeliveries (fun row => row.due r row.id deliveryID generation)
        (DeliveryRow.claim r owner leaseDuration token) = .ok db' ∧
      reply.1 = (row.claim r owner leaseDuration token).loadClaimed ∧
      db.queryDestinationVersion row.destinationID row.destinationVersion = .ok reply.2 := by
  obtain ⟨_, _, h⟩ := bind_ok_iff.mp h
  split at h
  · cases h
  · rename_i row hRow
    simp only [bind_ok_iff, pure_ok_iff] at h
    obtain ⟨claimed, hUpdate, destination, hDestination, hReply⟩ := h
    cases hReply
    exact ⟨row, hRow, hUpdate, rfl, hDestination⟩

/-- `ErrDeliveryNotClaimable` means that no row is due. -/
theorem eligibleDestination_refused {deliveryID : UUID} {generation : Nat}
    (h : eligibleDestination r deliveryID generation db = .error .deliveryNotClaimable) :
    ∀ row ∈ db.deliveries, row.due r row.id deliveryID generation ≠ true := by
  unfold eligibleDestination at h
  split at h
  · unfold Database.queryDestinationVersion at h
    split at h <;> cases h
  · rename_i hNone
    exact List.find?_eq_none.mp hNone

theorem claimDelivery_refused {deliveryID : UUID} {generation : Nat} {owner : String} {leaseDuration : Duration}
    {token : UUID}
    (h : claimDelivery r deliveryID generation owner leaseDuration token db = .error .deliveryNotClaimable) :
    ∀ row ∈ db.deliveries, row.due r row.id deliveryID generation ≠ true := by
  rcases bind_error_iff.mp h with hArguments | ⟨_, _, h⟩
  · cases (ensure_error_iff.mp hArguments).2
  · split at h
    · rename_i hNone
      exact List.find?_eq_none.mp hNone
    · rcases bind_error_iff.mp h with hUpdate | ⟨_, _, h⟩
      · rcases bind_error_iff.mp hUpdate with hRows | ⟨_, _, hPure⟩
        · cases (ensure_error_iff.mp hRows).2
        · cases hPure
      · rcases bind_error_iff.mp h with hQuery | ⟨_, _, hPure⟩
        · unfold Database.queryDestinationVersion at hQuery
          split at hQuery <;> cases hQuery
        · cases hPure

/-- A claimed delivery carries the identity it was claimed under and the lease it was given. -/
theorem claimDelivery_task {deliveryID : UUID} {generation : Nat} {owner : String} {leaseDuration : Duration}
    {token : UUID} {reply : Delivery × DestinationVersion}
    (h : Prod.fst <$> claimDelivery r deliveryID generation owner leaseDuration token db = .ok reply) :
    reply.1.id = deliveryID ∧ reply.1.generation = generation ∧ reply.1.leaseOwner = some owner ∧
      reply.1.leaseToken = some token := by
  obtain ⟨⟨_, final⟩, hClaim, rfl⟩ := map_ok_iff.mp h
  obtain ⟨row, hFind, _, hTask, _⟩ := claimDelivery_ok hClaim
  have hDue := List.find?_some hFind
  obtain ⟨hID, hGeneration, _⟩ := DeliveryRow.due_iff.mp hDue
  rw [hTask]
  exact ⟨hID, hGeneration, rfl, rfl⟩

/-- The rows a fenced result may update. -/
def DeliveryRow.fenced (r : Readings) (result : AttemptResult) (resultClass : ResultClass)
    (nextAttemptAt : Option GoTime) (row : DeliveryRow) : Bool :=
  row.leasedTo r result &&
    (resultClass ≠ .retryableFailure || (nextAttemptAt.map microseconds).any (· < row.retryDeadline))

theorem DeliveryRow.fenced_iff {result : AttemptResult} {resultClass : ResultClass}
    {nextAttemptAt : Option GoTime} {row : DeliveryRow} :
    row.fenced r result resultClass nextAttemptAt = true ↔
      row.id = result.deliveryID ∧ row.generation = result.generation ∧ row.status = .delivering ∧
        row.leaseOwner = some result.leaseOwner ∧ row.leaseToken = some result.leaseToken ∧
        (∃ t, row.leaseUntil = some t ∧ r.scan row.id 0 < t) ∧
        (resultClass = .retryableFailure → ∃ t, nextAttemptAt = some t ∧ microseconds t < row.retryDeadline) := by
  simp only [DeliveryRow.fenced, DeliveryRow.leasedTo, Bool.and_eq_true, Bool.or_eq_true, decide_eq_true_eq,
    Option.any_eq_true, Option.map_eq_some_iff, and_assoc, ← imp_iff_not_or, ne_eq, exists_exists_and_eq_and]

theorem completeResult_ok {result : AttemptResult} {resultClass : ResultClass} {nextAttemptAt : Option GoTime}
    {attemptID : UUID} (h : completeResult r result resultClass nextAttemptAt attemptID db = .ok db') :
    ∃ completed, db.updateDeliveries (DeliveryRow.fenced r result resultClass nextAttemptAt)
        (DeliveryRow.complete r resultClass (nextAttemptAt.map microseconds)) = .ok completed ∧
      db.deliveries.countP (DeliveryRow.fenced r result resultClass nextAttemptAt) = 1 ∧
      completed.insertAttempt (result.row resultClass attemptID) = .ok db' := by
  simp only [completeResult, bind_ok_iff, ensure_ok_iff, decide_eq_true_eq] at h
  obtain ⟨completed, hUpdate, _, hCount, hInsert⟩ := h
  exact ⟨completed, hUpdate, hCount, hInsert⟩

end Accepted

end ReliableNotifier
