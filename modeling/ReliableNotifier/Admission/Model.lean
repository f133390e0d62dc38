import ReliableNotifier.Library.Interleaving
import ReliableNotifier.Lifecycle.Events

/-! # Submissions, statement by statement

A call of `Submit` is a transaction of its own. Its statements run one at a time between
those of other calls and between the other operations of the store, each on what is
committed then and on the rows the transaction wrote itself. The admission lock is held
from the statement that takes it to the end of the transaction.
-/

namespace ReliableNotifier

open Checked RowTable Interleaving LabelledRun

theorem Submission.row_id (submission : Submission) (r : Readings) (deliveryID : UUID) :
    (submission.row r deliveryID).id = deliveryID := rfl

def DeliveryRow.callerKey (row : DeliveryRow) : String × String := (row.callerID, row.idempotencyKey)

theorem Database.deliveryByIdempotency_eq (callerID idempotencyKey : String) (db : Database) :
    db.deliveryByIdempotency callerID idempotencyKey =
      lookup DeliveryRow.callerKey (callerID, idempotencyKey) db.deliveries := by
  simp [deliveryByIdempotency, lookup, DeliveryRow.callerKey]

def Op.isSubmit : Op → Bool
  | .submit .. => true
  | _ => false

namespace Admission

structure Call where
  backlogLimit : Int
  submission : Submission
  deriving DecidableEq

/-- What `newUUID` gives a new submission. -/
structure Drawn where
  deliveryID : UUID
  outboxID : UUID
  traceID : UUID
  deriving DecidableEq

def Drawn.ids (drawn : Drawn) : List UUID := [drawn.deliveryID, drawn.outboxID, drawn.traceID]

/-- Where a transaction is, with what it read and the rows it has written. -/
inductive Phase where
  | begun
  | locked
  | missing
  | admitted (drawn : Drawn)
  | inserted (drawn : Drawn) (row : DeliveryRow)
  | filled (row : DeliveryRow) (event : OutboxEventRow)
  | found (existing : DeliveryRow)

namespace Call

/-- The next statement, if it is neither the lock nor the commit. -/
def statement (call : Call) (r : Readings) (drawn : Drawn) (db : Database) :
    Phase → Option (Except StoreError Phase)
  | .locked =>
    match db.deliveryByIdempotency call.submission.callerID call.submission.idempotencyKey with
    | some existing =>
      if existing.requestHash ≠ call.submission.requestHash then some (.error .idempotencyConflict)
      else some (.ok (.found existing))
    | none => some (.ok .missing)
  | .missing =>
    if call.backlogLimit ≤ db.activeCount then some (.error .backlogCapacity)
    else some (.ok (.admitted drawn))
  | .admitted drawn =>
    let row := call.submission.row r drawn.deliveryID
    some (db.insertDelivery row >>= fun _ => .ok (.inserted drawn row))
  | .inserted drawn row =>
    let event := call.submission.event r drawn.deliveryID drawn.outboxID drawn.traceID
    some ({ db with deliveries := db.deliveries ++ [row] }.insertEvent event >>= fun _ => .ok (.filled row event))
  | .begun | .filled .. | .found .. => none

/-- What the statement takes from `newUUID`. -/
def draws (drawn : Drawn) : Phase → List UUID
  | .missing => drawn.ids
  | _ => []

/-- The answer and the tables after the commit. -/
def finish (call : Call) (db : Database) : Phase → Option (Delivery × Database)
  | .found existing => some (existing.load, db)
  | .filled row event =>
    some (call.submission.accepted row.id,
      { db with deliveries := db.deliveries ++ [row], outboxEvents := db.outboxEvents ++ [event] })
  | _ => none

/-- A transaction that nothing interrupts. -/
def alone (call : Call) (r : Readings) (drawn : Drawn) (db : Database) :
    Nat → Phase → Except StoreError (Delivery × Database)
  | 0, _ => .error .unavailable
  | n + 1, phase =>
    match call.finish db phase, call.statement r drawn db phase with
    | some result, _ => .ok result
    | none, some next => next >>= call.alone r drawn db n
    | none, none => .error .unavailable

end Call

/-- Without interruption the statements are the operation `submit`. -/
theorem Call.alone_eq_submit (call : Call) (r : Readings) (drawn : Drawn) (db : Database) :
    call.alone r drawn db 5 .locked =
      submit r call.backlogLimit call.submission drawn.deliveryID drawn.outboxID drawn.traceID db := by
  rcases hKey : db.deliveryByIdempotency call.submission.callerID call.submission.idempotencyKey with _ | existing
  · by_cases hLimit : call.backlogLimit ≤ db.activeCount
    · simp [bind, Except.bind, alone, finish, statement, submit, hKey, hLimit]
    rcases hRow : db.insertDelivery (call.submission.row r drawn.deliveryID) with error | withRow
    · simp [bind, Except.bind, alone, finish, statement, submit, hKey, hLimit, hRow, Database.insertSubmission]
    obtain ⟨_, _, _, _, rfl⟩ := Database.insertDelivery_ok hRow
    rcases hEvent : { db with deliveries := db.deliveries ++ [call.submission.row r drawn.deliveryID] }.insertEvent
      (call.submission.event r drawn.deliveryID drawn.outboxID drawn.traceID) with error | withEvent
    · simp [bind, Except.bind, alone, finish, statement, submit, hKey, hLimit, hRow, hEvent, Database.insertSubmission]
    obtain ⟨_, _, _, _, rfl⟩ := Database.insertEvent_ok hEvent
    simp [bind, Except.bind, pure, Except.pure, alone, finish, statement, submit, hKey, hLimit, hRow, hEvent,
      Database.insertSubmission, Submission.row_id]
  · by_cases hHash : existing.requestHash = call.submission.requestHash
    · simp [bind, Except.bind, alone, finish, statement, submit, hKey, hHash]
    · simp [bind, Except.bind, alone, finish, statement, submit, hKey, hHash]

inductive Client where
  | idle
  | active (call : Call) (phase : Phase)
  | returned (call : Call) (reply : Except StoreError Delivery)

/-- The call and the answer of a submission that succeeded. -/
def Client.success : Client → Option (Call × Delivery)
  | .returned call (.ok reply) => some (call, reply)
  | _ => none

theorem Client.success_eq_some_iff {client : Client} {call : Call} {reply : Delivery} :
    client.success = some (call, reply) ↔ client = .returned call (.ok reply) := by
  rcases client with _ | _ | ⟨_, _ | _⟩ <;> simp [success]

structure State where
  store : Store
  lock : Option Nat

namespace State

/-- The end of a transaction gives up its lock. -/
def release (s : State) (i : Nat) : Option Nat := if s.lock = some i then none else s.lock

/-- The clock and the identifiers after a statement that commits nothing. -/
def advance (s : State) (r : Readings) (drawn : List UUID) : Store := ⟨s.store.db, r.finish, drawn ++ s.store.issued⟩

end State

/-- A step, with the tables before and after it. A submission's step may be its commit. -/
inductive Label where
  | operation (action : Store.Action) (before after : Database)
  | submission (i : Nat) (commit : Bool) (before after : Database)

namespace Label

def before : Label → Database
  | operation _ before _ | submission _ _ before _ => before

def after : Label → Database
  | operation _ _ after | submission _ _ _ after => after

def created (label : Label) : List DeliveryRow :=
  label.after.deliveries.filter fun row => label.before.deliveries.all fun other => other.id ≠ row.id

/-- A row of `key` goes. -/
def Removes (key : String × String) (label : Label) : Prop :=
  ∃ row ∈ label.before.deliveries, row.callerKey = key ∧ ∀ other ∈ label.after.deliveries, other.id ≠ row.id

instance (key : String × String) (label : Label) : Decidable (label.Removes key) :=
  inferInstanceAs (Decidable (∃ row ∈ label.before.deliveries, _ ∧ ∀ other ∈ label.after.deliveries, _))

end Label

inductive Env : State → Label → State → Prop
  | operation {s : State} {action : Store.Action} {t : Store} (hStep : Store.Step s.store action t)
      (hOther : ∀ r op, action = .commit r op → op.isSubmit = false) :
      Env s (.operation action s.store.db t.db) { s with store := t }

/-- A call may fail at any point, and a commit may take effect though its reply is lost. -/
inductive Act (i : Nat) : State → Client → Label → State → Client → Prop
  | begin {s : State} (call : Call) :
      Act i s .idle (.submission i false s.store.db s.store.db) s (.active call .begun)
  | lock {s : State} {call : Call} (hFree : s.lock = none) :
      Act i s (.active call .begun) (.submission i false s.store.db s.store.db) { s with lock := some i }
        (.active call .locked)
  | statement {s : State} {call : Call} {phase next : Phase} {r : Readings} {drawn : Drawn}
      (hClock : s.store.now ≤ r.statement)
      (hFresh : (Call.draws drawn phase).Nodup ∧ ∀ id ∈ Call.draws drawn phase, id ∉ s.store.issued)
      (hNext : call.statement r drawn s.store.db phase = some (.ok next)) :
      Act i s (.active call phase) (.submission i false s.store.db s.store.db)
        { s with store := s.advance r (Call.draws drawn phase) } (.active call next)
  | refused {s : State} {call : Call} {phase : Phase} {r : Readings} {drawn : Drawn} {error : StoreError}
      (hClock : s.store.now ≤ r.statement)
      (hError : call.statement r drawn s.store.db phase = some (.error error)) :
      Act i s (.active call phase) (.submission i false s.store.db s.store.db)
        ⟨s.advance r [], s.release i⟩ (.returned call (.error error))
  | commit {s : State} {call : Call} {phase : Phase} {reply : Delivery} {db : Database}
      (hFinish : call.finish s.store.db phase = some (reply, db)) :
      Act i s (.active call phase) (.submission i true s.store.db db)
        ⟨{ s.store with db := db }, s.release i⟩ (.returned call (.ok reply))
  | lost {s : State} {call : Call} {phase : Phase} {reply : Delivery} {db : Database}
      (hFinish : call.finish s.store.db phase = some (reply, db)) :
      Act i s (.active call phase) (.submission i true s.store.db db)
        ⟨{ s.store with db := db }, s.release i⟩ (.returned call (.error .unavailable))
  | fail {s : State} {call : Call} {phase : Phase} :
      Act i s (.active call phase) (.submission i false s.store.db s.store.db)
        { s with lock := s.release i } (.returned call (.error .unavailable))

abbrev World := Interleaving.World State Client

abbrev Step : World → Label → World → Prop := Interleaving.Step Env Act

def start (t : Time) : World := ⟨⟨.start t, none⟩, fun _ => .idle⟩

end Admission

end ReliableNotifier
