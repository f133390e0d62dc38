import ReliableNotifier.Worker.Result

/-! # Handling a message, publishing a batch

`RabbitConsumer.processMessage` around `Worker.Process`, and `Publisher.RunOnce`, cut
at their calls of the store, the sender and the broker. Each function below says
what the code does next with the reply to such a call.
-/

namespace ReliableNotifier

/-- `dispatch.Signal`, after `decodeSignal` and `Validate`. -/
structure Signal where
  deliveryID : UUID
  generation : Nat
  traceID : UUID
  deriving DecidableEq

/-- Where `processMessage` stands. -/
inductive Stage where
  | checking (signal : Signal)
  | observing (signal : Signal) (destination : DestinationVersion)
  | acquiring (signal : Signal) (destination : DestinationVersion)
  | claiming (signal : Signal)
  | sending (signal : Signal) (task : Delivery) (destination : DestinationVersion)
  | completing (signal : Signal) (completion : Completion) (attempt : AttemptResult)
  | deferring (signal : Signal)
  | acking (signal : Signal)
  | nacking (signal : Option Signal) (requeue : Bool)
  | finished

namespace Stage

/-- A message that does not decode or validate goes to the dead-letter queue. -/
def receive : Option Signal → Stage
  | none => nacking none false
  | some signal => checking signal

/-- `Process` returned `(ack, err)`. -/
def afterProcess (signal : Signal) (ack : Bool) (err : Option StoreError) : Stage :=
  if err.isSome then nacking (some signal) true
  else if ack then acking signal
  else deferring signal

def afterEligible (signal : Signal) : Except StoreError DestinationVersion → Stage
  | .error .deliveryNotClaimable => afterProcess signal true none
  | .error err => afterProcess signal false (some err)
  | .ok destination => observing signal destination

def afterObserve (signal : Signal) (destination : DestinationVersion) : Except StoreError Unit → Stage
  | .error err => afterProcess signal false (some err)
  | .ok _ => acquiring signal destination

def afterAcquire (signal : Signal) (granted : Bool) : Stage :=
  if granted then claiming signal else afterProcess signal false none

def afterClaim (signal : Signal) : Except StoreError (Delivery × DestinationVersion) → Stage
  | .error .deliveryNotClaimable => afterProcess signal true none
  | .error err => afterProcess signal false (some err)
  | .ok (task, destination) => sending signal task destination

def afterComplete (signal : Signal) : Except StoreError Unit → Stage
  | .error .workerLeaseLost => afterProcess signal true none
  | .error err => afterProcess signal false (some err)
  | .ok _ => afterProcess signal true none

def afterDefer (signal : Signal) (deferred : Bool) : Stage :=
  if deferred then acking signal else nacking (some signal) true

end Stage

/-- Where `RunOnce` stands, with the number of events published so far. -/
inductive Cycle where
  | publishing (published : Nat) (event : OutboxEvent) (rest : List OutboxEvent)
  | marking (published : Nat) (event : OutboxEvent) (rest : List OutboxEvent)
  | releasing (published : Nat) (event : OutboxEvent) (rest : List OutboxEvent)
  | returned (published : Nat) (failed : Bool)

def OutboxEvent.signal (event : OutboxEvent) : Signal := ⟨event.deliveryID, event.generation, event.traceID⟩

def OutboxEventRow.signal (event : OutboxEventRow) : Signal := ⟨event.deliveryID, event.generation, event.traceID⟩

namespace Cycle

def publish (published : Nat) : List OutboxEvent → Cycle
  | [] => returned published false
  | event :: rest => publishing published event rest

def releaseRemaining (published : Nat) : List OutboxEvent → Cycle
  | [] => returned published true
  | event :: rest => releasing published event rest

def afterClaimOutbox : Except StoreError (List OutboxEvent) → Cycle
  | .error _ => returned 0 true
  | .ok events => publish 0 events

def afterPublish (published : Nat) (event : OutboxEvent) (rest : List OutboxEvent) (confirmed : Bool) : Cycle :=
  if confirmed then marking published event rest else releaseRemaining published (event :: rest)

def afterMark (published : Nat) (event : OutboxEvent) (rest : List OutboxEvent) :
    Except StoreError Unit → Cycle
  | .error _ => releaseRemaining published (event :: rest)
  | .ok _ => publish (published + 1) rest

/-- The error of `ReleaseOutbox` is dropped. -/
def afterRelease (published : Nat) (rest : List OutboxEvent) : Cycle := releaseRemaining published rest

/-- The claimed events a cycle still works on. -/
def events : Cycle → List OutboxEvent
  | publishing _ event rest => event :: rest
  | marking _ event rest => event :: rest
  | releasing _ event rest => event :: rest
  | returned _ _ => []

end Cycle

end ReliableNotifier
