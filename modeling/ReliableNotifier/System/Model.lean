import ReliableNotifier.Library.Interleaving
import ReliableNotifier.Lifecycle.Automaton
import ReliableNotifier.Worker.Process

/-! # Workers, publishers and the broker over one store

Every message a consumer handles and every cycle of a publisher is a process of its
own. The store may answer a call, refuse it, be down, or commit and lose the reply.
The broker keeps each signal it accepted and may hand it out any number of times, in
any order, or not at all. A process may stop between any two of its calls.
-/

namespace ReliableNotifier

open Checked Interleaving

inductive Process where
  | idle
  | consumer (stage : Stage)
  | publisher (cycle : Cycle)
  | stopped

structure Shared where
  store : Store
  signals : List Signal

/-- What is seen of a step. A commit names the process that made it, if any, and the tables
it started from. -/
inductive Label where
  | commit (actor : Option Nat) (r : Readings) (op : Op) (before : Database)
  | quiet
  | receive (i : Nat) (message : Option Signal)
  | send (i : Nat) (task : Delivery) (destination : DestinationVersion) (result : Result)
      (err : Option SendError)
  | publish (i : Nat) (signal : Signal)
  | defer (i : Nat) (signal : Signal)
  | ack (i : Nat) (signal : Signal)
  | nack (i : Nat) (signal : Option Signal) (requeue : Bool)

def Label.of (actor : Option Nat) (before : Database) : Store.Action → Label
  | .wait => .quiet
  | .commit r op => .commit actor r op before

/-- The process a commit or a send belongs to. -/
def Label.actor : Label → Option Nat
  | commit actor _ _ _ => actor
  | send i _ _ _ _ => some i
  | _ => none

/-- The fates of a call of the store: done, done with the reply lost, refused, or not served. -/
inductive Served {β : Type} (s : Store) (op : Op) (answer : Readings → Except StoreError β) :
    Except StoreError β → Store.Action → Store → Prop
  | done {r : Readings} {t : Store} {value : β} (hStep : Store.Step s (.commit r op) t)
      (hAnswer : answer r = .ok value) : Served s op answer (.ok value) (.commit r op) t
  | lost {r : Readings} {t : Store} (hStep : Store.Step s (.commit r op) t) :
      Served s op answer (.error .unavailable) (.commit r op) t
  | refused {r : Readings} {err : StoreError} (hClock : s.now ≤ r.statement)
      (hAnswer : answer r = .error err) : Served s op answer (.error err) .wait { s with now := r.finish }
  | down {t : Time} (hClock : s.now ≤ t) :
      Served s op answer (.error .unavailable) .wait { s with now := t }

/-- The answer of an operation that returns only an error. -/
def Op.answer (op : Op) (db : Database) (r : Readings) : Except StoreError Unit := (fun _ => ()) <$> op.apply r db

/-- What the surroundings may do: signals put into the queue by someone else, and the submissions made. -/
structure Setting where
  foreign : Signal → Prop
  admits : Submission → Prop

/-- The operations of the API, the operators and the maintenance loops. -/
def Op.External (setting : Setting) : Op → Prop
  | submit _ submission _ _ _ => setting.admits submission
  | bootstrap _ _ => True
  | scheduleDueRetries _ _ _ _ => True
  | recoverExpiredDeliveries _ _ _ _ _ => True
  | reconcileStalledSignals _ _ _ _ => True
  | replay _ _ _ _ _ _ _ => True
  | deleteExpiredTerminal _ _ _ _ => True
  | _ => False

inductive Surroundings (setting : Setting) : Shared → Label → Shared → Prop
  | wait {s : Shared} {t : Time} (hClock : s.store.now ≤ t) :
      Surroundings setting s .quiet { s with store := { s.store with now := t } }
  | commit {s : Shared} {r : Readings} {op : Op} {t : Store} (hExternal : op.External setting)
      (hStep : Store.Step s.store (.commit r op) t) :
      Surroundings setting s (.commit none r op s.store.db) { s with store := t }

inductive Act (setting : Setting) (i : Nat) : Shared → Process → Label → Shared → Process → Prop
  | receive {s : Shared} {message : Option Signal}
      (hMessage : ∀ signal, message = some signal → signal ∈ s.signals ∨ setting.foreign signal) :
      Act setting i s .idle (.receive i message) s (.consumer (.receive message))
  | check {s : Shared} {signal : Signal} {r : Readings} {reply : Except StoreError DestinationVersion}
      (hClock : s.store.now ≤ r.statement)
      (hReply : reply = eligibleDestination r signal.deliveryID signal.generation s.store.db ∨
        reply = .error .unavailable) :
      Act setting i s (.consumer (.checking signal)) .quiet
        { s with store := { s.store with now := r.finish } } (.consumer (.afterEligible signal reply))
  | observe {s : Shared} {signal : Signal} {destination : DestinationVersion} {reply : Except StoreError Unit}
      {action : Store.Action} {t : Store}
      (hServed : Served s.store (.observeSignal signal.deliveryID signal.generation)
        (Op.answer (.observeSignal signal.deliveryID signal.generation) s.store.db) reply action t) :
      Act setting i s (.consumer (.observing signal destination)) (.of (some i) s.store.db action)
        { s with store := t } (.consumer (.afterObserve signal destination reply))
  | acquire {s : Shared} {signal : Signal} {destination : DestinationVersion} (granted : Bool) :
      Act setting i s (.consumer (.acquiring signal destination)) .quiet s
        (.consumer (.afterAcquire signal granted))
  | claim {s : Shared} {signal : Signal} {owner : String} {leaseDuration : Duration} {token : UUID}
      {reply : Except StoreError (Delivery × DestinationVersion)} {action : Store.Action} {t : Store}
      (hServed : Served s.store
        (.claimDelivery signal.deliveryID signal.generation owner leaseDuration token)
        (fun r => Prod.fst <$>
          claimDelivery r signal.deliveryID signal.generation owner leaseDuration token s.store.db)
        reply action t) :
      Act setting i s (.consumer (.claiming signal)) (.of (some i) s.store.db action)
        { s with store := t } (.consumer (.afterClaim signal reply))
  | send {s : Shared} {signal : Signal} {task : Delivery} {destination : DestinationVersion}
      (parseTime : String → Option GoTime) (jitter : Duration → Duration) (startedAt finishedAt : GoTime)
      (result : Result) (err : Option SendError) :
      Act setting i s (.consumer (.sending signal task destination)) (.send i task destination result err) s
        (.consumer (.completing signal
          (settle parseTime jitter task destination startedAt finishedAt result err).1
          (settle parseTime jitter task destination startedAt finishedAt result err).2))
  | complete {s : Shared} {signal : Signal} {completion : Completion} {attempt : AttemptResult}
      {attemptID : UUID} {reply : Except StoreError Unit} {action : Store.Action} {t : Store}
      (hServed : Served s.store (.complete completion attempt attemptID)
        (Op.answer (.complete completion attempt attemptID) s.store.db) reply action t) :
      Act setting i s (.consumer (.completing signal completion attempt)) (.of (some i) s.store.db action)
        { s with store := t } (.consumer (.afterComplete signal reply))
  | defer {s : Shared} {signal : Signal} :
      Act setting i s (.consumer (.deferring signal)) (.defer i signal)
        { s with signals := signal :: s.signals } (.consumer (.afterDefer signal true))
  | undeferred {s : Shared} {signal : Signal} {signals : List Signal}
      (hSignals : signals = s.signals ∨ signals = signal :: s.signals) :
      Act setting i s (.consumer (.deferring signal)) .quiet { s with signals := signals }
        (.consumer (.afterDefer signal false))
  | ack {s : Shared} {signal : Signal} :
      Act setting i s (.consumer (.acking signal)) (.ack i signal) s (.consumer .finished)
  | nack {s : Shared} {signal : Option Signal} {requeue : Bool} :
      Act setting i s (.consumer (.nacking signal requeue)) (.nack i signal requeue) s (.consumer .finished)
  | claimOutbox {s : Shared} {owner : String} {leaseDuration : Duration} {limit : Int} {locked : UUID → Bool}
      {token : UUID} {reply : Except StoreError (List OutboxEvent)} {action : Store.Action} {t : Store}
      (hServed : Served s.store (.claimOutbox owner leaseDuration limit locked token)
        (fun r => Prod.fst <$> claimOutbox r owner leaseDuration limit locked token s.store.db)
        reply action t) :
      Act setting i s .idle (.of (some i) s.store.db action) { s with store := t }
        (.publisher (.afterClaimOutbox reply))
  | publish {s : Shared} {published : Nat} {event : OutboxEvent} {rest : List OutboxEvent} :
      Act setting i s (.publisher (.publishing published event rest)) (.publish i event.signal)
        { s with signals := event.signal :: s.signals } (.publisher (.afterPublish published event rest true))
  | unpublished {s : Shared} {published : Nat} {event : OutboxEvent} {rest : List OutboxEvent}
      {signals : List Signal} (hSignals : signals = s.signals ∨ signals = event.signal :: s.signals) :
      Act setting i s (.publisher (.publishing published event rest)) .quiet { s with signals := signals }
        (.publisher (.afterPublish published event rest false))
  | mark {s : Shared} {published : Nat} {event : OutboxEvent} {rest : List OutboxEvent}
      {reply : Except StoreError Unit} {action : Store.Action} {t : Store}
      (hServed : Served s.store (.markOutboxPublished event)
        (Op.answer (.markOutboxPublished event) s.store.db) reply action t) :
      Act setting i s (.publisher (.marking published event rest)) (.of (some i) s.store.db action)
        { s with store := t } (.publisher (.afterMark published event rest reply))
  | release {s : Shared} {published : Nat} {event : OutboxEvent} {rest : List OutboxEvent}
      {reply : Except StoreError Unit} {action : Store.Action} {t : Store}
      (hServed : Served s.store (.releaseOutbox event)
        (Op.answer (.releaseOutbox event) s.store.db) reply action t) :
      Act setting i s (.publisher (.releasing published event rest)) (.of (some i) s.store.db action)
        { s with store := t } (.publisher (.afterRelease published rest))
  | crash {s : Shared} {process : Process} : Act setting i s process .quiet s .stopped

abbrev System := World Shared Process

namespace System

abbrev Step (setting : Setting) : System → Label → System → Prop :=
  Interleaving.Step (Surroundings setting) (Act setting)

def start (t : Time) : System := ⟨⟨.start t, []⟩, fun _ => .idle⟩

def Run (setting : Setting) (history : List Label) (w : System) : Prop :=
  ∃ t, LabelledRun.Run (Step setting) (start t) history w

end System

variable {setting : Setting} {s s' : Shared} {label : Label} {i : Nat} {x x' : Process}

/-- A step commits one operation and says so, or leaves the store as it is up to the clock. -/
inductive Shared.Advances (s : Shared) (s' : Shared) : Label → Prop
  | commit {actor : Option Nat} {r : Readings} {op : Op} (hStep : Store.Step s.store (.commit r op) s'.store) :
      Advances s s' (.commit actor r op s.store.db)
  | keep {label : Label} (hLabel : ∀ actor r op db, label ≠ .commit actor r op db)
      (hStep : Store.Step s.store .wait s'.store) : Advances s s' label

theorem Served.action {β : Type} {s t : Store} {op : Op} {answer : Readings → Except StoreError β}
    {reply : Except StoreError β} {action : Store.Action} (h : Served s op answer reply action t) :
    Store.Step s action t ∧ (action = .wait ∨ ∃ r, action = .commit r op) := by
  cases h with
  | done hStep _ => exact ⟨hStep, .inr ⟨_, rfl⟩⟩
  | lost hStep => exact ⟨hStep, .inr ⟨_, rfl⟩⟩
  | @refused r _ hClock _ => exact ⟨.wait (hClock.trans r.statement_le_finish), .inl rfl⟩
  | down hClock => exact ⟨.wait hClock, .inl rfl⟩

theorem Served.advances {β : Type} {t : Store} {op : Op} {answer : Readings → Except StoreError β}
    {reply : Except StoreError β} {action : Store.Action} {actor : Option Nat} {signals : List Signal}
    (h : Served s.store op answer reply action t) :
    s.Advances ⟨t, signals⟩ (.of actor s.store.db action) := by
  obtain ⟨hStep, rfl | ⟨r, rfl⟩⟩ := h.action
  · exact .keep (fun _ _ _ _ h => by cases h) hStep
  · exact .commit hStep

theorem Surroundings.advances (h : Surroundings setting s label s') : s.Advances s' label := by
  cases h with
  | wait hClock => exact .keep (fun _ _ _ _ h => by cases h) (.wait hClock)
  | commit _ hStep => exact .commit hStep

theorem Act.advances (h : Act setting i s x label s' x') : s.Advances s' label := by
  cases h with
  | check hClock _ =>
    exact .keep (fun _ _ _ _ h => by cases h) (.wait (hClock.trans (Readings.statement_le_finish _)))
  | observe hServed | claim hServed | complete hServed | claimOutbox hServed | mark hServed | release hServed =>
    exact hServed.advances
  | receive | acquire | send | defer | undeferred | ack | nack | publish | unpublished | crash =>
    exact .keep (fun _ _ _ _ h => by cases h) (.wait le_rfl)

theorem Shared.Advances.step (h : s.Advances s' label) : ∃ action, Store.Step s.store action s'.store := by
  cases h with
  | commit hStep => exact ⟨_, hStep⟩
  | keep _ hStep => exact ⟨_, hStep⟩

/-- A process that holds no claim. -/
def Process.Inert : Process → Prop
  | .consumer (.sending _ _ _) => False
  | .consumer (.completing _ _ _) => False
  | _ => True

/-- A step that neither claims a delivery, nor sends, nor reports a result. -/
def Label.Plain : Label → Prop
  | .commit _ _ (.claimDelivery _ _ _ _ _) _ => False
  | .commit _ _ (.complete _ _ _) _ => False
  | .send _ _ _ _ _ => False
  | _ => True

/-- The steps of a process, as far as claims, sends and results go. -/
inductive Act.Kind (i : Nat) (s : Shared) (s' : Shared) : Process → Label → Process → Prop
  | plain {x x' : Process} {label : Label} (hLabel : label.Plain) (hInert : x'.Inert) : Kind i s s' x label x'
  | claimed {signal : Signal} {owner : String} {leaseDuration : Duration} {token : UUID} {r : Readings}
      {task : Delivery} {destination : DestinationVersion}
      (hStep : Store.Step s.store
        (.commit r (.claimDelivery signal.deliveryID signal.generation owner leaseDuration token)) s'.store)
      (hAnswer : Prod.fst <$> claimDelivery r signal.deliveryID signal.generation owner leaseDuration token
        s.store.db = .ok (task, destination)) :
      Kind i s s' (.consumer (.claiming signal))
        (.commit (some i) r
          (.claimDelivery signal.deliveryID signal.generation owner leaseDuration token) s.store.db)
        (.consumer (.sending signal task destination))
  | claimLost {signal : Signal} {owner : String} {leaseDuration : Duration} {token : UUID} {r : Readings}
      {x' : Process}
      (hStep : Store.Step s.store
        (.commit r (.claimDelivery signal.deliveryID signal.generation owner leaseDuration token)) s'.store)
      (hInert : x'.Inert) :
      Kind i s s' (.consumer (.claiming signal))
        (.commit (some i) r
          (.claimDelivery signal.deliveryID signal.generation owner leaseDuration token) s.store.db) x'
  | sent {signal : Signal} {task : Delivery} {destination : DestinationVersion}
      {parseTime : String → Option GoTime} {jitter : Duration → Duration} {startedAt finishedAt : GoTime}
      {result : Result} {err : Option SendError} (hSame : s' = s) :
      Kind i s s' (.consumer (.sending signal task destination)) (.send i task destination result err)
        (.consumer (.completing signal
          (settle parseTime jitter task destination startedAt finishedAt result err).1
          (settle parseTime jitter task destination startedAt finishedAt result err).2))
  | completed {signal : Signal} {completion : Completion} {attempt : AttemptResult} {attemptID : UUID}
      {r : Readings} {x' : Process}
      (hStep : Store.Step s.store (.commit r (.complete completion attempt attemptID)) s'.store)
      (hInert : x'.Inert) :
      Kind i s s' (.consumer (.completing signal completion attempt))
        (.commit (some i) r (.complete completion attempt attemptID) s.store.db) x'

namespace Stage

variable (signal : Signal)

theorem inert_receive (message : Option Signal) : Process.Inert (.consumer (receive message)) := by
  cases message <;> trivial

theorem inert_afterProcess (ack : Bool) (err : Option StoreError) :
    Process.Inert (.consumer (afterProcess signal ack err)) := by
  unfold afterProcess
  split
  · trivial
  · split <;> trivial

theorem inert_afterEligible (reply : Except StoreError DestinationVersion) :
    Process.Inert (.consumer (afterEligible signal reply)) := by
  unfold afterEligible
  split
  · exact inert_afterProcess signal _ _
  · exact inert_afterProcess signal _ _
  · trivial

theorem inert_afterObserve (destination : DestinationVersion) (reply : Except StoreError Unit) :
    Process.Inert (.consumer (afterObserve signal destination reply)) := by
  unfold afterObserve
  split
  · exact inert_afterProcess signal _ _
  · trivial

theorem inert_afterAcquire (granted : Bool) : Process.Inert (.consumer (afterAcquire signal granted)) := by
  unfold afterAcquire
  split
  · trivial
  · exact inert_afterProcess signal _ _

theorem inert_afterClaim_error (err : StoreError) : Process.Inert (.consumer (afterClaim signal (.error err))) := by
  unfold afterClaim
  split
  · exact inert_afterProcess signal _ _
  · exact inert_afterProcess signal _ _
  · contradiction

theorem inert_afterComplete (reply : Except StoreError Unit) :
    Process.Inert (.consumer (afterComplete signal reply)) := by
  unfold afterComplete
  split <;> exact inert_afterProcess signal _ _

theorem inert_afterDefer (deferred : Bool) : Process.Inert (.consumer (afterDefer signal deferred)) := by
  unfold afterDefer
  split <;> trivial

end Stage

/-- An operation that is neither a claim nor a result is served plainly. -/
theorem Served.plain {β : Type} {s t : Store} {op : Op} {answer : Readings → Except StoreError β}
    {reply : Except StoreError β} {action : Store.Action} {actor : Option Nat} {before : Database}
    (h : Served s op answer reply action t) (hOp : ∀ actor r before, (Label.commit actor r op before).Plain) :
    (Label.of actor before action).Plain := by
  obtain ⟨_, rfl | ⟨r, rfl⟩⟩ := h.action
  · trivial
  · exact hOp actor r before

theorem Act.kind (h : Act setting i s x label s' x') : Act.Kind i s s' x label x' := by
  cases h with
  | receive => exact .plain trivial (Stage.inert_receive _)
  | check => exact .plain trivial (Stage.inert_afterEligible _ _)
  | observe hServed => exact .plain (hServed.plain fun _ _ _ => trivial) (Stage.inert_afterObserve _ _ _)
  | acquire => exact .plain trivial (Stage.inert_afterAcquire _ _)
  | claim hServed =>
    cases hServed with
    | done hStep hAnswer => exact .claimed hStep hAnswer
    | lost hStep => exact .claimLost hStep (Stage.inert_afterClaim_error _ _)
    | refused | down => exact .plain trivial (Stage.inert_afterClaim_error _ _)
  | send => exact .sent rfl
  | complete hServed =>
    cases hServed with
    | done hStep _ | lost hStep => exact .completed hStep (Stage.inert_afterComplete _ _)
    | refused | down => exact .plain trivial (Stage.inert_afterComplete _ _)
  | defer | undeferred => exact .plain trivial (Stage.inert_afterDefer _ _)
  | claimOutbox hServed | mark hServed | release hServed =>
    exact .plain (hServed.plain fun _ _ _ => trivial) trivial
  | ack | nack | publish | unpublished | crash => exact .plain trivial trivial

theorem Surroundings.plain (h : Surroundings setting s label s') : label.Plain := by
  cases h with
  | wait _ => trivial
  | @commit r op t hExternal _ => cases op <;> trivial

namespace System

variable {history : List Label} {w w' : System}

theorem Run.next (h : Run setting history w) (hStep : Step setting w label w') :
    Run setting (label :: history) w' :=
  let ⟨t, hRun⟩ := h
  ⟨t, hRun.next hStep⟩

/-- `w'` is a later point of a run through `w`. -/
def Later (setting : Setting) (w w' : System) : Prop := LabelledRun.Reachable (Step setting) w w'

theorem Run.later (h : Run setting history w) (hLater : Later setting w w') : ∃ history', Run setting history' w' :=
  let ⟨t, hRun⟩ := h
  let ⟨_, hMore⟩ := hLater
  ⟨_, t, hRun.trans hMore⟩

theorem Step.advances (h : Step setting w label w') : w.shared.Advances w'.shared label := by
  cases h with
  | env h => exact h.advances
  | act _ h => exact h.advances

theorem Later.store (h : Later setting w w') : w.shared.store.Later w'.shared.store := by
  obtain ⟨_, hRun⟩ := h
  induction hRun with
  | refl => exact .refl
  | next _ hStep ih =>
    obtain ⟨_, hStore⟩ := (Step.advances hStep).step
    exact ih.next hStore

/-- The rule for a shared assertion and one for each process, over the runs of the system. -/
theorem Run.invariant {G : List Label → Shared → Prop} {L : Nat → List Label → Shared → Process → Prop}
    (hFirst : ∀ t, G [] ⟨.start t, []⟩) (hLocal : ∀ i t, L i [] ⟨.start t, []⟩ .idle)
    (hEnv : ∀ {history w label s}, Run setting history w → G history w.shared →
      Surroundings setting w.shared label s →
      G (label :: history) s ∧ ∀ i x, L i history w.shared x → L i (label :: history) s x)
    (hAct : ∀ {i history w label s x}, Run setting history w → G history w.shared →
      L i history w.shared (w.procs i) → Act setting i w.shared (w.procs i) label s x →
      G (label :: history) s ∧ L i (label :: history) s x ∧
        ∀ j y, j ≠ i → L j history w.shared y → L j (label :: history) s y)
    (h : Run setting history w) : G history w.shared ∧ ∀ i, L i history w.shared (w.procs i) := by
  obtain ⟨t, hRun⟩ := h
  exact Interleaving.invariant (hFirst t) (fun i => hLocal i t)
    (fun _ _ _ _ hRun hG hStep => hEnv ⟨t, hRun⟩ hG hStep)
    (fun _ _ _ _ _ _ hRun hG hL hStep => hAct ⟨t, hRun⟩ hG hL hStep) hRun

theorem Run.reachable (h : Run setting history w) : w.shared.store.Reachable := by
  obtain ⟨t, hRun⟩ := h
  induction hRun with
  | refl => exact ⟨t, .refl⟩
  | next _ hStep ih =>
    obtain ⟨_, hStore⟩ := (Step.advances hStep).step
    exact ih.step hStore

end System

end ReliableNotifier
