import ReliableNotifier.Library.Run

/-! # Message servers

What a client of a message server can rely on, for a server that is not part of the program.
The server is a parameter: which objects it has, where it routes a message, which messages
it holds, what it refuses, and what its steps can be. `Lawful` is the list of what is
assumed of it. A message is ready in its queue or in the hands of the consumer that got it
under a tag. What a queue refuses or has kept for too long goes to its dead-letter exchange.
-/

namespace Amqp

variable {σ β : Type}

/-! ## Declarations -/

inductive ExchangeKind where
  | direct
  | fanout
  | topic
  | headers
  deriving DecidableEq

structure ExchangeSpec where
  kind : ExchangeKind
  durable : Bool
  autoDelete : Bool
  internal : Bool
  deriving DecidableEq

/-- The time to live is in milliseconds. -/
structure QueueSpec where
  durable : Bool
  autoDelete : Bool
  exclusive : Bool
  deadLetterExchange : Option String
  deadLetterRoutingKey : Option String
  messageTTL : Option Nat
  deriving DecidableEq

structure Binding where
  exchange : String
  key : String
  queue : String
  deriving DecidableEq

inductive Declaration where
  | exchange (name : String) (spec : ExchangeSpec)
  | queue (name : String) (spec : QueueSpec)
  | binding (binding : Binding)
  deriving DecidableEq

/-- Neither a restart nor the end of a connection removes the exchange. -/
def ExchangeSpec.lasts (spec : ExchangeSpec) : Bool := spec.durable && !spec.autoDelete

def QueueSpec.lasts (spec : QueueSpec) : Bool := spec.durable && !spec.autoDelete && !spec.exclusive

namespace Declaration

/-- The two name one object and give it different properties. -/
def clashes : Declaration → Declaration → Bool
  | .exchange name spec, .exchange name' spec' => name = name' && spec ≠ spec'
  | .queue name spec, .queue name' spec' => name = name' && spec ≠ spec'
  | _, _ => false

def isLastingExchange (name : String) : Declaration → Bool
  | .exchange name' spec => name' = name && spec.lasts
  | _ => false

def isLastingQueue (name : String) : Declaration → Bool
  | .queue name' spec => name' = name && spec.lasts
  | _ => false

/-- The object lasts, and so does what it refers to, which `earlier` declares. -/
def lasts (earlier : List Declaration) : Declaration → Bool
  | .exchange _ spec => spec.lasts
  | .queue _ spec => spec.lasts
  | .binding link => earlier.any (isLastingQueue link.queue) && earlier.any (isLastingExchange link.exchange)

end Declaration

/-- Declarations that can be made in this order on any server, and last. -/
structure Plan (plan : List Declaration) : Prop where
  consistent : ∀ d ∈ plan, ∀ e ∈ plan, d.clashes e = false
  lasts : ∀ before d after, plan = before ++ d :: after → d.lasts before = true

/-! ## Messages -/

structure Message (β : Type) where
  routingKey : String
  persistent : Bool
  body : β
  deriving DecidableEq

/-- A message in a queue, ready or with the consumer that has its tag. It is safe if the server has it where it has the
messages that it confirms. -/
structure Held (β : Type) where
  message : Message β
  queue : String
  safe : Bool
  tag : Option Nat
  deriving DecidableEq

/-- What a server does. A mandatory message is confirmed if it is acknowledged and not returned. With `turn` the server
does something by itself: it lets a message expire, closes channels or starts again. -/
inductive Event (β : Type) where
  | declare (d : Declaration)
  | publish (exchange : String) (message : Message β) (confirmed : Bool)
  | deliver (queue : String) (tag : Nat) (message : Message β)
  | ack (tag : Nat)
  | nack (tag : Nat) (requeue : Bool)
  | turn

/-- What a server may refuse to do. -/
inductive Request where
  | declare (d : Declaration)
  | consume (queue : String)
  deriving DecidableEq

structure Server (σ β : Type) where
  Has : σ → Declaration → Prop
  Routes : σ → (exchange key queue : String) → Prop
  Holds : σ → Held β → Prop
  Refuses : σ → Request → Prop
  Step : σ → Event β → σ → Prop

namespace Server

section

variable (server : Server σ β) (s : σ)

/-- Nothing is in the way of the declaration, and what it refers to is there. -/
structure Agrees (d : Declaration) : Prop where
  clashes : ∀ e, server.Has s e → d.clashes e = false
  queue : ∀ link, d = .binding link → ∃ spec, server.Has s (.queue link.queue spec)
  exchange : ∀ link, d = .binding link → ∃ spec, server.Has s (.exchange link.exchange spec)

/-- The message of `entry` went on to `entry'` by way of the dead-letter exchange of its queue. -/
structure Rerouted (entry entry' : Held β) : Prop where
  route : ∃ spec exchange, server.Has s (.queue entry.queue spec) ∧ spec.deadLetterExchange = some exchange ∧
    server.Routes s exchange (spec.deadLetterRoutingKey.getD entry.message.routingKey) entry'.queue
  body : entry'.message.body = entry.message.body
  persistent : entry'.message.persistent = entry.message.persistent
  safe : entry'.safe = entry.safe
  tag : entry'.tag = none

/-- Where a message that is held after a step was before. -/
inductive Came : Event β → Held β → Prop
  | same {event : Event β} {entry : Held β} (h : server.Holds s entry) : Came event entry
  | ready {event : Event β} {entry : Held β} (h : server.Holds s entry) : Came event { entry with tag := none }
  | taken {entry : Held β} {tag : Nat} (h : server.Holds s entry) :
      Came (.deliver entry.queue tag entry.message) { entry with tag := some tag }
  | published {exchange queue : String} {message : Message β} {confirmed safe : Bool}
      (hRoutes : server.Routes s exchange message.routingKey queue) :
      Came (.publish exchange message confirmed) ⟨message, queue, safe, none⟩
  | refused {entry entry' : Held β} {tag : Nat} (h : server.Holds s entry) (hTag : entry.tag = some tag)
      (hRerouted : server.Rerouted s entry entry') : Came (.nack tag false) entry'
  | expired {entry entry' : Held β} {spec : QueueSpec} {ttl : Nat} (h : server.Holds s entry)
      (hSpec : server.Has s (.queue entry.queue spec)) (hTTL : spec.messageTTL = some ttl)
      (hRerouted : server.Rerouted s entry entry') : Came .turn entry'

/-- What becomes of a safe message of a queue in a step to `s'`: it stays, or it is acknowledged, refused or too old. -/
inductive Stays (s' : σ) (spec : QueueSpec) (entry : Held β) : Event β → Prop
  | same {event : Event β} (h : server.Holds s' entry) : Stays s' spec entry event
  | ready {event : Event β} (h : server.Holds s' { entry with tag := none }) : Stays s' spec entry event
  | taken {tag : Nat} (h : server.Holds s' { entry with tag := some tag }) :
      Stays s' spec entry (.deliver entry.queue tag entry.message)
  | acked {tag : Nat} (hTag : entry.tag = some tag) : Stays s' spec entry (.ack tag)
  | refused {tag : Nat} (hTag : entry.tag = some tag) : Stays s' spec entry (.nack tag false)
  | expired {ttl : Nat} (hTTL : spec.messageTTL = some ttl)
      (h : ∀ exchange target, spec.deadLetterExchange = some exchange →
        server.Routes s exchange (spec.deadLetterRoutingKey.getD entry.message.routingKey) target →
        ∃ entry', server.Holds s' entry' ∧ entry'.queue = target ∧ server.Rerouted s entry entry') :
      Stays s' spec entry .turn

/-- Nothing is in the way of any of the declarations. -/
def Follows (plan : List Declaration) : Prop := ∀ d ∈ plan, ∀ e, server.Has s e → d.clashes e = false

/-- There is nothing but what the plan declares. -/
def Within (plan : List Declaration) : Prop := ∀ d, server.Has s d → d ∈ plan

def Provides (plan : List Declaration) : Prop := ∀ d ∈ plan, server.Has s d

end

/-- What is assumed of a server. Nobody deletes its objects or purges its queues, and its node does not fail between
taking a dead letter from one queue and writing it to the other. -/
structure Lawful (server : Server σ β) : Prop where
  /-- An object that was declared is there. -/
  declared {s s' : σ} {d : Declaration} : server.Step s (.declare d) s' → server.Has s' d
  /-- There is no object that was not declared. -/
  introduced {s s' : σ} {event : Event β} {d : Declaration} :
    server.Step s event s' → server.Has s' d → server.Has s d ∨ event = .declare d
  /-- What lasts and refers to what lasts is not removed. -/
  lasting {s s' : σ} {event : Event β} {d : Declaration} {earlier : List Declaration} :
    server.Step s event s' → server.Provides s earlier → server.Has s d → d.lasts earlier = true → server.Has s' d
  /-- A declaration in whose way nothing is can be made. -/
  declarable {s : σ} {d : Declaration} : server.Agrees s d → ∃ s', server.Step s (.declare d) s'
  /-- Nor is it refused. -/
  unrefused {s : σ} {d : Declaration} : server.Agrees s d → ¬server.Refuses s (.declare d)
  /-- Nobody is kept from consuming a queue that is there. -/
  consumable {s : σ} {name : String} {spec : QueueSpec} :
    server.Has s (.queue name spec) → ¬server.Refuses s (.consume name)
  /-- A direct exchange routes to the queues that are bound to it with the key. -/
  bound {s : σ} {exchange key queue : String} {spec : ExchangeSpec} : exchange ≠ "" →
    server.Has s (.exchange exchange spec) → spec.kind = .direct → server.Has s (.binding ⟨exchange, key, queue⟩) →
    server.Routes s exchange key queue
  /-- It routes to no other queue. -/
  unbound {s : σ} {exchange key queue : String} {spec : ExchangeSpec} : exchange ≠ "" →
    server.Has s (.exchange exchange spec) → spec.kind = .direct → server.Routes s exchange key queue →
    server.Has s (.binding ⟨exchange, key, queue⟩)
  /-- The exchange without a name routes to the queue of that name. -/
  named {s : σ} {queue : String} {spec : QueueSpec} :
    server.Has s (.queue queue spec) → server.Routes s "" queue queue
  /-- It routes to no other queue. -/
  unnamed {s : σ} {key queue : String} : server.Routes s "" key queue → queue = key
  /-- Messages are not made up and not changed. -/
  came {s s' : σ} {event : Event β} {entry : Held β} :
    server.Step s event s' → server.Holds s' entry → server.Came s event entry
  /-- What is delivered was in the queue. -/
  delivered {s s' : σ} {queue : String} {tag : Nat} {message : Message β} :
    server.Step s (.deliver queue tag message) s' →
    ∃ entry, server.Holds s entry ∧ entry.queue = queue ∧ entry.message = message
  /-- A confirmed message is safe in every queue that it is routed to. -/
  confirmed {s s' : σ} {exchange queue : String} {message : Message β} :
    server.Step s (.publish exchange message true) s' → server.Routes s exchange message.routingKey queue →
    server.Holds s' ⟨message, queue, true, none⟩
  /-- A safe, persistent message in a queue that lasts is not lost. -/
  kept {s s' : σ} {event : Event β} {entry : Held β} {spec : QueueSpec} :
    server.Step s event s' → server.Holds s entry → entry.message.persistent = true → entry.safe = true →
    server.Has s (.queue entry.queue spec) → spec.lasts = true → server.Stays s s' spec entry event

/-! ## Declaring a plan -/

variable {server : Server σ β} {s s' : σ} {event : Event β} {plan answered rest : List Declaration} {d : Declaration}

theorem Follows.step (hServer : server.Lawful) (hPlan : Plan plan) (h : server.Follows s plan)
    (hStep : server.Step s event s') (hEvent : ∀ d, event = .declare d → d ∈ plan) : server.Follows s' plan := by
  intro d hd e hHas
  rcases hServer.introduced hStep hHas with hOld | hNew
  · exact h d hd e hOld
  · exact hPlan.consistent d hd e (hEvent e hNew)

theorem Within.step (hServer : server.Lawful) (h : server.Within s plan) (hStep : server.Step s event s')
    (hEvent : ∀ d, event = .declare d → d ∈ plan) : server.Within s' plan := by
  intro d hHas
  rcases hServer.introduced hStep hHas with hOld | hNew
  · exact h d hOld
  · exact hEvent d hNew

/-- What was declared of a plan stays. -/
theorem Provides.step (hServer : server.Lawful) (hPlan : Plan plan) (hSplit : plan = answered ++ rest)
    (h : server.Provides s answered) (hStep : server.Step s event s') : server.Provides s' answered := by
  intro d hd
  obtain ⟨before, after, rfl⟩ := List.append_of_mem hd
  have hBefore : server.Provides s before := fun e he => h e (List.mem_append_left _ he)
  refine hServer.lasting hStep hBefore (h d hd) (hPlan.lasts before d (after ++ rest) ?_)
  rw [hSplit, List.append_assoc, List.cons_append]

/-- What a declaration that lasts refers to. -/
theorem exists_of_lasts {link : Binding} (h : server.Provides s answered)
    (hLasts : (Declaration.binding link).lasts answered = true) :
    (∃ spec, server.Has s (.queue link.queue spec)) ∧ ∃ spec, server.Has s (.exchange link.exchange spec) := by
  simp only [Declaration.lasts, Bool.and_eq_true, List.any_eq_true] at hLasts
  obtain ⟨⟨queue, hQueue, hQueueLasts⟩, exchange, hExchange, hExchangeLasts⟩ := hLasts
  constructor
  · cases queue with
    | queue name spec =>
      simp only [Declaration.isLastingQueue, Bool.and_eq_true, decide_eq_true_eq] at hQueueLasts
      exact ⟨spec, hQueueLasts.1 ▸ h _ hQueue⟩
    | exchange | binding => cases hQueueLasts
  · cases exchange with
    | exchange name spec =>
      simp only [Declaration.isLastingExchange, Bool.and_eq_true, decide_eq_true_eq] at hExchangeLasts
      exact ⟨spec, hExchangeLasts.1 ▸ h _ hExchange⟩
    | queue | binding => cases hExchangeLasts

/-- The next declaration of a plan has nothing in its way. -/
theorem Follows.agrees (h : server.Follows s plan) (hPlan : Plan plan) (hSplit : plan = answered ++ d :: rest)
    (hAnswered : server.Provides s answered) : server.Agrees s d := by
  have hLasts := hPlan.lasts answered d rest hSplit
  refine ⟨h d (hSplit ▸ List.mem_append_right _ List.mem_cons_self), ?_, ?_⟩
  · rintro link rfl
    exact (exists_of_lasts hAnswered hLasts).1
  · rintro link rfl
    exact (exists_of_lasts hAnswered hLasts).2

/-! ## Messages -/

variable {entry : Held β}

/-- What holds of every body that is published holds of every body that is held. -/
theorem Lawful.bodies {P : β → Prop} (hServer : server.Lawful) (hStep : server.Step s event s')
    (hOld : ∀ entry, server.Holds s entry → P entry.message.body)
    (hNew : ∀ exchange message confirmed, event = .publish exchange message confirmed → P message.body) :
    ∀ entry, server.Holds s' entry → P entry.message.body := by
  intro entry hEntry
  cases hServer.came hStep hEntry with
  | same h => exact hOld _ h
  | @ready _ old h => exact hOld old h
  | @taken old _ h => exact hOld old h
  | published => exact hNew _ _ _ rfl
  | refused h _ hRerouted | expired h _ _ hRerouted => exact hRerouted.body ▸ hOld _ h

/-- A tag is given out with the message that is delivered under it. -/
theorem Lawful.tagged {tag : Nat} (hServer : server.Lawful) (hStep : server.Step s event s')
    (hEntry : server.Holds s' entry) (hTag : entry.tag = some tag) :
    server.Holds s entry ∨ ∃ queue, event = .deliver queue tag entry.message := by
  cases hServer.came hStep hEntry with
  | same h => exact .inl h
  | ready | published => cases hTag
  | taken => exact .inr ⟨_, by rw [Option.some.inj hTag]⟩
  | refused _ _ hRerouted | expired _ _ _ hRerouted => cases hRerouted.tag.symm.trans hTag

end Server

end Amqp
