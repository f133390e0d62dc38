import ReliableNotifier.Library.Broker
import ReliableNotifier.Library.Interleaving

/-! # Connecting to the broker

Every publisher and every consumer declares the whole topology before it uses its channel,
and starts over when a call fails. The calls of many processes interleave. One that is not
answered may have been served all the same. The RabbitMQ server is any lawful server.
-/

namespace ReliableNotifier.Dispatch

open Amqp Interleaving LabelledRun

def exchangeName : String := "reliable-notifier.dispatch"
def queueName : String := "reliable-notifier.dispatch"
def routingKey : String := "delivery"
def deadLetterExchange : String := "reliable-notifier.dispatch.dlx"
def deadLetterQueue : String := "reliable-notifier.dispatch.dlq"
def deadLetterKey : String := "dead"
def deferralQueue : String := "reliable-notifier.dispatch.deferred"

/-- Both exchanges are declared alike. -/
def exchangeSpec : ExchangeSpec := ⟨.direct, true, false, false⟩

def deadLetterSpec : QueueSpec := ⟨true, false, false, none, none, none⟩

def queueSpec : QueueSpec := ⟨true, false, false, some deadLetterExchange, some deadLetterKey, none⟩

def deferralSpec : QueueSpec := ⟨true, false, false, some exchangeName, some routingKey, some 250⟩

/-- The calls of `declareTopology`, with the texts of their errors. -/
def declareTopology : List (String × Declaration) :=
  [("declare dead-letter exchange", .exchange deadLetterExchange exchangeSpec),
    ("declare dead-letter queue", .queue deadLetterQueue deadLetterSpec),
    ("bind dead-letter queue", .binding ⟨deadLetterExchange, deadLetterKey, deadLetterQueue⟩),
    ("declare dispatch exchange", .exchange exchangeName exchangeSpec),
    ("declare dispatch queue", .queue queueName queueSpec),
    ("bind dispatch queue", .binding ⟨exchangeName, routingKey, queueName⟩),
    ("declare dispatch deferral queue", .queue deferralQueue deferralSpec)]

def plan : List Declaration := declareTopology.map Prod.snd

/-- A call of `NewRabbitBroker`, with the declarations that were answered and those to come.
`NewRabbitConsumer` goes on from the broker that it returns. -/
inductive Connection where
  | closed
  | declaring (answered rest : List (String × Declaration))
  | failed (text : String)
  | established
  | consuming

inductive Label where
  | quiet
  | declared (i : Nat) (d : Declaration)
  | refused (i : Nat) (request : Request)

section

variable {σ β : Type} (server : Server σ β)

/-- Whatever else the server does, nobody else declares anything. -/
inductive Env : σ → Label → σ → Prop
  | other {s s' : σ} {event : Event β} (hEvent : ∀ d, event ≠ .declare d) (h : server.Step s event s') :
      Env s .quiet s'

inductive Act (i : Nat) : σ → Connection → Label → σ → Connection → Prop
  | undialed {s : σ} {text : String} (hText : text ∈ ["connect RabbitMQ", "open RabbitMQ channel"]) :
      Act i s .closed .quiet s (.failed text)
  | dial {s : σ} : Act i s .closed .quiet s (.declaring [] declareTopology)
  | served {s s' : σ} {text : String} {d : Declaration} {answered rest : List (String × Declaration)}
      (h : server.Step s (.declare d) s') :
      Act i s (.declaring answered ((text, d) :: rest)) (.declared i d) s'
        (.declaring (answered ++ [(text, d)]) rest)
  | unheard {s s' : σ} {text : String} {d : Declaration} {answered rest : List (String × Declaration)}
      (h : server.Step s (.declare d) s') :
      Act i s (.declaring answered ((text, d) :: rest)) (.declared i d) s' (.failed text)
  | lost {s : σ} {text : String} {d : Declaration} {answered rest : List (String × Declaration)} :
      Act i s (.declaring answered ((text, d) :: rest)) .quiet s (.failed text)
  | refused {s : σ} {text : String} {d : Declaration} {answered rest : List (String × Declaration)}
      (h : server.Refuses s (.declare d)) :
      Act i s (.declaring answered ((text, d) :: rest)) (.refused i (.declare d)) s (.failed text)
  | unconfirmed {s : σ} {answered : List (String × Declaration)} :
      Act i s (.declaring answered []) .quiet s (.failed "enable RabbitMQ publisher confirms")
  | confirm {s : σ} {answered : List (String × Declaration)} :
      Act i s (.declaring answered []) .quiet s .established
  | unprepared {s : σ} {text : String}
      (hText : text ∈ ["connect RabbitMQ Worker", "open RabbitMQ Worker channel", "set Worker prefetch",
        "consume dispatch queue"]) :
      Act i s .established .quiet s (.failed text)
  | consume {s : σ} : Act i s .established .quiet s .consuming
  | unknown {s : σ} (h : server.Refuses s (.consume queueName)) :
      Act i s .established (.refused i (.consume queueName)) s (.failed "consume dispatch queue")
  | close {s : σ} {c : Connection} : Act i s c .quiet s .closed

abbrev World (σ : Type) := Interleaving.World σ Connection

abbrev Step : World σ → Label → World σ → Prop := Interleaving.Step (Env server) (Act server)

end

/-! ## The plan -/

theorem plan_sound : Plan plan := by
  refine ⟨by decide, fun before d after h => ?_⟩
  have hAll : ∀ k < plan.length, (plan[k]?).any (fun d => d.lasts (plan.take k)) = true := by
    decide
  have hEntry := hAll before.length (by simp [h])
  simpa [h] using hEntry

variable {σ β : Type} {server : Server σ β} {s s' : σ}

theorem plan_split {answered rest : List (String × Declaration)} (h : declareTopology = answered ++ rest) :
    plan = answered.map Prod.snd ++ rest.map Prod.snd := by
  rw [plan, h, List.map_append]

/-- What a connection can rely on once it is established: where its messages are routed. -/
theorem routed_of_plan (hServer : server.Lawful) (h : server.Provides s plan) :
    (∀ queue, server.Routes s exchangeName routingKey queue ↔
      server.Has s (.binding ⟨exchangeName, routingKey, queue⟩)) ∧
    server.Routes s exchangeName routingKey queueName ∧
      ∀ queue, server.Routes s "" deferralQueue queue ↔ queue = deferralQueue := by
  have hExchange := h (.exchange exchangeName exchangeSpec) (by decide)
  refine ⟨fun queue => ⟨?_, ?_⟩, ?_, fun queue => ⟨hServer.unnamed, ?_⟩⟩
  · exact hServer.unbound (by decide) hExchange rfl
  · exact hServer.bound (by decide) hExchange rfl
  · exact hServer.bound (by decide) hExchange rfl (h _ (by decide))
  · rintro rfl
    exact hServer.named (h (.queue deferralQueue deferralSpec) (by decide))

/-! ## Runs -/

/-- What was answered is there, and the rest is still to come. -/
def Connection.Sure (server : Server σ β) (s : σ) : Connection → Prop
  | .declaring answered rest => declareTopology = answered ++ rest ∧ server.Provides s (answered.map Prod.snd)
  | .established | .consuming => server.Provides s plan
  | _ => True

variable {i : Nat} {c : Connection} {answered rest : List (String × Declaration)} {entry : String × Declaration}
  {history : List Label} {first w : World σ}

/-- Nothing that the server does takes away what a connection has declared. -/
theorem Connection.Sure.step {event : Event β} (hServer : server.Lawful) (h : c.Sure server s)
    (hStep : server.Step s event s') : c.Sure server s' := by
  cases c with
  | declaring answered rest => exact ⟨h.1, h.2.step hServer plan_sound (plan_split h.1) hStep⟩
  | established | consuming => exact Server.Provides.step hServer plan_sound (List.append_nil _).symm h hStep
  | closed | failed => trivial

/-- The next declaration has nothing in its way. -/
theorem Connection.Sure.agrees (h : (Connection.declaring answered (entry :: rest)).Sure server s)
    (hFollows : server.Follows s plan) : server.Agrees s entry.2 :=
  hFollows.agrees plan_sound (plan_split h.1) h.2

theorem Connection.Sure.mem_plan (h : (Connection.declaring answered (entry :: rest)).Sure server s) :
    entry.2 ∈ plan :=
  List.mem_map_of_mem (h.1 ▸ List.mem_append_right _ List.mem_cons_self)

theorem Connection.Sure.served (hServer : server.Lawful)
    (h : (Connection.declaring answered (entry :: rest)).Sure server s)
    (hStep : server.Step s (.declare entry.2) s') :
    (Connection.declaring (answered ++ [entry]) rest).Sure server s' := by
  refine ⟨by rw [h.1, List.append_assoc, List.singleton_append], fun d hd => ?_⟩
  rw [List.map_append] at hd
  rcases List.mem_append.mp hd with hOld | hNew
  · exact h.2.step hServer plan_sound (plan_split h.1) hStep d hOld
  · rw [List.mem_singleton.mp hNew]
    exact hServer.declared hStep

/-- A step of a connection, with what became of the server. -/
inductive Outcome (server : Server σ β) (s : σ) (label : Label) (s' : σ) : Prop
  | same (hSame : s' = s) (hLabel : label = .quiet)
  | declared {i : Nat} {d : Declaration} (hPlan : d ∈ plan) (hStep : server.Step s (.declare d) s')
      (hLabel : label = .declared i d)

/-- The calls of a connection are not refused, and it stays sure of what it was told. -/
theorem Act.outcome {label : Label} {c' : Connection} (hServer : server.Lawful) (h : Act server i s c label s' c')
    (hFollows : server.Follows s plan) (hSure : c.Sure server s) : c'.Sure server s' ∧ Outcome server s label s' := by
  cases h with
  | undialed | lost | unconfirmed | unprepared | close => exact ⟨trivial, .same rfl rfl⟩
  | dial => exact ⟨⟨rfl, List.forall_mem_nil _⟩, .same rfl rfl⟩
  | served hStep => exact ⟨hSure.served hServer hStep, .declared hSure.mem_plan hStep rfl⟩
  | unheard hStep => exact ⟨trivial, .declared hSure.mem_plan hStep rfl⟩
  | refused hRefused => exact absurd hRefused (hServer.unrefused (hSure.agrees hFollows))
  | confirm =>
    refine ⟨fun d hd => hSure.2 d ?_, .same rfl rfl⟩
    rw [plan_split hSure.1, List.map_nil, List.append_nil] at hd
    exact hd
  | consume => exact ⟨hSure, .same rfl rfl⟩
  | unknown hRefused => exact absurd hRefused (hServer.consumable (hSure (.queue queueName queueSpec) (by decide)))

/-- No call was refused, and the server is one that the plan can complete. -/
structure Unrefused (server : Server σ β) (before : σ) (history : List Label) (s : σ) : Prop where
  follows : server.Follows s plan
  within : server.Within before plan → server.Within s plan
  accepted : ∀ i request, Label.refused i request ∉ history

theorem Unrefused.step {before : σ} {event : Event β} {label : Label} (hServer : server.Lawful)
    (h : Unrefused server before history s) (hStep : server.Step s event s')
    (hEvent : ∀ d, event = .declare d → d ∈ plan) (hLabel : ∀ i request, label ≠ .refused i request) :
    Unrefused server before (label :: history) s' where
  follows := h.follows.step hServer plan_sound hStep hEvent
  within hBefore := (h.within hBefore).step hServer hStep hEvent
  accepted i request := List.not_mem_cons_of_ne_of_not_mem (hLabel i request).symm (h.accepted i request)

theorem Run.unrefused (hServer : server.Lawful) (hFollows : server.Follows first.shared plan)
    (hClosed : ∀ i, first.procs i = .closed) (h : Run (Step server) first history w) :
    Unrefused server first.shared history w.shared ∧ ∀ i, (w.procs i).Sure server w.shared := by
  refine Interleaving.invariant (G := Unrefused server first.shared) (L := fun _ _ s c => c.Sure server s)
    ⟨hFollows, id, fun _ _ => List.not_mem_nil⟩ (fun i => hClosed i ▸ trivial) ?_ ?_ h
  · rintro history w label s - hGood ⟨hEvent, hStep⟩
    refine ⟨hGood.step hServer hStep (fun d hSame => absurd hSame (hEvent d)) fun _ _ => Label.noConfusion, ?_⟩
    exact fun _ _ hSure => hSure.step hServer hStep
  · intro i history w label s c _ hGood hSure hAct
    obtain ⟨hOwn, hOutcome⟩ := hAct.outcome hServer hGood.follows hSure
    cases hOutcome with
    | same hSame hLabel =>
      subst hSame hLabel
      refine ⟨⟨hGood.follows, hGood.within, fun j request => ?_⟩, hOwn, fun _ _ _ hOther => hOther⟩
      exact List.not_mem_cons_of_ne_of_not_mem Label.noConfusion (hGood.accepted j request)
    | declared hPlan hStep hLabel =>
      subst hLabel
      refine ⟨hGood.step hServer hStep ?_ fun _ _ => Label.noConfusion, hOwn, fun _ _ _ hOther =>
        hOther.step hServer hStep⟩
      rintro d ⟨⟩
      exact hPlan

theorem step_at {label : Label} {c' : Connection} (hAt : w.procs i = c) (h : Act server i w.shared c label s' c') :
    Step server w label ⟨s', Function.update w.procs i c'⟩ :=
  .act i (hAt ▸ h)

/-- Whatever is already declared, a connection whose calls are answered gets through. -/
theorem exists_established (hServer : server.Lawful) (hAt : w.procs i = .declaring answered rest)
    (hFollows : server.Follows w.shared plan) (hSure : (Connection.declaring answered rest).Sure server w.shared) :
    ∃ later w', Run (Step server) w later w' ∧ w'.procs i = .established := by
  induction rest generalizing answered w with
  | nil => exact ⟨_, _, Run.refl.next (step_at hAt .confirm), Function.update_self ..⟩
  | cons entry rest ih =>
    obtain ⟨s', hDeclare⟩ := hServer.declarable (hSure.agrees hFollows)
    have hStill : server.Follows s' plan := by
      refine hFollows.step hServer plan_sound hDeclare ?_
      rintro d ⟨⟩
      exact hSure.mem_plan
    have hStep := step_at hAt (.served hDeclare)
    obtain ⟨later, w', hRun, hDone⟩ :=
      ih (w := ⟨s', Function.update w.procs i _⟩) (Function.update_self ..) hStill (hSure.served hServer hDeclare)
    exact ⟨_, w', (Run.refl.next hStep).trans hRun, hDone⟩

/-- Whatever the others do, no declaration is refused, and what a connection finds once it is established is the whole
topology with its routes, and nothing else if there was nothing else. A closed connection can always be established. -/
theorem connecting_completes (hServer : server.Lawful) (hFollows : server.Follows first.shared plan)
    (hClosed : ∀ i, first.procs i = .closed) (h : Run (Step server) first history w) :
    (∀ i request, Label.refused i request ∉ history) ∧
      (server.Within first.shared plan → server.Within w.shared plan) ∧
      (∀ i, w.procs i = .established ∨ w.procs i = .consuming →
        server.Provides w.shared plan ∧ server.Routes w.shared exchangeName routingKey queueName ∧
          ∀ queue, server.Routes w.shared "" deferralQueue queue ↔ queue = deferralQueue) ∧
      ∀ i, w.procs i = .closed → ∃ later w', Run (Step server) w later w' ∧ w'.procs i = .established := by
  obtain ⟨hGood, hSure⟩ := Run.unrefused hServer hFollows hClosed h
  refine ⟨hGood.accepted, hGood.within, fun i hAt => ?_, fun i hAt => ?_⟩
  · have hPlan : server.Provides w.shared plan := by
      have hOwn := hSure i
      rcases hAt with hAt | hAt <;> rw [hAt] at hOwn <;> exact hOwn
    exact ⟨hPlan, (routed_of_plan hServer hPlan).2⟩
  · have hDial : Step server w _ _ := step_at hAt .dial
    have hNothing : (Connection.declaring [] declareTopology).Sure server w.shared := ⟨rfl, List.forall_mem_nil _⟩
    obtain ⟨later, w', hRun, hDone⟩ := exists_established hServer (w := ⟨w.shared, Function.update w.procs i _⟩)
      (Function.update_self ..) hGood.follows hNothing
    exact ⟨_, w', (Run.refl.next hDial).trans hRun, hDone⟩

/-- What the plan leaves on a server that had nothing. -/
def complete : Topology where
  exchanges := [(deadLetterExchange, exchangeSpec), (exchangeName, exchangeSpec)]
  queues := [(deadLetterQueue, deadLetterSpec), (queueName, queueSpec), (deferralQueue, deferralSpec)]
  bindings := [⟨exchangeName, routingKey, queueName⟩, ⟨deadLetterExchange, deadLetterKey, deadLetterQueue⟩]

example : plan.foldlM Topology.declare .empty = some complete := rfl

/-- A server without objects, and nobody connected. -/
def start : World (Broker Unit) := ⟨⟨.empty, []⟩, fun _ => .closed⟩

theorem start_follows : Broker.server.Follows start.shared plan := by
  intro d _ e hHas
  cases e with
  | exchange | queue => cases hHas
  | binding => exact absurd hHas List.not_mem_nil

-- the first declaration is served, and the connection that made it does not hear of it
theorem connecting_completes_after_lost_answer :
    ∃ history w, Run (Step Broker.server) start history w ∧ w.procs 0 = .failed "declare dead-letter exchange" ∧
      w.shared.topology.exchanges = [(deadLetterExchange, exchangeSpec)] ∧
      ∃ later w', Run (Step Broker.server) w later w' ∧ w'.procs 1 = .established := by
  have hDialed : Run (Step Broker.server) start _ _ := Run.refl.next (step_at (i := 0) rfl .dial)
  have hRun := hDialed.next
    (step_at (i := 0) (c := .declaring [] declareTopology) rfl (.unheard (.declare rfl)))
  refine ⟨_, _, hRun, rfl, rfl, ?_⟩
  exact (connecting_completes Broker.lawful start_follows (fun _ => rfl) hRun).2.2.2 1 rfl

end ReliableNotifier.Dispatch
