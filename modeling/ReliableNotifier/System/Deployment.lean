import ReliableNotifier.Rabbit.Confirms
import ReliableNotifier.Rabbit.Topology
import ReliableNotifier.System.Acknowledge
import ReliableNotifier.System.Execution
import ReliableNotifier.Wire.RoundTrip

/-! # The service on its message server

The system of stores, workers and publishers again, now with a server whose queues hold
bodies. A consumer is handed a message of the dispatch queue and has what its body decodes
to. The server is any lawful one. A call of `Publish` or `Defer` takes the next confirmation
of its channel, which is that of another message once a call has left its own behind. Every
run is one of the system in which the broker is only a list of signals.
-/

namespace ReliableNotifier

/-- A `dispatch.Signal` whose texts stand for the identifiers of the signal. -/
structure Wire.Signal.Carries (text : Wire.Signal) (signal : ReliableNotifier.Signal) : Prop where
  read : text.read = signal
  valid : text.validate = .ok ()
  range : text.generation < 2 ^ 63

theorem Wire.Signal.Carries.message {text : Wire.Signal} {signal : ReliableNotifier.Signal} (h : text.Carries signal) :
    Wire.message (Wire.marshal text) = some signal :=
  Wire.message_eq_some_iff.mpr ⟨text, Wire.accepts_marshal h.valid h.range, h.read⟩

namespace Deployment

open Amqp Interleaving
open Json (Bytes)

variable {σ : Type}

/-- Where the service runs: the server that it uses, which has no messages at first, and the channel that a process
publishes on. The goroutines of one consumer share that of its deferrer. -/
structure Site (σ : Type) where
  setting : Setting
  server : Server σ Bytes
  lawful : server.Lawful
  first : σ
  empty : ∀ entry, ¬server.Holds first entry
  channel : Nat → Nat

structure Shared (σ : Type) where
  store : Store
  broker : σ
  /-- The channels with a confirmation that its own call did not read. -/
  left : List Nat
  /-- The signals of the calls that took the confirmation of another message for theirs. -/
  strays : List Signal

def Shared.start (first : σ) (t : Time) : Shared σ := ⟨.start t, first, [], []⟩

/-- The message that `publishSignal` hands to the channel. -/
def signalMessage (routingKey : String) (text : Wire.Signal) : Message Bytes := ⟨routingKey, true, Wire.marshal text⟩

/-- The message was sent, whether or not the server has got it. -/
def Sent (server : Server σ Bytes) (exchange : String) (message : Message Bytes) (b b' : σ) : Prop :=
  b' = b ∨ ∃ confirmed, server.Step b (.publish exchange message confirmed) b'

/-- A call of `publishSignal` on a channel, with its message and its answer in one step. It returns `nil` for the
confirmation of its own message or for one that an earlier call left behind. A call that ends by its context or by a
returned message leaves its own behind. -/
inductive PublishSignal (server : Server σ Bytes) (channel : Nat) (exchange routingKey : String) (signal : Signal) :
    Shared σ → Bool → Shared σ → Prop
  | confirmed {s : Shared σ} {b : σ} {text : Wire.Signal} (hText : text.Carries signal) (hOwn : channel ∉ s.left)
      (h : server.Step s.broker (.publish exchange (signalMessage routingKey text) true) b) :
      PublishSignal server channel exchange routingKey signal s true { s with broker := b }
  | stray {s : Shared σ} {b : σ} {text : Wire.Signal} (hText : text.Carries signal) (hLeft : channel ∈ s.left)
      (h : Sent server exchange (signalMessage routingKey text) s.broker b) :
      PublishSignal server channel exchange routingKey signal s true
        { s with broker := b, strays := signal :: s.strays }
  | failed {s : Shared σ} {b : σ} {text : Wire.Signal} (hText : text.Carries signal)
      (h : Sent server exchange (signalMessage routingKey text) s.broker b) :
      PublishSignal server channel exchange routingKey signal s false { s with broker := b }
  | abandoned {s : Shared σ} {b : σ} {text : Wire.Signal} (hText : text.Carries signal)
      (h : Sent server exchange (signalMessage routingKey text) s.broker b) :
      PublishSignal server channel exchange routingKey signal s false
        { s with broker := b, left := channel :: s.left }

abbrev Publish (site : Site σ) (i : Nat) : Signal → Shared σ → Bool → Shared σ → Prop :=
  PublishSignal site.server (site.channel i) Dispatch.exchangeName Dispatch.routingKey

abbrev Defer (site : Site σ) (i : Nat) : Signal → Shared σ → Bool → Shared σ → Prop :=
  PublishSignal site.server (site.channel i) "" Dispatch.deferralQueue

inductive Env (site : Site σ) : Shared σ → Label → Shared σ → Prop
  | store {s : Shared σ} {label : Label} {t : Store} (h : Surroundings site.setting ⟨s.store, []⟩ label ⟨t, []⟩) :
      Env site s label { s with store := t }
  | broker {s : Shared σ} {b : σ} (h : site.server.Step s.broker .turn b) : Env site s .quiet { s with broker := b }
  | declare {s : Shared σ} {d : Declaration} {b : σ} (hPlan : d ∈ Dispatch.plan)
      (h : site.server.Step s.broker (.declare d) b) : Env site s .quiet { s with broker := b }
  | foreign {s : Shared σ} {persistent confirmed : Bool} {body : Bytes} {b : σ}
      (hForeign : ∀ signal, Wire.message body = some signal → site.setting.foreign signal)
      (h : site.server.Step s.broker
        (.publish Dispatch.exchangeName ⟨Dispatch.routingKey, persistent, body⟩ confirmed) b) :
      Env site s .quiet { s with broker := b }

/-- The calls of the store are those of the system. What is sent on a channel that is gone has no effect. -/
inductive Act (site : Site σ) (i : Nat) : Shared σ → Process → Label → Shared σ → Process → Prop
  | store {s : Shared σ} {x x' : Process} {label : Label} {t : Store} (hLabel : label.Internal)
      (h : ReliableNotifier.Act site.setting i ⟨s.store, []⟩ x label ⟨t, []⟩ x') :
      Act site i s x label { s with store := t } x'
  | receive {s : Shared σ} {message : Message Bytes} {b : σ}
      (h : site.server.Step s.broker (.deliver Dispatch.queueName i message) b) :
      Act site i s .idle (.receive i (Wire.message message.body)) { s with broker := b }
        (.consumer (.receive (Wire.message message.body)))
  | publish {s s' : Shared σ} {published : Nat} {event : OutboxEvent} {rest : List OutboxEvent}
      (h : Publish site i event.signal s true s') :
      Act site i s (.publisher (.publishing published event rest)) (.publish i event.signal) s'
        (.publisher (.afterPublish published event rest true))
  | unpublished {s s' : Shared σ} {published : Nat} {event : OutboxEvent} {rest : List OutboxEvent}
      (h : Publish site i event.signal s false s') :
      Act site i s (.publisher (.publishing published event rest)) .quiet s'
        (.publisher (.afterPublish published event rest false))
  | defer {s s' : Shared σ} {signal : Signal} (h : Defer site i signal s true s') :
      Act site i s (.consumer (.deferring signal)) (.defer i signal) s' (.consumer (.afterDefer signal true))
  | undeferred {s s' : Shared σ} {signal : Signal} (h : Defer site i signal s false s') :
      Act site i s (.consumer (.deferring signal)) .quiet s' (.consumer (.afterDefer signal false))
  | ack {s : Shared σ} {signal : Signal} {b : σ} (h : b = s.broker ∨ site.server.Step s.broker (.ack i) b) :
      Act site i s (.consumer (.acking signal)) (.ack i signal) { s with broker := b } (.consumer .finished)
  | nack {s : Shared σ} {signal : Option Signal} {requeue : Bool} {b : σ}
      (h : b = s.broker ∨ site.server.Step s.broker (.nack i requeue) b) :
      Act site i s (.consumer (.nacking signal requeue)) (.nack i signal requeue) { s with broker := b }
        (.consumer .finished)

abbrev World (σ : Type) := Interleaving.World (Shared σ) Process

abbrev Step (site : Site σ) : World σ → Label → World σ → Prop := Interleaving.Step (Env site) (Act site)

def start (first : σ) (t : Time) : World σ := ⟨.start first t, fun _ => .idle⟩

def Run (site : Site σ) (history : List Label) (w : World σ) : Prop :=
  ∃ t, LabelledRun.Run (Step site) (start site.first t) history w

variable {site : Site σ} {history : List Label} {w w' : World σ} {s s' : Shared σ} {label : Label} {i : Nat}
  {x x' : Process} {signal : Signal} {event : Event Bytes}

/-- The rule for a shared assertion and one for each process, over the runs of the deployed service. -/
theorem Run.invariant {G : List Label → Shared σ → Prop} {L : Nat → List Label → Shared σ → Process → Prop}
    (hFirst : ∀ t, G [] (.start site.first t)) (hLocal : ∀ i t, L i [] (.start site.first t) .idle)
    (hEnv : ∀ {history w label s}, Run site history w → G history w.shared → Env site w.shared label s →
      G (label :: history) s ∧ ∀ i x, L i history w.shared x → L i (label :: history) s x)
    (hAct : ∀ {i history w label s x}, Run site history w → G history w.shared →
      L i history w.shared (w.procs i) → Act site i w.shared (w.procs i) label s x →
      G (label :: history) s ∧ L i (label :: history) s x ∧
        ∀ j y, j ≠ i → L j history w.shared y → L j (label :: history) s y)
    (h : Run site history w) : G history w.shared ∧ ∀ i, L i history w.shared (w.procs i) := by
  obtain ⟨t, hRun⟩ := h
  exact Interleaving.invariant (hFirst t) (fun i => hLocal i t)
    (fun _ _ _ _ hRun hG hStep => hEnv ⟨t, hRun⟩ hG hStep)
    (fun _ _ _ _ _ _ hRun hG hL hStep => hAct ⟨t, hRun⟩ hG hL hStep) hRun

/-! ## What the server sees -/

/-- What a call does to the server, and to nothing else of the state but its own records. -/
theorem PublishSignal.sent {server : Server σ Bytes} {channel : Nat} {exchange routingKey : String} {ok : Bool}
    (h : PublishSignal server channel exchange routingKey signal s ok s') :
    s'.store = s.store ∧ s.strays ⊆ s'.strays ∧ ∃ text : Wire.Signal, text.Carries signal ∧
      Sent server exchange (signalMessage routingKey text) s.broker s'.broker := by
  cases h with
  | confirmed hText _ h => exact ⟨rfl, List.Subset.refl _, _, hText, .inr ⟨true, h⟩⟩
  | stray hText _ h => exact ⟨rfl, List.subset_cons_self _ _, _, hText, h⟩
  | failed hText h | abandoned hText h => exact ⟨rfl, List.Subset.refl _, _, hText, h⟩

/-- The calls on one channel, interleaved as the mutex and the server have it, return `nil` as they do here, if `left`
has the channels on which a call strayed and the server confirms what it acknowledges and does not return. -/
theorem publishSignal_of_nil {calls : List Rabbit.Label} {v : Rabbit.World} {server : Server σ Bytes} {channel : Nat}
    {exchange routingKey messageType : String} {text : Wire.Signal} {tag : Option Nat} {b : σ}
    (hRun : LabelledRun.Run Rabbit.Step Rabbit.start calls v)
    (hNil : v.procs i = .done ⟨exchange, routingKey, messageType, signal⟩ tag none) (hText : text.Carries signal)
    (hLeft : channel ∉ s.left → Rabbit.Prompt i calls)
    (hSent : Sent server exchange (signalMessage routingKey text) s.broker b)
    (hServer : ∀ k, Rabbit.Delivered ⟨exchange, routingKey, messageType, signal⟩ k v.shared →
      server.Step s.broker (.publish exchange (signalMessage routingKey text) true) b) :
    ∃ s', PublishSignal server channel exchange routingKey signal s true s' ∧ s'.broker = b := by
  by_cases hStrayed : channel ∈ s.left
  · exact ⟨_, .stray hText hStrayed hSent, rfl⟩
  · obtain ⟨k, _, hDelivered⟩ := Rabbit.Run.delivered hRun (hLeft hStrayed) hNil
    exact ⟨_, .confirmed hText hStrayed (hServer k hDelivered), rfl⟩

/-- What a process in its place can ask of the server, and where it is then. -/
inductive Asks (i : Nat) : Process → Event Bytes → Process → Prop
  | receive {message : Message Bytes} :
      Asks i .idle (.deliver Dispatch.queueName i message) (.consumer (.receive (Wire.message message.body)))
  | publish {published : Nat} {event : OutboxEvent} {rest : List OutboxEvent} {text : Wire.Signal}
      {confirmed ok : Bool} (hText : text.Carries event.signal) :
      Asks i (.publisher (.publishing published event rest))
        (.publish Dispatch.exchangeName (signalMessage Dispatch.routingKey text) confirmed)
        (.publisher (.afterPublish published event rest ok))
  | defer {signal : Signal} {text : Wire.Signal} {confirmed ok : Bool} (hText : text.Carries signal) :
      Asks i (.consumer (.deferring signal)) (.publish "" (signalMessage Dispatch.deferralQueue text) confirmed)
        (.consumer (.afterDefer signal ok))
  | ack {signal : Signal} : Asks i (.consumer (.acking signal)) (.ack i) (.consumer .finished)
  | nack {signal : Option Signal} {requeue : Bool} :
      Asks i (.consumer (.nacking signal requeue)) (.nack i requeue) (.consumer .finished)

theorem Act.asks (h : Act site i s x label s' x') :
    s'.broker = s.broker ∨ ∃ event, site.server.Step s.broker event s'.broker ∧ Asks i x event x' := by
  cases h with
  | store => exact .inl rfl
  | receive h => exact .inr ⟨_, h, .receive⟩
  | publish h | unpublished h =>
    obtain ⟨_, _, text, hText, hSent⟩ := h.sent
    exact hSent.imp_right fun ⟨_, hStep⟩ => ⟨_, hStep, .publish hText⟩
  | defer h | undeferred h =>
    obtain ⟨_, _, text, hText, hSent⟩ := h.sent
    exact hSent.imp_right fun ⟨_, hStep⟩ => ⟨_, hStep, .defer hText⟩
  | ack h => exact h.imp_right fun hStep => ⟨_, hStep, .ack⟩
  | nack h => exact h.imp_right fun hStep => ⟨_, hStep, .nack⟩

/-- What happens to the server without the service. -/
inductive Arises (setting : Setting) : Event Bytes → Prop
  | turn : Arises setting .turn
  | declare {d : Declaration} (hPlan : d ∈ Dispatch.plan) : Arises setting (.declare d)
  | foreign {persistent confirmed : Bool} {body : Bytes}
      (hForeign : ∀ signal, Wire.message body = some signal → setting.foreign signal) :
      Arises setting (.publish Dispatch.exchangeName ⟨Dispatch.routingKey, persistent, body⟩ confirmed)

theorem Env.arises (h : Env site s label s') :
    s'.broker = s.broker ∨
      ∃ event, site.server.Step s.broker event s'.broker ∧ Arises site.setting event ∧ label = .quiet := by
  cases h with
  | store => exact .inl rfl
  | broker h => exact .inr ⟨_, h, .turn, rfl⟩
  | declare hPlan h => exact .inr ⟨_, h, .declare hPlan, rfl⟩
  | foreign hForeign h => exact .inr ⟨_, h, .foreign hForeign, rfl⟩

/-- Nobody declares anything but the plan. -/
theorem Asks.declares (h : Asks i x event x') (d : Declaration) : event ≠ .declare d := by
  rintro rfl
  cases h

theorem Arises.declares (h : Arises site.setting event) (d : Declaration) (hDeclares : event = .declare d) :
    d ∈ Dispatch.plan := by
  subst hDeclares
  cases h with
  | declare hPlan => exact hPlan

/-! ## The system below -/

/-- What the store answers does not depend on the broker. -/
theorem frame {setting : Setting} {t t' : Store} (hLabel : label.Internal)
    (h : ReliableNotifier.Act setting i ⟨t, []⟩ x label ⟨t', []⟩ x') (signals : List Signal) :
    ReliableNotifier.Act setting i ⟨t, signals⟩ x label ⟨t', signals⟩ x' := by
  cases h with
  | receive => exact hLabel.elim
  | check hClock hReply => exact .check hClock hReply
  | observe hServed => exact .observe hServed
  | acquire granted => exact .acquire granted
  | claim hServed => exact .claim hServed
  | send parseTime jitter startedAt finishedAt result err =>
    exact .send parseTime jitter startedAt finishedAt result err
  | complete hServed => exact .complete hServed
  | undeferred => exact .undeferred (.inl rfl)
  | ack => exact hLabel.elim
  | nack => exact hLabel.elim
  | claimOutbox hServed => exact .claimOutbox hServed
  | unpublished => exact .unpublished (.inl rfl)
  | mark hServed => exact .mark hServed
  | release hServed => exact .release hServed
  | crash => exact .crash

/-- The signals of what the queues hold were accepted, or come from elsewhere. -/
def Known (setting : Setting) (signals : List Signal) (body : Bytes) : Prop :=
  ∀ signal, Wire.message body = some signal → signal ∈ signals ∨ setting.foreign signal

theorem Known.mono {setting : Setting} {signals signals' : List Signal} {body : Bytes} (h : Known setting signals body)
    (hSubset : signals ⊆ signals') : Known setting signals' body :=
  fun signal hSignal => (h signal hSignal).imp_left fun hMem => hSubset hMem

/-- What a call sends is known once its signal is. -/
theorem PublishSignal.known {channel : Nat} {exchange routingKey : String} {ok : Bool} {signals : List Signal}
    (h : PublishSignal site.server channel exchange routingKey signal s ok s')
    (hHeld : ∀ entry, site.server.Holds s.broker entry → Known site.setting signals entry.message.body) :
    ∀ entry, site.server.Holds s'.broker entry → Known site.setting (signal :: signals) entry.message.body := by
  have hOld (entry : Held Bytes) (hEntry : site.server.Holds s.broker entry) :
      Known site.setting (signal :: signals) entry.message.body :=
    (hHeld entry hEntry).mono (List.subset_cons_self _ _)
  obtain ⟨_, _, text, hText, hSame | ⟨_, hStep⟩⟩ := h.sent
  · rwa [hSame]
  · refine site.lawful.bodies hStep hOld ?_
    rintro _ _ _ ⟨⟩ other hOther
    obtain rfl := Option.some.inj (hText.message.symm.trans hOther)
    exact .inl List.mem_cons_self

structure Simulates (site : Site σ) (w : World σ) (v : System) : Prop where
  store : v.shared.store = w.shared.store
  procs : v.procs = w.procs
  held : ∀ entry, site.server.Holds w.shared.broker entry →
    Known site.setting v.shared.signals entry.message.body

theorem Env.simulated {v : System} (hSim : Simulates site w v) (h : Env site w.shared label s) :
    ∃ v', System.Step site.setting v label v' ∧ Simulates site { w with shared := s } v' := by
  obtain ⟨⟨store, signals⟩, procs⟩ := v
  obtain ⟨rfl, rfl, hHeld⟩ := hSim
  -- the server's own steps are steps of the clock that take no time
  have hStays : System.Step site.setting ⟨⟨w.shared.store, signals⟩, w.procs⟩ .quiet _ := .env (.wait le_rfl)
  cases h with
  | store h =>
    cases h with
    | wait hClock => exact ⟨_, .env (.wait hClock), rfl, rfl, hHeld⟩
    | commit hExternal hStep => exact ⟨_, .env (.commit hExternal hStep), rfl, rfl, hHeld⟩
  | broker h | declare _ h => exact ⟨_, hStays, rfl, rfl, site.lawful.bodies h hHeld (by rintro _ _ _ ⟨⟩)⟩
  | foreign hForeign h =>
    refine ⟨_, hStays, rfl, rfl, site.lawful.bodies h hHeld ?_⟩
    rintro _ _ _ ⟨⟩ signal hSignal
    exact .inr (hForeign signal hSignal)

theorem Act.simulated {v : System} (hSim : Simulates site w v) (h : Act site i w.shared (w.procs i) label s x) :
    ∃ v', System.Step site.setting v label v' ∧ Simulates site ⟨s, Function.update w.procs i x⟩ v' := by
  obtain ⟨⟨store, signals⟩, procs⟩ := v
  obtain ⟨rfl, rfl, hHeld⟩ := hSim
  generalize hAt : w.procs i = y at h
  have hStep {signals' : List Signal} {t : Store}
      (hAct : ReliableNotifier.Act site.setting i ⟨w.shared.store, signals⟩ y label ⟨t, signals'⟩ x) :
      System.Step site.setting ⟨⟨w.shared.store, signals⟩, w.procs⟩ label
        ⟨⟨t, signals'⟩, Function.update w.procs i x⟩ :=
    .act i (hAt ▸ hAct)
  cases h with
  | store hLabel h => exact ⟨_, hStep (frame hLabel h signals), rfl, rfl, hHeld⟩
  | receive h =>
    obtain ⟨entry, hEntry, _, rfl⟩ := site.lawful.delivered h
    refine ⟨_, hStep (.receive (hHeld entry hEntry)), rfl, rfl, site.lawful.bodies h hHeld ?_⟩
    rintro _ _ _ ⟨⟩
  | publish h => exact ⟨_, hStep .publish, h.sent.1.symm, rfl, h.known hHeld⟩
  | unpublished h => exact ⟨_, hStep (.unpublished (.inr rfl)), h.sent.1.symm, rfl, h.known hHeld⟩
  | defer h => exact ⟨_, hStep .defer, h.sent.1.symm, rfl, h.known hHeld⟩
  | undeferred h => exact ⟨_, hStep (.undeferred (.inr rfl)), h.sent.1.symm, rfl, h.known hHeld⟩
  | ack h =>
    rcases h with rfl | h
    · exact ⟨_, hStep .ack, rfl, rfl, hHeld⟩
    · exact ⟨_, hStep .ack, rfl, rfl, site.lawful.bodies h hHeld (by rintro _ _ _ ⟨⟩)⟩
  | nack h =>
    rcases h with rfl | h
    · exact ⟨_, hStep .nack, rfl, rfl, hHeld⟩
    · exact ⟨_, hStep .nack, rfl, rfl, site.lawful.bodies h hHeld (by rintro _ _ _ ⟨⟩)⟩

theorem Run.simulated (h : Run site history w) : ∃ v, System.Run site.setting history v ∧ Simulates site w v := by
  obtain ⟨t, hRun⟩ := h
  induction hRun with
  | refl => exact ⟨System.start t, ⟨t, .refl⟩, rfl, rfl, fun entry hEntry => absurd hEntry (site.empty entry)⟩
  | next _ hStep ih =>
    obtain ⟨v, hBelow, hSim⟩ := ih
    cases hStep with
    | env h =>
      obtain ⟨v', hStep, hSim'⟩ := h.simulated hSim
      exact ⟨v', hBelow.next hStep, hSim'⟩
    | act i h =>
      obtain ⟨v', hStep, hSim'⟩ := h.simulated hSim
      exact ⟨v', hBelow.next hStep, hSim'⟩

/-! ## Executing scripts -/

inductive Command where
  | calls (command : System.Command)
  | receive (i : Nat)
  | publish (i : Nat)
  | defer (i : Nat)
  | abandon (i : Nat)
  | stray (i : Nat)
  | ack (i : Nat)
  | nack (i : Nat)
  | foreign (body : Bytes)
  | expire (queue : String)
  | disconnect (i : Nat)
  | restart

/-- The label neither takes nor settles a message. -/
def internal : Label → Bool
  | .receive _ _ => false
  | .ack _ _ => false
  | .nack _ _ _ => false
  | _ => true

theorem internal_iff : internal label = true ↔ label.Internal := by
  cases label <;> simp [internal, Label.Internal]

/-- The columns of the store hold the signal. -/
def fits (signal : Signal) : Bool :=
  signal.deliveryID < 2 ^ 128 && signal.generation < 2 ^ 63 && signal.traceID < 2 ^ 128

theorem carries_render {signal : Signal} (h : fits signal = true) : (Wire.render signal).Carries signal := by
  simp only [fits, Bool.and_eq_true, decide_eq_true_eq] at h
  obtain ⟨⟨hDelivery, hGeneration⟩, hTrace⟩ := h
  have hRange : 0 ≤ (signal.generation : Int) ∧ (signal.generation : Int) < 2 ^ 63 := by
    omega
  refine ⟨?_, (Wire.emitted_mk (.stored hDelivery) hRange (.stored hTrace)).accepts.2, hRange.2⟩
  simp [Wire.Signal.read, Wire.render, Wire.uuidValue_uuidText]

/-- A server in memory with the topology and nothing else. Process 0 is a publisher, and the others are the goroutines
of one consumer. -/
def inMemory : Site (Broker Bytes) where
  setting := closedSetting
  server := Broker.server
  lawful := Broker.lawful
  first := ⟨Dispatch.complete, []⟩
  empty _ := List.not_mem_nil
  channel i := if i = 0 then 0 else 1

def goOn (w : World (Broker Bytes)) (i : Nat) (b : Broker Bytes) (x : Process) : World (Broker Bytes) :=
  ⟨{ w.shared with broker := b }, Function.update w.procs i x⟩

def turn (w : World (Broker Bytes)) (b : Broker Bytes) : World (Broker Bytes) :=
  { w with shared := { w.shared with broker := b } }

/-- A call that reads the confirmation of its own message. -/
def confirm (w : World (Broker Bytes)) (i : Nat) (exchange routingKey : String) (signal : Signal) :
    Option (Broker Bytes) :=
  if fits signal && inMemory.channel i ∉ w.shared.left && w.shared.broker.topology.route exchange routingKey ≠ [] then
    some (w.shared.broker.publish exchange (signalMessage routingKey (Wire.render signal)) true)
  else none

def execute (w : World (Broker Bytes)) : Command → Option (Label × World (Broker Bytes))
  | .calls command =>
    (System.execute ⟨⟨w.shared.store, []⟩, w.procs⟩ command).bind fun next =>
      if internal next.1 && next.2.shared.signals = [] then
        some (next.1, ⟨{ w.shared with store := next.2.shared.store }, next.2.procs⟩)
      else none
  | .receive i => match w.procs i with
    | .idle => (w.shared.broker.deliver Dispatch.queueName i).map fun next =>
        (.receive i (Wire.message next.1.body),
          goOn w i next.2 (.consumer (.receive (Wire.message next.1.body))))
    | _ => none
  | .publish i => match w.procs i with
    | .publisher (.publishing published event rest) =>
      (confirm w i Dispatch.exchangeName Dispatch.routingKey event.signal).map fun b =>
        (.publish i event.signal, goOn w i b (.publisher (.afterPublish published event rest true)))
    | _ => none
  | .defer i => match w.procs i with
    | .consumer (.deferring signal) =>
      (confirm w i "" Dispatch.deferralQueue signal).map fun b =>
        (.defer i signal, goOn w i b (.consumer (.afterDefer signal true)))
    | _ => none
  | .abandon i => match w.procs i with
    | .consumer (.deferring signal) =>
      if fits signal then
        some (.quiet, ⟨{ w.shared with left := inMemory.channel i :: w.shared.left },
          Function.update w.procs i (.consumer (.afterDefer signal false))⟩)
      else none
    | _ => none
  | .stray i => match w.procs i with
    | .consumer (.deferring signal) =>
      if fits signal && inMemory.channel i ∈ w.shared.left then
        some (.defer i signal, ⟨{ w.shared with strays := signal :: w.shared.strays },
          Function.update w.procs i (.consumer (.afterDefer signal true))⟩)
      else none
    | _ => none
  | .ack i => match w.procs i with
    | .consumer (.acking signal) => some (.ack i signal, goOn w i (w.shared.broker.ack i) (.consumer .finished))
    | _ => none
  | .nack i => match w.procs i with
    | .consumer (.nacking signal requeue) =>
      some (.nack i signal requeue, goOn w i (w.shared.broker.nack i requeue) (.consumer .finished))
    | _ => none
  | .foreign body =>
    if Wire.message body = none then
      some (.quiet, turn w (w.shared.broker.publish Dispatch.exchangeName ⟨Dispatch.routingKey, false, body⟩ false))
    else none
  | .expire queue => (w.shared.broker.expire queue).map fun b => (.quiet, turn w b)
  | .disconnect i => some (.quiet, turn w (w.shared.broker.disconnect (· = i)))
  | .restart => some (.quiet, turn w w.shared.broker.restart)

def play (history : List Label) (w : World (Broker Bytes)) (script : List Command) :
    Option (List Label × World (Broker Bytes)) :=
  LabelledRun.play execute history w script

section

variable {w w' : World (Broker Bytes)} {s : Shared (Broker Bytes)}

theorem act_step {y : Process} (hHere : w.procs i = x) (h : Act inMemory i w.shared x label s y) :
    Step inMemory w label ⟨s, Function.update w.procs i y⟩ :=
  .act i (hHere ▸ h)

theorem step_of_calls {v : System} (hInternal : label.Internal) (hSignals : v.shared.signals = [])
    (h : System.Step closedSetting ⟨⟨w.shared.store, []⟩, w.procs⟩ label v) :
    Step inMemory w label ⟨{ w.shared with store := v.shared.store }, v.procs⟩ := by
  obtain ⟨⟨store, signals⟩, procs⟩ := v
  obtain rfl : signals = [] := hSignals
  cases h with
  | env h => exact .env (.store h)
  | act i h => exact .act i (.store hInternal h)

theorem publishSignal_of_confirm {exchange routingKey : String} {b : Broker Bytes}
    (h : confirm w i exchange routingKey signal = some b) :
    PublishSignal Broker.server (inMemory.channel i) exchange routingKey signal w.shared true
      { w.shared with broker := b } := by
  unfold confirm at h
  split at h
  · rename_i hChecked
    simp only [Bool.and_eq_true, decide_eq_true_eq] at hChecked
    cases h
    exact .confirmed (carries_render hChecked.1.1) hChecked.1.2 (.publish fun _ => hChecked.2)
  · cases h

theorem step_of_execute {command : Command} (h : execute w command = some (label, w')) :
    Step inMemory w label w' := by
  cases command with
  | calls command =>
    obtain ⟨⟨label', v⟩, hNext, hRest⟩ := Option.bind_eq_some_iff.mp h
    split at hRest
    · rename_i hChecked
      simp only [Bool.and_eq_true, decide_eq_true_eq] at hChecked
      cases hRest
      exact step_of_calls (internal_iff.mp hChecked.1) hChecked.2 (System.step_of_execute hNext)
    · cases hRest
  | receive i =>
    simp only [execute] at h
    split at h
    · obtain ⟨next, hNext, hSame⟩ := Option.map_eq_some_iff.mp h
      cases hSame
      exact act_step ‹_› (.receive (.deliver hNext))
    · cases h
  | publish i =>
    simp only [execute] at h
    split at h
    · obtain ⟨b, hConfirm, hSame⟩ := Option.map_eq_some_iff.mp h
      cases hSame
      exact act_step ‹_› (.publish (publishSignal_of_confirm hConfirm))
    · cases h
  | defer i =>
    simp only [execute] at h
    split at h
    · obtain ⟨b, hConfirm, hSame⟩ := Option.map_eq_some_iff.mp h
      cases hSame
      exact act_step ‹_› (.defer (publishSignal_of_confirm hConfirm))
    · cases h
  | abandon i =>
    simp only [execute] at h
    split at h
    · split at h
      · rename_i hFits
        cases h
        exact act_step ‹_› (.undeferred (.abandoned (carries_render hFits) (.inl rfl)))
      · cases h
    · cases h
  | stray i =>
    simp only [execute] at h
    split at h
    · split at h
      · rename_i hChecked
        simp only [Bool.and_eq_true, decide_eq_true_eq] at hChecked
        cases h
        exact act_step ‹_› (.defer (.stray (carries_render hChecked.1) hChecked.2 (.inl rfl)))
      · cases h
    · cases h
  | ack i =>
    simp only [execute] at h
    split at h
    · cases h
      exact act_step ‹_› (.ack (.inr .ack))
    · cases h
  | nack i =>
    simp only [execute] at h
    split at h
    · cases h
      exact act_step ‹_› (.nack (.inr .nack))
    · cases h
  | foreign body =>
    simp only [execute] at h
    split at h
    · rename_i hNone
      cases h
      exact .env (.foreign (fun signal hSignal => by cases hNone.symm.trans hSignal) (.publish Bool.noConfusion))
    · cases h
  | expire queue =>
    obtain ⟨b, hNext, hSame⟩ := Option.map_eq_some_iff.mp h
    cases hSame
    exact .env (.broker (.expire queue hNext))
  | disconnect i =>
    cases h
    exact .env (.broker (.disconnect _))
  | restart =>
    cases h
    exact .env (.broker .restart)

theorem run_of_play {script : List Command} {t : Time}
    (h : play [] (start inMemory.first t) script = some (history, w)) : Run inMemory history w :=
  ⟨t, LabelledRun.run_of_play step_of_execute .refl h⟩

end

/-- A run of the deployed service is one of the system, with the same commits, calls and messages. The signals that
the queues still hold are among those that the broker accepted there, or come from elsewhere. -/
theorem deployment_refines (h : Run site history w) :
    ∃ v, System.Run site.setting history v ∧ v.shared.store = w.shared.store ∧ v.procs = w.procs ∧
      ∀ entry, site.server.Holds w.shared.broker entry → ∀ signal, Wire.message entry.message.body = some signal →
        signal ∈ v.shared.signals ∨ site.setting.foreign signal := by
  obtain ⟨v, hBelow, hSim⟩ := h.simulated
  exact ⟨v, hBelow, hSim.store, hSim.procs, hSim.held⟩

/-- Accept and publish, hand out the message, and restart the broker. -/
def restartedScript : List Command :=
  (Sample.claimedScript.take 3).map .calls ++ [.publish 0, .calls (.mark 0 7), .receive 1, .restart]

theorem deployment_refines_restart :
    ∃ (history : List Label) (w : World (Broker Bytes)) (v : System), Run inMemory history w ∧
      System.Run closedSetting history v ∧ v.shared.store = w.shared.store ∧ ⟨100, 0, 102⟩ ∈ v.shared.signals := by
  have hPlay : (play [] (start inMemory.first 0) restartedScript).any (fun run =>
      run.2.shared.broker.held.any fun entry => Wire.message entry.message.body = some ⟨100, 0, 102⟩) = true := by
    decide +kernel
  obtain ⟨⟨history, w⟩, hRun, hHeld⟩ := (Option.any_eq_true _ _).mp hPlay
  obtain ⟨entry, hEntry, hSignal⟩ := List.any_eq_true.mp hHeld
  have h := run_of_play hRun
  obtain ⟨v, hBelow, hStore, _, hKnown⟩ := deployment_refines h
  exact ⟨history, w, v, h, hBelow, hStore, (hKnown entry hEntry _ (of_decide_eq_true hSignal)).resolve_right id⟩

end Deployment

end ReliableNotifier
