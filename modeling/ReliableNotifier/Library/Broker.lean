import Mathlib.Data.List.Dedup
import Mathlib.Data.List.TakeWhile
import ReliableNotifier.Library.Amqp

/-! # A message server in memory

One server as `Amqp.Server` has it, which can be executed. Its exchanges are direct, a
queue hands out its messages in order of arrival, and a restart leaves what lasts.
-/

namespace Amqp

universe u

variable {α : Type u} {β : Type}

/-- The list around its first element that satisfies `p`. -/
def cut (p : α → Bool) (items : List α) : Option (List α × α × List α) :=
  match items.dropWhile fun item => !p item with
  | [] => none
  | item :: after => some (items.takeWhile fun item => !p item, item, after)

theorem cut_eq_some {p : α → Bool} {items before after : List α} {item : α}
    (h : cut p items = some (before, item, after)) : items = before ++ item :: after ∧ p item = true := by
  unfold cut at h
  split at h
  · cases h
  · rename_i rest hDrop
    cases h
    refine ⟨?_, ?_⟩
    · rw [← hDrop, List.takeWhile_append_dropWhile]
    · have hHead := List.head?_dropWhile_not (fun item => !p item) items
      rw [hDrop] at hHead
      simpa using hHead

theorem mem_middle {x taken : α} {before after : List α} :
    x ∈ before ++ taken :: after ↔ x = taken ∨ x ∈ before ++ after :=
  List.perm_middle.mem_iff.trans List.mem_cons

/-! ## Topology -/

structure Topology where
  exchanges : List (String × ExchangeSpec)
  queues : List (String × QueueSpec)
  bindings : List Binding
  deriving DecidableEq

namespace Topology

def empty : Topology := ⟨[], [], []⟩

/-- An object that exists is declared again without effect, and only with the same properties. -/
def enter {γ : Type} [DecidableEq γ] (entries : List (String × γ)) (name : String) (spec : γ) :
    Option (List (String × γ)) :=
  match entries.lookup name with
  | some found => if found = spec then some entries else none
  | none => some (entries ++ [(name, spec)])

def declare (t : Topology) : Declaration → Option Topology
  | .exchange name spec => (enter t.exchanges name spec).map fun exchanges => { t with exchanges := exchanges }
  | .queue name spec => (enter t.queues name spec).map fun queues => { t with queues := queues }
  | .binding binding =>
    if (t.queues.lookup binding.queue).isNone || (t.exchanges.lookup binding.exchange).isNone then none
    else some { t with bindings := t.bindings.insert binding }

def Has (t : Topology) : Declaration → Prop
  | .exchange name spec => t.exchanges.lookup name = some spec
  | .queue name spec => t.queues.lookup name = some spec
  | .binding binding => binding ∈ t.bindings

/-- The queues that a message reaches. -/
def route (t : Topology) (exchange key : String) : List String :=
  if exchange = "" then if (t.queues.lookup key).isSome then [key] else []
  else ((t.bindings.filter fun binding => binding.exchange = exchange && binding.key = key).map Binding.queue).dedup

def keepsExchange (t : Topology) (name : String) : Bool := (t.exchanges.lookup name).any ExchangeSpec.durable

def keepsQueue (t : Topology) (name : String) : Bool := (t.queues.lookup name).any QueueSpec.durable

/-- What is left after a restart. -/
def restart (t : Topology) : Topology where
  exchanges := t.exchanges.filter fun entry => t.keepsExchange entry.1
  queues := t.queues.filter fun entry => t.keepsQueue entry.1
  bindings := t.bindings.filter fun binding => t.keepsExchange binding.exchange && t.keepsQueue binding.queue

variable {t t' : Topology} {d e : Declaration} {exchange key queue : String}

theorem lookup_filter {γ : Type} (p : String → Bool) (entries : List (String × γ)) (name : String) :
    (entries.filter fun entry => p entry.1).lookup name = if p name then entries.lookup name else none := by
  induction entries with
  | nil => simp
  | cons entry entries ih =>
    obtain ⟨name', value⟩ := entry
    by_cases hName : name = name'
    · subst hName
      by_cases hp : p name = true
      · simp [hp]
      · simp only [Bool.not_eq_true] at hp
        simp [hp, ih]
    · have hBeq : (name == name') = false := beq_false_of_ne hName
      by_cases hp : p name' = true
      · simp [hp, List.lookup_cons, hBeq, ih]
      · simp only [Bool.not_eq_true] at hp
        simp [hp, List.lookup_cons, hBeq, ih]

theorem mem_of_lookup {γ : Type} {entries : List (String × γ)} {name : String} {value : γ}
    (h : entries.lookup name = some value) : (name, value) ∈ entries := by
  obtain ⟨before, after, rfl, _⟩ := List.lookup_eq_some_iff.mp h
  exact List.mem_append_right _ List.mem_cons_self

theorem lookup_enter {γ : Type} [DecidableEq γ] {entries entries' : List (String × γ)} {name other : String}
    {spec found : γ} (h : enter entries name spec = some entries') :
    entries'.lookup other = some found ↔ entries.lookup other = some found ∨ other = name ∧ found = spec := by
  unfold enter at h
  split at h
  · rename_i hFound
    split at h
    · rename_i hSame
      cases h
      refine (or_iff_left_of_imp ?_).symm
      rintro ⟨rfl, rfl⟩
      exact hSame ▸ hFound
    · cases h
  · rename_i hNew
    cases h
    rw [List.lookup_append, Option.or_eq_some_iff]
    by_cases hName : other = name
    · subst hName
      simp [hNew, eq_comm]
    · simp [List.lookup_cons, beq_false_of_ne hName, hName]

theorem exists_enter {γ : Type} [DecidableEq γ] {entries : List (String × γ)} {name : String} {spec : γ}
    (h : ∀ found, entries.lookup name = some found → spec = found) :
    ∃ entries', enter entries name spec = some entries' := by
  unfold enter
  split
  · exact ⟨entries, if_pos (h _ ‹_›).symm⟩
  · exact ⟨_, rfl⟩

/-- A declaration adds its object and nothing else. -/
theorem has_declare (h : t.declare d = some t') : t'.Has e ↔ t.Has e ∨ e = d := by
  cases d with
  | exchange name spec =>
    obtain ⟨_, hEnter, rfl⟩ := Option.map_eq_some_iff.mp h
    cases e with
    | exchange => simp [Has, lookup_enter hEnter]
    | queue | binding => simp [Has]
  | queue name spec =>
    obtain ⟨_, hEnter, rfl⟩ := Option.map_eq_some_iff.mp h
    cases e with
    | queue => simp [Has, lookup_enter hEnter]
    | exchange | binding => simp [Has]
  | binding binding =>
    simp only [declare] at h
    split at h
    · cases h
    · cases h
      cases e <;> simp [Has, List.mem_insert_iff, or_comm]

/-- It is accepted if nothing is in its way. -/
theorem exists_declare (hClash : ∀ e, t.Has e → d.clashes e = false)
    (hQueue : ∀ link, d = .binding link → ∃ spec, t.Has (.queue link.queue spec))
    (hExchange : ∀ link, d = .binding link → ∃ spec, t.Has (.exchange link.exchange spec)) :
    ∃ t', t.declare d = some t' := by
  cases d with
  | exchange name spec =>
    have hSame (found : ExchangeSpec) (hFound : t.exchanges.lookup name = some found) : spec = found := by
      simpa [Declaration.clashes] using hClash (.exchange name found) hFound
    obtain ⟨exchanges, hEnter⟩ := exists_enter hSame
    exact ⟨_, Option.map_eq_some_iff.mpr ⟨exchanges, hEnter, rfl⟩⟩
  | queue name spec =>
    have hSame (found : QueueSpec) (hFound : t.queues.lookup name = some found) : spec = found := by
      simpa [Declaration.clashes] using hClash (.queue name found) hFound
    obtain ⟨queues, hEnter⟩ := exists_enter hSame
    exact ⟨_, Option.map_eq_some_iff.mpr ⟨queues, hEnter, rfl⟩⟩
  | binding link =>
    obtain ⟨_, hQueue⟩ := hQueue link rfl
    obtain ⟨_, hExchange⟩ := hExchange link rfl
    simp only [Has] at hQueue hExchange
    exact ⟨_, if_neg (by simp [hQueue, hExchange])⟩

theorem mem_route (hExchange : exchange ≠ "") :
    queue ∈ t.route exchange key ↔ t.Has (.binding ⟨exchange, key, queue⟩) := by
  rw [route, if_neg hExchange, List.mem_dedup, List.mem_map]
  constructor
  · rintro ⟨binding, hBinding, rfl⟩
    obtain ⟨hMem, hMatch⟩ := List.mem_filter.mp hBinding
    simp only [Bool.and_eq_true, decide_eq_true_eq] at hMatch
    obtain ⟨rfl, rfl⟩ := hMatch
    exact hMem
  · exact fun hMem => ⟨_, List.mem_filter.mpr ⟨hMem, by simp⟩, rfl⟩

theorem mem_route_default : queue ∈ t.route "" key ↔ queue = key ∧ ∃ spec, t.Has (.queue key spec) := by
  simp only [route, if_true, Has, ← Option.isSome_iff_exists]
  split
  · rename_i hSome
    simp [hSome]
  · rename_i hNone
    simp [hNone]

/-- A restart adds nothing. -/
theorem has_of_restart (h : t.restart.Has d) : t.Has d := by
  cases d with
  | exchange name =>
    simp only [Has, restart, lookup_filter, Option.ite_none_right_eq_some] at h
    exact h.2
  | queue name =>
    simp only [Has, restart, lookup_filter, Option.ite_none_right_eq_some] at h
    exact h.2
  | binding => exact List.mem_of_mem_filter h

theorem keepsQueue_of_lasts {spec : QueueSpec} (h : t.Has (.queue queue spec)) (hLasts : spec.lasts = true) :
    t.keepsQueue queue = true := by
  have hFound : t.queues.lookup queue = some spec := h
  simp only [QueueSpec.lasts, Bool.and_eq_true] at hLasts
  simp [keepsQueue, hFound, hLasts.1.1]

theorem keepsExchange_of_lasts {spec : ExchangeSpec} (h : t.Has (.exchange exchange spec))
    (hLasts : spec.lasts = true) : t.keepsExchange exchange = true := by
  have hFound : t.exchanges.lookup exchange = some spec := h
  simp only [ExchangeSpec.lasts, Bool.and_eq_true] at hLasts
  simp [keepsExchange, hFound, hLasts.1]

theorem Has.restart {earlier : List Declaration} (hAll : ∀ e ∈ earlier, t.Has e) (h : t.Has d)
    (hLasts : d.lasts earlier = true) : t.restart.Has d := by
  cases d with
  | exchange name spec =>
    simp only [Has, Topology.restart, lookup_filter, keepsExchange_of_lasts h hLasts, if_true]
    exact h
  | queue name spec =>
    simp only [Has, Topology.restart, lookup_filter, keepsQueue_of_lasts h hLasts, if_true]
    exact h
  | binding link =>
    simp only [Declaration.lasts, Bool.and_eq_true, List.any_eq_true] at hLasts
    obtain ⟨⟨queue, hQueue, hQueueLasts⟩, exchange, hExchange, hExchangeLasts⟩ := hLasts
    refine List.mem_filter.mpr ⟨h, ?_⟩
    cases queue with
    | exchange | binding => cases hQueueLasts
    | queue name spec =>
      cases exchange with
      | queue | binding => cases hExchangeLasts
      | exchange name' spec' =>
        simp only [Declaration.isLastingQueue, Declaration.isLastingExchange, Bool.and_eq_true,
          decide_eq_true_eq] at hQueueLasts hExchangeLasts
        obtain ⟨rfl, hQueueLasts⟩ := hQueueLasts
        obtain ⟨rfl, hExchangeLasts⟩ := hExchangeLasts
        simp [keepsQueue_of_lasts (hAll _ hQueue) hQueueLasts, keepsExchange_of_lasts (hAll _ hExchange) hExchangeLasts]

end Topology

/-! ## Messages -/

structure Broker (β : Type) where
  topology : Topology
  held : List (Held β)
  deriving DecidableEq

def Held.isReady (queue : String) (entry : Held β) : Bool := entry.queue = queue && entry.tag.isNone

def Held.isTagged (tag : Nat) (entry : Held β) : Bool := entry.tag = some tag

namespace Broker

def declare (d : Declaration) (b : Broker β) : Option (Broker β) :=
  (b.topology.declare d).map fun topology => { b with topology := topology }

def publish (exchange : String) (message : Message β) (safe : Bool) (b : Broker β) : Broker β :=
  { b with
    held := b.held ++
      (b.topology.route exchange message.routingKey).map fun queue => ⟨message, queue, safe, none⟩ }

/-- The first ready message goes to the consumer. -/
def deliver (queue : String) (tag : Nat) (b : Broker β) : Option (Message β × Broker β) :=
  (cut (Held.isReady queue) b.held).map fun (before, entry, after) =>
    (entry.message, { b with held := before ++ { entry with tag := some tag } :: after })

/-- A tag that is no longer there is that of a channel that was closed. -/
def ack (tag : Nat) (b : Broker β) : Broker β :=
  match cut (Held.isTagged tag) b.held with
  | some (before, _, after) => { b with held := before ++ after }
  | none => b

def deadLetter (entry : Held β) (b : Broker β) : Broker β :=
  match b.topology.queues.lookup entry.queue with
  | some spec =>
    match spec.deadLetterExchange with
    | some exchange =>
      b.publish exchange
        { entry.message with routingKey := spec.deadLetterRoutingKey.getD entry.message.routingKey } entry.safe
    | none => b
  | none => b

/-- A message that is put back keeps its place. -/
def nack (tag : Nat) (requeue : Bool) (b : Broker β) : Broker β :=
  match cut (Held.isTagged tag) b.held with
  | some (before, entry, after) =>
    if requeue then { b with held := before ++ { entry with tag := none } :: after }
    else { b with held := before ++ after }.deadLetter entry
  | none => b

/-- Messages expire at the head of their queue. How long they have been there is left open. -/
def expire (queue : String) (b : Broker β) : Option (Broker β) :=
  match (b.topology.queues.lookup queue).bind QueueSpec.messageTTL, cut (Held.isReady queue) b.held with
  | some _, some (before, entry, after) => some ({ b with held := before ++ after }.deadLetter entry)
  | _, _ => none

/-- The channels of these tags are closed, and what their consumers had is ready again. -/
def disconnect (tags : Nat → Bool) (b : Broker β) : Broker β :=
  { b with held := b.held.map fun entry => if entry.tag.any tags then { entry with tag := none } else entry }

def restart (b : Broker β) : Broker β :=
  { b with
    topology := b.topology.restart
    held := (b.held.filter fun entry =>
      entry.message.persistent && entry.safe && b.topology.keepsQueue entry.queue).map
        fun entry => { entry with tag := none } }

inductive Step : Broker β → Event β → Broker β → Prop
  | declare {b b' : Broker β} {d : Declaration} (h : b.declare d = some b') : Step b (.declare d) b'
  | publish {b : Broker β} {exchange : String} {message : Message β} {confirmed : Bool}
      (hRouted : confirmed = true → b.topology.route exchange message.routingKey ≠ []) :
      Step b (.publish exchange message confirmed) (b.publish exchange message confirmed)
  | deliver {b b' : Broker β} {queue : String} {tag : Nat} {message : Message β}
      (h : b.deliver queue tag = some (message, b')) : Step b (.deliver queue tag message) b'
  | ack {b : Broker β} {tag : Nat} : Step b (.ack tag) (b.ack tag)
  | nack {b : Broker β} {tag : Nat} {requeue : Bool} : Step b (.nack tag requeue) (b.nack tag requeue)
  | expire {b b' : Broker β} (queue : String) (h : b.expire queue = some b') : Step b .turn b'
  | disconnect {b : Broker β} (tags : Nat → Bool) : Step b .turn (b.disconnect tags)
  | restart {b : Broker β} : Step b .turn b.restart

def Refuses (b : Broker β) : Request → Prop
  | .declare d => b.declare d = none
  | .consume queue => b.topology.queues.lookup queue = none

def server : Server (Broker β) β where
  Has b := b.topology.Has
  Routes b exchange key queue := queue ∈ b.topology.route exchange key
  Holds b entry := entry ∈ b.held
  Refuses := Refuses
  Step := Step

/-! ## Laws -/

variable {b b' : Broker β} {queue : String} {tag : Nat} {message : Message β} {entry entry' : Held β}
  {event : Event β}

theorem deadLetter_topology : (b.deadLetter entry).topology = b.topology := by
  unfold deadLetter
  split
  · split <;> rfl
  · rfl

theorem ack_topology : (b.ack tag).topology = b.topology := by
  unfold ack
  split <;> rfl

theorem nack_topology {requeue : Bool} : (b.nack tag requeue).topology = b.topology := by
  unfold nack
  split
  · split
    · rfl
    · exact deadLetter_topology
  · rfl

theorem expire_eq_some (h : b.expire queue = some b') :
    ∃ spec ttl before entry after, b.topology.Has (.queue entry.queue spec) ∧ spec.messageTTL = some ttl ∧
      b.held = before ++ entry :: after ∧ b' = { b with held := before ++ after }.deadLetter entry := by
  unfold expire at h
  split at h
  · rename_i ttl before entry after hTTL hCut
    obtain ⟨spec, hSpec, hTTL⟩ := Option.bind_eq_some_iff.mp hTTL
    obtain ⟨hHeld, hReady⟩ := cut_eq_some hCut
    simp only [Held.isReady, Bool.and_eq_true, decide_eq_true_eq] at hReady
    cases h
    exact ⟨spec, ttl, before, entry, after, hReady.1 ▸ hSpec, hTTL, hHeld, rfl⟩
  · cases h

theorem deliver_eq_some (h : b.deliver queue tag = some (message, b')) :
    ∃ before entry after, b.held = before ++ entry :: after ∧ entry.queue = queue ∧ entry.message = message ∧
      b' = { b with held := before ++ { entry with tag := some tag } :: after } := by
  obtain ⟨⟨before, entry, after⟩, hCut, hSame⟩ := Option.map_eq_some_iff.mp h
  cases hSame
  obtain ⟨hHeld, hReady⟩ := cut_eq_some hCut
  simp only [Held.isReady, Bool.and_eq_true, decide_eq_true_eq] at hReady
  exact ⟨before, entry, after, hHeld, hReady.1, rfl, rfl⟩

/-- What a step leaves of the topology. -/
theorem Step.topology (h : Step b event b') :
    b'.topology = b.topology ∨ b'.topology = b.topology.restart ∨
      ∃ d, event = .declare d ∧ b.topology.declare d = some b'.topology := by
  cases h with
  | @declare _ d h =>
    obtain ⟨topology, hDeclare, rfl⟩ := Option.map_eq_some_iff.mp h
    exact .inr (.inr ⟨d, rfl, hDeclare⟩)
  | publish | disconnect => exact .inl rfl
  | deliver h =>
    obtain ⟨_, _, _, _, _, _, rfl⟩ := deliver_eq_some h
    exact .inl rfl
  | ack => exact .inl ack_topology
  | nack => exact .inl nack_topology
  | expire queue h =>
    obtain ⟨_, _, _, _, _, _, _, _, rfl⟩ := expire_eq_some h
    exact .inl deadLetter_topology
  | restart => exact .inr (.inl rfl)

theorem mem_publish {exchange : String} {safe : Bool} :
    entry ∈ (b.publish exchange message safe).held ↔ entry ∈ b.held ∨
      ∃ queue ∈ b.topology.route exchange message.routingKey, ⟨message, queue, safe, none⟩ = entry := by
  simp only [publish, List.mem_append, List.mem_map]

/-- Where the dead-letter exchange leads is all that a dead letter adds. -/
theorem mem_deadLetter (h : entry' ∈ (b.deadLetter entry).held) :
    entry' ∈ b.held ∨ server.Rerouted b entry entry' := by
  unfold deadLetter at h
  split at h
  · rename_i spec hSpec
    split at h
    · rename_i exchange hExchange
      rcases mem_publish.mp h with hOld | ⟨queue, hQueue, rfl⟩
      · exact .inl hOld
      · exact .inr ⟨⟨spec, exchange, hSpec, hExchange, hQueue⟩, rfl, rfl, rfl, rfl⟩
    · exact .inl h
  · exact .inl h

theorem deadLetter_held : b.held ⊆ (b.deadLetter entry).held := by
  unfold deadLetter
  split
  · split
    · exact List.subset_append_left _ _
    · exact List.Subset.refl _
  · exact List.Subset.refl _

/-- A dead letter arrives where its exchange leads. -/
theorem exists_rerouted {spec : QueueSpec} {exchange target : String}
    (hSpec : b.topology.queues.lookup entry.queue = some spec) (hExchange : spec.deadLetterExchange = some exchange)
    (hTarget : target ∈ b.topology.route exchange (spec.deadLetterRoutingKey.getD entry.message.routingKey)) :
    ∃ entry' ∈ (b.deadLetter entry).held, entry'.queue = target ∧ server.Rerouted b entry entry' := by
  simp only [deadLetter, hSpec, hExchange]
  exact ⟨_, mem_publish.mpr (.inr ⟨target, hTarget, rfl⟩), rfl, ⟨spec, exchange, hSpec, hExchange, hTarget⟩, rfl, rfl,
    rfl, rfl⟩

/-- The same server with other messages has the same ways for its dead letters. -/
theorem rerouted_of_topology (h : server.Rerouted b' entry entry') (hSame : b'.topology = b.topology) :
    server.Rerouted b entry entry' := by
  obtain ⟨⟨spec, exchange, hHas, hExchange, hRoutes⟩, hBody, hPersistent, hSafe, hTag⟩ := h
  simp only [server, hSame] at hHas hRoutes
  exact ⟨⟨spec, exchange, hHas, hExchange, hRoutes⟩, hBody, hPersistent, hSafe, hTag⟩

theorem Step.came (h : Step b event b') (hEntry : entry ∈ b'.held) : server.Came b event entry := by
  have hSame (hOld : entry ∈ b.held) : server.Came b event entry := .same hOld
  cases h with
  | declare h =>
    obtain ⟨_, _, rfl⟩ := Option.map_eq_some_iff.mp h
    exact hSame hEntry
  | publish =>
    rcases mem_publish.mp hEntry with hOld | ⟨queue, hQueue, rfl⟩
    · exact hSame hOld
    · exact .published hQueue
  | deliver h =>
    obtain ⟨before, taken, after, hHeld, rfl, rfl, rfl⟩ := deliver_eq_some h
    rcases mem_middle.mp hEntry with rfl | hRest
    · have hMem : taken ∈ b.held := hHeld ▸ mem_middle.mpr (.inl rfl)
      exact .taken hMem
    · exact hSame (hHeld ▸ mem_middle.mpr (.inr hRest))
  | ack =>
    unfold Broker.ack at hEntry
    split at hEntry
    · rename_i hCut
      exact hSame ((cut_eq_some hCut).1 ▸ mem_middle.mpr (.inr hEntry))
    · exact hSame hEntry
  | @nack tag requeue =>
    unfold Broker.nack at hEntry
    split at hEntry
    · rename_i before taken after hCut
      obtain ⟨hHeld, hTag⟩ := cut_eq_some hCut
      have hMem : taken ∈ b.held := hHeld ▸ mem_middle.mpr (.inl rfl)
      have hRest (hOther : entry ∈ before ++ after) : entry ∈ b.held := hHeld ▸ mem_middle.mpr (.inr hOther)
      cases requeue with
      | true =>
        rcases mem_middle.mp hEntry with rfl | hOther
        · exact .ready hMem
        · exact hSame (hRest hOther)
      | false =>
        rcases mem_deadLetter hEntry with hOther | hRerouted
        · exact hSame (hRest hOther)
        · exact .refused hMem (of_decide_eq_true hTag) (rerouted_of_topology hRerouted rfl)
    · exact hSame hEntry
  | expire queue h =>
    obtain ⟨spec, ttl, before, taken, after, hSpec, hTTL, hHeld, rfl⟩ := expire_eq_some h
    rcases mem_deadLetter hEntry with hOther | hRerouted
    · exact hSame (hHeld ▸ mem_middle.mpr (.inr hOther))
    · have hMem : taken ∈ b.held := hHeld ▸ mem_middle.mpr (.inl rfl)
      exact .expired hMem hSpec hTTL (rerouted_of_topology hRerouted rfl)
  | disconnect tags =>
    obtain ⟨old, hMem, rfl⟩ := List.mem_map.mp hEntry
    split
    · exact .ready hMem
    · exact .same hMem
  | restart =>
    obtain ⟨old, hMem, rfl⟩ := List.mem_map.mp hEntry
    exact .ready (List.mem_of_mem_filter hMem)

theorem Step.stays {spec : QueueSpec} (h : Step b event b') (hEntry : entry ∈ b.held)
    (hPersistent : entry.message.persistent = true) (hSafe : entry.safe = true)
    (hSpec : b.topology.Has (.queue entry.queue spec)) (hLasts : spec.lasts = true) :
    server.Stays b b' spec entry event := by
  cases h with
  | declare h =>
    obtain ⟨_, _, rfl⟩ := Option.map_eq_some_iff.mp h
    exact .same hEntry
  | publish => exact .same (mem_publish.mpr (.inl hEntry))
  | deliver h =>
    obtain ⟨before, taken, after, hHeld, rfl, rfl, rfl⟩ := deliver_eq_some h
    rcases mem_middle.mp (hHeld ▸ hEntry) with rfl | hRest
    · exact .taken (mem_middle.mpr (.inl rfl))
    · exact .same (mem_middle.mpr (.inr hRest))
  | ack =>
    unfold Broker.ack
    split
    · rename_i hCut
      obtain ⟨hHeld, hTag⟩ := cut_eq_some hCut
      rcases mem_middle.mp (hHeld ▸ hEntry) with rfl | hRest
      · exact .acked (of_decide_eq_true hTag)
      · exact .same hRest
    · exact .same hEntry
  | @nack tag requeue =>
    unfold Broker.nack
    split
    · rename_i hCut
      obtain ⟨hHeld, hTag⟩ := cut_eq_some hCut
      rcases mem_middle.mp (hHeld ▸ hEntry) with rfl | hRest
      · cases requeue with
        | true => exact .ready (mem_middle.mpr (.inl rfl))
        | false => exact .refused (of_decide_eq_true hTag)
      · cases requeue with
        | true => exact .same (mem_middle.mpr (.inr hRest))
        | false => exact .same (deadLetter_held hRest)
    · exact .same hEntry
  | expire queue h =>
    obtain ⟨spec', ttl, before, taken, after, hSpec', hTTL, hHeld, rfl⟩ := expire_eq_some h
    rcases mem_middle.mp (hHeld ▸ hEntry) with rfl | hRest
    · cases Option.some.inj (hSpec.symm.trans hSpec')
      refine .expired hTTL fun exchange target hExchange hTarget => ?_
      obtain ⟨entry', hEntry', hQueue, hRerouted⟩ :=
        exists_rerouted (b := { b with held := before ++ after }) hSpec hExchange hTarget
      exact ⟨entry', hEntry', hQueue, rerouted_of_topology hRerouted rfl⟩
    · exact .same (deadLetter_held hRest)
  | disconnect tags =>
    have hMem := List.mem_map_of_mem (f := fun entry : Held β =>
      if entry.tag.any tags then { entry with tag := none } else entry) hEntry
    split at hMem
    · exact .ready hMem
    · exact .same hMem
  | restart =>
    refine .ready (List.mem_map.mpr ⟨entry, List.mem_filter.mpr ⟨hEntry, ?_⟩, rfl⟩)
    simp [hPersistent, hSafe, Topology.keepsQueue_of_lasts hSpec hLasts]

theorem lawful : (server : Server (Broker β) β).Lawful where
  declared h := by
    cases h with
    | declare h =>
      obtain ⟨_, hDeclare, rfl⟩ := Option.map_eq_some_iff.mp h
      exact (Topology.has_declare hDeclare).mpr (.inr rfl)
  introduced {b b' event d} h hHas := by
    have hTopology : b'.topology.Has d := hHas
    rcases Step.topology h with hSame | hRestart | ⟨e, rfl, hDeclare⟩
    · exact .inl (show b.topology.Has d from hSame ▸ hTopology)
    · exact .inl (Topology.has_of_restart (hRestart ▸ hTopology))
    · exact ((Topology.has_declare hDeclare).mp hTopology).imp_right fun hNew => by rw [hNew]
  lasting {b b' event d earlier} h hAll hHas hLasts := by
    show b'.topology.Has d
    rcases Step.topology h with hSame | hRestart | ⟨e, rfl, hDeclare⟩
    · exact hSame ▸ hHas
    · exact hRestart ▸ Topology.Has.restart hAll hHas hLasts
    · exact (Topology.has_declare hDeclare).mpr (.inl hHas)
  declarable h := by
    obtain ⟨topology, hDeclare⟩ := Topology.exists_declare h.clashes h.queue h.exchange
    exact ⟨_, .declare (Option.map_eq_some_iff.mpr ⟨topology, hDeclare, rfl⟩)⟩
  unrefused h hRefused := by
    obtain ⟨topology, hDeclare⟩ := Topology.exists_declare h.clashes h.queue h.exchange
    cases hDeclare.symm.trans (Option.map_eq_none_iff.mp hRefused)
  consumable h hRefused := by cases h.symm.trans hRefused
  bound hName _ _ hBinding := (Topology.mem_route hName).mpr hBinding
  unbound hName _ _ hRoutes := (Topology.mem_route hName).mp hRoutes
  named h := Topology.mem_route_default.mpr ⟨rfl, _, h⟩
  unnamed h := (Topology.mem_route_default.mp h).1
  came := Step.came
  delivered h := by
    cases h with
    | deliver h =>
      obtain ⟨_, entry, _, hHeld, hQueue, hMessage, _⟩ := deliver_eq_some h
      exact ⟨entry, show entry ∈ _ from hHeld ▸ mem_middle.mpr (.inl rfl), hQueue, hMessage⟩
  confirmed h hRoutes := by
    cases h with
    | publish => exact mem_publish.mpr (.inr ⟨_, hRoutes, rfl⟩)
  kept := Step.stays

end Broker

end Amqp
