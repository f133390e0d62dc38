import ReliableNotifier.System.Conservation

/-! # Dead letters and deferrals

The dead-letter queue receives what does not decode or validate and nothing else. The
deferral queue receives signals, and they leave it only for the dispatch queue and only by
themselves.
-/

namespace ReliableNotifier

open Checked

section

variable {setting : Setting} {history : List Label} {s s' : Shared} {label : Label} {i : Nat} {x x' : Process}

/-- A message that decodes is put back when it is refused. -/
def Stage.Requeues : Stage → Prop
  | nacking (some _) requeue => requeue = true
  | _ => True

namespace Stage

variable (signal : Signal)

theorem requeues_afterProcess (ack : Bool) (err : Option StoreError) : (afterProcess signal ack err).Requeues := by
  unfold afterProcess
  split
  · rfl
  · split <;> trivial

theorem requeues_afterEligible (reply : Except StoreError DestinationVersion) :
    (afterEligible signal reply).Requeues := by
  unfold afterEligible
  split <;> first | exact requeues_afterProcess signal _ _ | trivial

theorem requeues_afterObserve (destination : DestinationVersion) (reply : Except StoreError Unit) :
    (afterObserve signal destination reply).Requeues := by
  unfold afterObserve
  split <;> first | exact requeues_afterProcess signal _ _ | trivial

theorem requeues_afterAcquire (granted : Bool) : (afterAcquire signal granted).Requeues := by
  unfold afterAcquire
  split <;> first | exact requeues_afterProcess signal _ _ | trivial

theorem requeues_afterClaim (reply : Except StoreError (Delivery × DestinationVersion)) :
    (afterClaim signal reply).Requeues := by
  unfold afterClaim
  split <;> first | exact requeues_afterProcess signal _ _ | trivial

theorem requeues_afterComplete (reply : Except StoreError Unit) : (afterComplete signal reply).Requeues := by
  unfold afterComplete
  split <;> exact requeues_afterProcess signal _ _

theorem requeues_afterDefer (deferred : Bool) : (afterDefer signal deferred).Requeues := by
  unfold afterDefer
  split
  · trivial
  · rfl

end Stage

theorem Act.requeues (h : Act setting i s x label s' x') :
    ∀ stage, x' = .consumer stage → stage.Requeues := by
  rintro stage hStage
  cases h with
  | @receive message => cases hStage; cases message <;> trivial
  | check => cases hStage; exact Stage.requeues_afterEligible _ _
  | observe => cases hStage; exact Stage.requeues_afterObserve _ _ _
  | acquire => cases hStage; exact Stage.requeues_afterAcquire _ _
  | claim => cases hStage; exact Stage.requeues_afterClaim _ _
  | send => cases hStage; trivial
  | complete => cases hStage; exact Stage.requeues_afterComplete _ _
  | defer | undeferred => cases hStage; exact Stage.requeues_afterDefer _ _
  | ack | nack => cases hStage; trivial
  | claimOutbox | publish | unpublished | mark | release | crash => cases hStage

theorem System.Run.requeues {w : System} (h : Run setting history w) :
    ∀ i stage, w.procs i = .consumer stage → stage.Requeues := by
  refine (Run.invariant (G := fun _ _ => True) (L := fun _ _ _ x => ∀ stage, x = .consumer stage → stage.Requeues)
    (fun _ => trivial) (fun _ _ _ h => by cases h) ?_ ?_ h).2
  · exact fun _ _ _ => ⟨trivial, fun _ _ h => h⟩
  · exact fun _ _ _ hStep => ⟨trivial, hStep.requeues, fun _ _ _ h => h⟩

end

namespace Deployment

open Amqp Interleaving
open Json (Bytes)

variable {σ : Type} {site : Site σ} {history : List Label} {w w' : World σ} {s s' : Shared σ} {label : Label} {i : Nat}
  {x x' : Process} {entry entry' : Held Bytes} {event : Event Bytes} {b b' : σ}

/-- A server that has the topology and nothing else. -/
structure Exact (server : Server σ Bytes) (b : σ) : Prop where
  provides : server.Provides b Dispatch.plan
  within : server.Within b Dispatch.plan

namespace Exact

variable {queue : String}

theorem queue_of_route (h : Exact site.server b)
    (hRoutes : site.server.Routes b Dispatch.exchangeName Dispatch.routingKey queue) :
    queue = Dispatch.queueName := by
  have hMem := h.within _ (((Dispatch.routed_of_plan site.lawful h.provides).1 queue).mp hRoutes)
  simpa [Dispatch.plan, Dispatch.declareTopology, Dispatch.exchangeName, Dispatch.deadLetterExchange] using hMem

theorem queue_of_letter (h : Exact site.server b)
    (hRoutes : site.server.Routes b Dispatch.deadLetterExchange Dispatch.deadLetterKey queue) :
    queue = Dispatch.deadLetterQueue := by
  have hExchange := h.provides (.exchange Dispatch.deadLetterExchange Dispatch.exchangeSpec) (by decide)
  have hMem := h.within _ (site.lawful.unbound (by decide) hExchange rfl hRoutes)
  simpa [Dispatch.plan, Dispatch.declareTopology, Dispatch.exchangeName, Dispatch.deadLetterExchange] using hMem

/-- The queues are the three of the plan. -/
theorem queue_cases {spec : QueueSpec} (h : Exact site.server b) (hSpec : site.server.Has b (.queue queue spec)) :
    queue = Dispatch.deadLetterQueue ∧ spec = Dispatch.deadLetterSpec ∨
      queue = Dispatch.queueName ∧ spec = Dispatch.queueSpec ∨
      queue = Dispatch.deferralQueue ∧ spec = Dispatch.deferralSpec := by
  have hMem := h.within _ hSpec
  simpa only [Dispatch.plan, Dispatch.declareTopology, List.map_cons, List.map_nil, List.mem_cons, reduceCtorEq,
    Declaration.queue.injEq, false_or, or_false, List.not_mem_nil] using hMem

/-- The ways of a dead letter: from the dispatch queue to that of the dead letters, and from the deferral queue
back to the dispatch queue. -/
theorem queue_of_rerouted (h : Exact site.server b) (hRerouted : site.server.Rerouted b entry entry') :
    entry.queue = Dispatch.queueName ∧ entry'.queue = Dispatch.deadLetterQueue ∨
      entry.queue = Dispatch.deferralQueue ∧ entry'.queue = Dispatch.queueName := by
  obtain ⟨spec, exchange, hSpec, hExchange, hRoutes⟩ := hRerouted.route
  rcases h.queue_cases hSpec with ⟨_, rfl⟩ | ⟨hQueue, rfl⟩ | ⟨hQueue, rfl⟩
  · cases hExchange
  · cases hExchange
    exact .inl ⟨hQueue, h.queue_of_letter hRoutes⟩
  · cases hExchange
    exact .inr ⟨hQueue, h.queue_of_route hRoutes⟩

theorem queue_of_ttl {spec : QueueSpec} {ttl : Nat} (h : Exact site.server b)
    (hSpec : site.server.Has b (.queue queue spec)) (hTTL : spec.messageTTL = some ttl) :
    queue = Dispatch.deferralQueue := by
  rcases h.queue_cases hSpec with ⟨_, rfl⟩ | ⟨_, rfl⟩ | ⟨hQueue, rfl⟩
  · cases hTTL
  · cases hTTL
  · exact hQueue

theorem step (h : Exact site.server b) (hStep : site.server.Step b event b')
    (hEvent : ∀ d, event = .declare d → d ∈ Dispatch.plan) : Exact site.server b' :=
  ⟨h.provides.step site.lawful Dispatch.plan_sound (List.append_nil _).symm hStep,
    h.within.step site.lawful hStep hEvent⟩

end Exact

/-- What a message may be, by its queue. -/
structure Placed (entry : Held Bytes) : Prop where
  dead : entry.queue = Dispatch.deadLetterQueue → Wire.message entry.message.body = none
  deferred : entry.queue = Dispatch.deferralQueue →
    entry.message.persistent = true ∧ Wire.message entry.message.body ≠ none
  tagged : entry.tag ≠ none → entry.queue = Dispatch.queueName

namespace Placed

theorem dispatch (hQueue : entry.queue = Dispatch.queueName) : Placed entry :=
  ⟨fun h => absurd (hQueue.symm.trans h) (by decide), fun h => absurd (hQueue.symm.trans h) (by decide),
    fun _ => hQueue⟩

theorem untagged (h : Placed entry) : Placed { entry with tag := none } :=
  ⟨h.dead, h.deferred, fun hTag => absurd rfl hTag⟩

/-- A message that goes to the dead letters has to be one that does not decode. -/
theorem rerouted (hExact : Exact site.server b) (hRerouted : site.server.Rerouted b entry entry')
    (hDead : entry.queue = Dispatch.queueName → Wire.message entry.message.body = none) : Placed entry' := by
  rcases hExact.queue_of_rerouted hRerouted with ⟨hFrom, hTo⟩ | ⟨_, hTo⟩
  · refine ⟨fun _ => hRerouted.body ▸ hDead hFrom, fun h => absurd (hTo.symm.trans h) (by decide), fun hTag => ?_⟩
    exact absurd hRerouted.tag hTag
  · exact dispatch hTo

/-- What is published, delivered and refused decides what a step of the server puts where. -/
theorem step (hExact : Exact site.server b) (hStep : site.server.Step b event b')
    (hOld : ∀ entry, site.server.Holds b entry → Placed entry)
    (hPublished : ∀ exchange message confirmed, event = .publish exchange message confirmed → ∀ queue safe,
      site.server.Routes b exchange message.routingKey queue → Placed ⟨message, queue, safe, none⟩)
    (hDelivered : ∀ queue tag message, event = .deliver queue tag message → queue = Dispatch.queueName)
    (hRefused : ∀ tag, event = .nack tag false → ∀ entry, site.server.Holds b entry → entry.tag = some tag →
      Wire.message entry.message.body = none) :
    ∀ entry, site.server.Holds b' entry → Placed entry := by
  intro entry hEntry
  cases site.lawful.came hStep hEntry with
  | same h => exact hOld _ h
  | @ready _ old h => exact (hOld old h).untagged
  | taken => exact dispatch (hDelivered _ _ _ rfl)
  | published hRoutes => exact hPublished _ _ _ rfl _ _ hRoutes
  | @refused old _ _ h hTag hRerouted => exact rerouted hExact hRerouted fun _ => hRefused _ rfl old h hTag
  | expired h hSpec hTTL hRerouted =>
    -- only deferred messages expire
    refine rerouted hExact hRerouted fun hQueue => ?_
    exact absurd (hQueue.symm.trans (hExact.queue_of_ttl hSpec hTTL)) (by decide)

theorem deferral {text : Wire.Signal} {signal : Signal} {queue : String} {safe : Bool} (hText : text.Carries signal)
    (hQueue : queue = Dispatch.deferralQueue) :
    Placed ⟨signalMessage Dispatch.deferralQueue text, queue, safe, none⟩ := by
  refine ⟨fun h => absurd (hQueue.symm.trans h) (by decide), fun _ => ⟨rfl, ?_⟩, fun h => absurd rfl h⟩
  exact hText.message ▸ Option.some_ne_none signal

end Placed

structure Sorted (site : Site σ) (history : List Label) (s : Shared σ) : Prop where
  exact : Exact site.server s.broker
  placed : ∀ entry, site.server.Holds s.broker entry → Placed entry
  refused : ∀ i message, .nack i message false ∈ history → message = none

theorem Env.sorted (hSorted : Sorted site history s) (h : Env site s label s') : Sorted site (label :: history) s' := by
  have hRefused (i : Nat) (message : Option Signal) (hMem : .nack i message false ∈ label :: history) :
      message = none := by
    rcases List.mem_cons.mp hMem with rfl | hOld
    · cases h with
      | store h => cases h
    · exact hSorted.refused i message hOld
  rcases h.arises with hSame | ⟨event, hStep, hArises, _⟩
  · exact ⟨hSame ▸ hSorted.exact, hSame ▸ hSorted.placed, hRefused⟩
  · refine ⟨hSorted.exact.step hStep hArises.declares,
      Placed.step hSorted.exact hStep hSorted.placed ?_ ?_ ?_, hRefused⟩
    · rintro _ _ _ rfl queue safe hRoutes
      cases hArises
      exact .dispatch (hSorted.exact.queue_of_route hRoutes)
    · rintro _ _ _ rfl
      cases hArises
    · rintro _ rfl
      cases hArises

theorem Act.sorted (hSorted : Sorted site history s) (hHandles : Handles site i history s.broker x)
    (hRequeues : ∀ stage, x = .consumer stage → stage.Requeues) (h : Act site i s x label s' x') :
    Sorted site (label :: history) s' := by
  have hNone {signal : Option Signal} (hAt : x = .consumer (.nacking signal false)) : signal = none := by
    cases signal with
    | none => rfl
    | some signal => cases hRequeues _ hAt
  have hRefused (j : Nat) (message : Option Signal) (hMem : .nack j message false ∈ label :: history) :
      message = none := by
    rcases List.mem_cons.mp hMem with rfl | hOld
    · cases h with
      | store hLabel => exact hLabel.elim
      | nack => exact hNone rfl
    · exact hSorted.refused j message hOld
  rcases h.asks with hSame | ⟨event, hStep, hAsks⟩
  · exact ⟨hSame ▸ hSorted.exact, hSame ▸ hSorted.placed, hRefused⟩
  · refine ⟨hSorted.exact.step hStep fun d hDeclares => absurd hDeclares (hAsks.declares d),
      Placed.step hSorted.exact hStep hSorted.placed ?_ ?_ ?_, hRefused⟩
    · rintro _ _ _ rfl queue safe hRoutes
      cases hAsks with
      | publish => exact .dispatch (hSorted.exact.queue_of_route hRoutes)
      | defer hText => exact .deferral hText (site.lawful.unnamed hRoutes)
    · rintro _ _ _ rfl
      cases hAsks
      rfl
    · rintro _ rfl entry hEntry hTag
      cases hAsks
      rw [← hHandles.stage entry hEntry hTag _ rfl Stage.noConfusion]
      exact hNone rfl

theorem Run.sorted (hExact : Exact site.server site.first) (h : Run site history w) :
    Sorted site history w.shared := by
  refine (Run.invariant (G := Sorted site) (L := fun _ _ _ _ => True) ?_ (fun _ _ => trivial) ?_ ?_ h).1
  · exact fun t => ⟨hExact, fun entry h => absurd h (site.empty entry), fun _ _ h => absurd h List.not_mem_nil⟩
  · exact fun _ hSorted hStep => ⟨hStep.sorted hSorted, fun _ _ _ => trivial⟩
  · intro i history w label s x hRun hSorted _ hStep
    obtain ⟨v, hBelow, hSim⟩ := hRun.simulated
    refine ⟨hStep.sorted hSorted (hRun.handles i) ?_, trivial, fun _ _ _ _ => trivial⟩
    exact hSim.procs ▸ hBelow.requeues i

/-- The message of `entry` is in the dispatch queue. -/
def Returned (site : Site σ) (b : σ) (entry : Held Bytes) : Prop :=
  ∃ entry', site.server.Holds b entry' ∧ entry'.queue = Dispatch.queueName ∧
    entry'.message.body = entry.message.body

/-- What a step of the server leaves of a deferred message that nobody has. -/
theorem Exact.deferred (hExact : Exact site.server b) (hStep : site.server.Step b event b')
    (hEntry : site.server.Holds b entry) (hPersistent : entry.message.persistent = true) (hSafe : entry.safe = true)
    (hTag : entry.tag = none) (hQueue : entry.queue = Dispatch.deferralQueue)
    (hDelivered : ∀ queue tag message, event = .deliver queue tag message → queue = Dispatch.queueName) :
    site.server.Holds b' entry ∨ event = .turn ∧ Returned site b' entry := by
  have hSpec : site.server.Has b (.queue entry.queue Dispatch.deferralSpec) :=
    hQueue ▸ hExact.provides (.queue Dispatch.deferralQueue Dispatch.deferralSpec) (by decide)
  cases site.lawful.kept hStep hEntry hPersistent hSafe hSpec rfl with
  | same h => exact .inl h
  | ready h =>
    rw [← hTag] at h
    exact .inl h
  | taken => exact absurd (hQueue.symm.trans (hDelivered _ _ _ rfl)) (by decide)
  | acked hTaken | refused hTaken => cases hTag.symm.trans hTaken
  | expired _ hGone =>
    have hRoutes := (Dispatch.routed_of_plan site.lawful hExact.provides).2.1
    obtain ⟨entry', hEntry', hBack, hRerouted⟩ := hGone _ _ rfl hRoutes
    exact .inr ⟨rfl, entry', hEntry', hBack, hRerouted.body⟩

/-- No step of the service takes a message out of the deferral queue. -/
theorem Step.deferral (hExact : Exact site.server w.shared.broker) (hEntry : site.server.Holds w.shared.broker entry)
    (hPersistent : entry.message.persistent = true) (hSafe : entry.safe = true) (hTag : entry.tag = none)
    (hQueue : entry.queue = Dispatch.deferralQueue) (h : Step site w label w') :
    site.server.Holds w'.shared.broker entry ∨ label = .quiet ∧ Returned site w'.shared.broker entry := by
  cases h with
  | env h =>
    rcases h.arises with hSame | ⟨event, hStep, hArises, hLabel⟩
    · exact .inl (hSame ▸ hEntry)
    · refine (hExact.deferred hStep hEntry hPersistent hSafe hTag hQueue ?_).imp_right fun h => ⟨hLabel, h.2⟩
      rintro _ _ _ rfl
      cases hArises
  | act i h =>
    generalize w.procs i = y at h
    rcases h.asks with hSame | ⟨event, hStep, hAsks⟩
    · exact .inl (hSame ▸ hEntry)
    · refine (hExact.deferred hStep hEntry hPersistent hSafe hTag hQueue ?_).imp_right ?_
      · rintro _ _ _ rfl
        cases hAsks
        rfl
      · rintro ⟨rfl, _⟩
        cases hAsks

end Deployment

end ReliableNotifier
