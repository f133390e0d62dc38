import ReliableNotifier.System.Deployment

/-! # No signal is lost

A signal whose publication or deferral was confirmed is in the dispatch queue, in the
deferral queue or with a consumer, as long as a claim could still use it. A consumer
that acknowledges a deferred message takes away one copy only after the broker has confirmed
another. With what the outbox still has to publish this covers every pending delivery. All
of this is about signals whose calls read their own confirmation: one whose deferral took
that of another message can be lost.
-/

namespace ReliableNotifier

open Checked

/-! ## Confirmed signals -/

section

variable {setting : Setting} {history : List Label} {s s' : Shared} {label : Label} {i : Nat} {x x' : Process}
  {signal : Signal}

/-- The signal that the broker confirms, to a publisher or to a consumer. -/
def Label.confirmed : Label → Option Signal
  | publish _ signal => some signal
  | defer _ signal => some signal
  | _ => none

def Confirmed (history : List Label) (signal : Signal) : Prop := ∃ label ∈ history, label.confirmed = some signal

theorem not_confirmed_nil : ¬Confirmed [] signal := by
  rintro ⟨_, h, _⟩
  cases h

theorem confirmed_cons :
    Confirmed (label :: history) signal ↔ label.confirmed = some signal ∨ Confirmed history signal :=
  List.exists_mem_cons_iff ..

theorem Label.confirmed_of (actor : Option Nat) (before : Database) (action : Store.Action) :
    (Label.of actor before action).confirmed = none := by
  cases action <;> rfl

/-- The broker keeps what it accepted, and accepts what it confirms. -/
theorem Act.signals (h : Act setting i s x label s' x') :
    s.signals ⊆ s'.signals ∧ ∀ signal, label.confirmed = some signal → signal ∈ s'.signals := by
  have hNothing {signals : List Signal} (hNone : label.confirmed = none) (signal : Signal)
      (hConfirmed : label.confirmed = some signal) : signal ∈ signals := by
    cases hNone.symm.trans hConfirmed
  cases h with
  | defer | publish =>
    refine ⟨List.subset_cons_self _ _, fun signal hSignal => ?_⟩
    cases hSignal
    exact List.mem_cons_self
  | undeferred hSignals | unpublished hSignals =>
    refine ⟨?_, hNothing rfl⟩
    rcases hSignals with rfl | rfl
    · exact List.Subset.refl _
    · exact List.subset_cons_self _ _
  | observe | claim | complete | claimOutbox | mark | release =>
    exact ⟨List.Subset.refl _, hNothing (Label.confirmed_of _ _ _)⟩
  | receive | check | acquire | send | ack | nack | crash => exact ⟨List.Subset.refl _, hNothing rfl⟩

theorem Surroundings.signals (h : Surroundings setting s label s') :
    s'.signals = s.signals ∧ label.confirmed = none := by
  cases h with
  | wait | commit => exact ⟨rfl, rfl⟩

theorem System.Run.confirmed {w : System} (h : Run setting history w) (hConfirmed : Confirmed history signal) :
    signal ∈ w.shared.signals := by
  refine (Run.invariant (G := fun history s => Confirmed history signal → signal ∈ s.signals)
    (L := fun _ _ _ _ => True) (fun _ h => absurd h not_confirmed_nil) (fun _ _ => trivial) ?_ ?_ h).1 hConfirmed
  · intro history w label s _ hOld hStep
    obtain ⟨hSame, hNone⟩ := hStep.signals
    refine ⟨fun hNow => ?_, fun _ _ _ => trivial⟩
    rcases confirmed_cons.mp hNow with hNew | hBefore
    · cases hNone.symm.trans hNew
    · exact hSame ▸ hOld hBefore
  · intro i history w label s x _ hOld _ hStep
    obtain ⟨hKept, hNew⟩ := hStep.signals
    exact ⟨fun hNow => (confirmed_cons.mp hNow).elim (hNew signal) fun h => hKept (hOld h), trivial,
      fun _ _ _ _ => trivial⟩

end

namespace Deployment

open Amqp Interleaving
open Json (Bytes)

variable {σ : Type} {site : Site σ} {history : List Label} {w w' : World σ} {s s' : Shared σ} {label : Label} {i : Nat}
  {x x' : Process} {signal : Signal} {entry entry' : Held Bytes} {event : Event Bytes}

/-! ## Copies -/

/-- A message of the signal that the server keeps and that its consumer, if any, has not deferred. -/
structure Copy (history : List Label) (signal : Signal) (entry : Held Bytes) : Prop where
  queue : entry.queue = Dispatch.queueName ∨ entry.queue = Dispatch.deferralQueue
  persistent : entry.message.persistent = true
  safe : entry.safe = true
  body : Wire.message entry.message.body = some signal
  current : ∀ i, entry.tag = some i → .defer i signal ∉ history

namespace Copy

theorem next (h : Copy history signal entry) (hLabel : label.confirmed ≠ some signal) :
    Copy (label :: history) signal entry := by
  refine ⟨h.queue, h.persistent, h.safe, h.body, fun i hTag hMem => ?_⟩
  rcases List.mem_cons.mp hMem with rfl | hOld
  · exact hLabel rfl
  · exact h.current i hTag hOld

theorem untagged (h : Copy history signal entry) : Copy history signal { entry with tag := none } :=
  ⟨h.queue, h.persistent, h.safe, h.body, fun _ hTag => by cases hTag⟩

theorem tagged (h : Copy history signal entry) (hFresh : .defer i signal ∉ history) :
    Copy history signal { entry with tag := some i } :=
  ⟨h.queue, h.persistent, h.safe, h.body, fun j hTag => by cases hTag; exact hFresh⟩

theorem rerouted {b : σ} (h : Copy history signal entry) (hQueue : entry'.queue = Dispatch.queueName)
    (hRerouted : site.server.Rerouted b entry entry') : Copy history signal entry' :=
  ⟨.inl hQueue, hRerouted.persistent.trans h.persistent, hRerouted.safe.trans h.safe, hRerouted.body ▸ h.body,
    fun _ hTag => by cases hRerouted.tag.symm.trans hTag⟩

/-- What a step of the server leaves of a copy, unless its consumer settles it. -/
theorem step {b b' : σ} (hPlan : site.server.Provides b Dispatch.plan) (hStep : site.server.Step b event b')
    (hEntry : site.server.Holds b entry) (h : Copy history signal entry)
    (hTaken : ∀ queue j message, event = .deliver queue j message → .defer j signal ∉ history) :
    (∃ entry', site.server.Holds b' entry' ∧ Copy history signal entry') ∨
      ∃ j, entry.tag = some j ∧ (event = .ack j ∨ event = .nack j false) := by
  have hSpec : ∃ spec, site.server.Has b (.queue entry.queue spec) ∧ spec.lasts = true ∧
      (spec.messageTTL = none ∨ spec.deadLetterExchange = some Dispatch.exchangeName ∧
        spec.deadLetterRoutingKey = some Dispatch.routingKey) := by
    rcases h.queue with hQueue | hQueue <;> rw [hQueue]
    · exact ⟨_, hPlan (.queue Dispatch.queueName Dispatch.queueSpec) (by decide), rfl, .inl rfl⟩
    · exact ⟨_, hPlan (.queue Dispatch.deferralQueue Dispatch.deferralSpec) (by decide), rfl, .inr ⟨rfl, rfl⟩⟩
  obtain ⟨spec, hHas, hLasts, hLetters⟩ := hSpec
  cases site.lawful.kept hStep hEntry h.persistent h.safe hHas hLasts with
  | same hKept => exact .inl ⟨_, hKept, h⟩
  | ready hKept => exact .inl ⟨_, hKept, h.untagged⟩
  | taken hKept => exact .inl ⟨_, hKept, h.tagged (hTaken _ _ _ rfl)⟩
  | acked hTag => exact .inr ⟨_, hTag, .inl rfl⟩
  | refused hTag => exact .inr ⟨_, hTag, .inr rfl⟩
  | expired hTTL hGone =>
    -- what expires is deferred, and its dead letters go to the dispatch queue
    rcases hLetters with hNone | ⟨hExchange, hKey⟩
    · cases hNone.symm.trans hTTL
    · have hRoutes := (Dispatch.routed_of_plan site.lawful hPlan).2.1
      obtain ⟨entry', hEntry', hBack, hRerouted⟩ := hGone _ _ hExchange (by rw [hKey]; exact hRoutes)
      exact .inl ⟨entry', hEntry', h.rerouted hBack hRerouted⟩

end Copy

/-- Of every confirmed signal that a claim could use there is a copy, if its calls read their own confirmations. -/
def Keeps (site : Site σ) (history : List Label) (s : Shared σ) : Prop :=
  ∀ signal, Confirmed history signal → signal ∉ s.strays →
    (∃ entry, site.server.Holds s.broker entry ∧ Copy history signal entry) ∨ s.store.Dead signal

/-- The message with the tag of process `i` is the one that the process handles. -/
structure Handles (site : Site σ) (i : Nat) (history : List Label) (b : σ) (x : Process) : Prop where
  idle : x = .idle → ∀ signal, .defer i signal ∉ history
  busy : ∀ entry, site.server.Holds b entry → entry.tag = some i → x ≠ .idle
  stage : ∀ entry, site.server.Holds b entry → entry.tag = some i → ∀ stage, x = .consumer stage →
    stage ≠ .finished → stage.message = Wire.message entry.message.body

namespace Handles

variable {b b' : σ}

/-- Nobody else gives out the tag of the process, and only the process defers under its name. -/
theorem next (h : Handles site i history b x) (hLabel : ∀ signal, label ≠ .defer i signal)
    (hHeld : ∀ entry, site.server.Holds b' entry → entry.tag = some i → site.server.Holds b entry) :
    Handles site i (label :: history) b' x := by
  refine ⟨fun hIdle signal hMem => ?_, fun entry hEntry hTag => h.busy entry (hHeld entry hEntry hTag) hTag,
    fun entry hEntry hTag => h.stage entry (hHeld entry hEntry hTag) hTag⟩
  rcases List.mem_cons.mp hMem with hSame | hOld
  · exact hLabel signal hSame.symm
  · exact h.idle hIdle signal hOld

/-- A step of the process itself that goes on with its message, or gives it up. -/
theorem own (h : Handles site i history b x) (hIdle : x' ≠ .idle)
    (hStage : ∀ stage', x' = .consumer stage' → stage' ≠ .finished →
      ∃ stage, x = .consumer stage ∧ stage ≠ .finished ∧ stage.message = stage'.message)
    (hHeld : ∀ entry, site.server.Holds b' entry → entry.tag = some i → site.server.Holds b entry) :
    Handles site i (label :: history) b' x' := by
  refine ⟨fun h => absurd h hIdle, fun _ _ _ => hIdle, fun entry hEntry hTag stage' hx' hOpen' => ?_⟩
  obtain ⟨stage, hx, hOpen, hMessage⟩ := hStage stage' hx' hOpen'
  exact hMessage ▸ h.stage entry (hHeld entry hEntry hTag) hTag stage hx hOpen

end Handles

/-- A step hands out no tag but to the process that receives. -/
theorem Env.tags (h : Env site s label s') (hEntry : site.server.Holds s'.broker entry) (hTag : entry.tag = some i) :
    site.server.Holds s.broker entry := by
  rcases h.arises with hSame | ⟨event, hStep, hArises, _⟩
  · rwa [hSame] at hEntry
  · refine (site.lawful.tagged hStep hEntry hTag).resolve_right ?_
    rintro ⟨_, rfl⟩
    cases hArises

theorem Env.unconfirmed (h : Env site s label s') : label.confirmed ≠ some signal := by
  cases h with
  | store h => exact h.signals.2 ▸ (Option.some_ne_none signal).symm
  | broker | declare | foreign => exact (Option.some_ne_none signal).symm

theorem Act.tags {j : Nat} (h : Act site i s x label s' x') (hEntry : site.server.Holds s'.broker entry)
    (hTag : entry.tag = some j) : site.server.Holds s.broker entry ∨
      j = i ∧ x = .idle ∧ x' = .consumer (.receive (Wire.message entry.message.body)) := by
  rcases h.asks with hSame | ⟨event, hStep, hAsks⟩
  · rw [hSame] at hEntry
    exact .inl hEntry
  · refine (site.lawful.tagged hStep hEntry hTag).imp_right ?_
    rintro ⟨_, rfl⟩
    cases hAsks
    exact ⟨rfl, rfl, rfl⟩

/-- What a step of the store calls can confirm. -/
theorem unconfirmed {setting : Setting} {t t' : Store}
    (h : ReliableNotifier.Act setting i ⟨t, []⟩ x label ⟨t', []⟩ x') : label.confirmed ≠ some signal :=
  fun hConfirmed => absurd (h.signals.2 signal hConfirmed) List.not_mem_nil

theorem Act.deferred {j : Nat} (h : Act site i s x (.defer j signal) s' x') : j = i := by
  generalize hLabel : Label.defer j signal = label at h
  cases h with
  | store _ h =>
    subst hLabel
    exact absurd rfl (unconfirmed h)
  | defer => cases hLabel; rfl
  | receive | publish | unpublished | undeferred | ack | nack => cases hLabel

theorem Act.handles (h : Act site i s x label s' x') (hOwn : Handles site i history s.broker x) :
    Handles site i (label :: history) s'.broker x' := by
  have hTags (hBusy : x ≠ .idle) (entry' : Held Bytes) (hEntry' : site.server.Holds s'.broker entry')
      (hTag : entry'.tag = some i) : site.server.Holds s.broker entry' :=
    (h.tags hEntry' hTag).resolve_right fun hReceived => hBusy hReceived.2.1
  cases h with
  | store hLabel h =>
    have hHeld (entry' : Held Bytes) (hEntry : site.server.Holds s.broker entry') (_ : entry'.tag = some i) :
        site.server.Holds s.broker entry' := hEntry
    cases h.handling with
    | received | acked | nacked => exact hLabel.elim
    | going hMessage hMessage' =>
      refine hOwn.own Process.noConfusion (fun stage' hSame _ => ⟨_, rfl, ?_, ?_⟩) hHeld
      · rintro rfl
        cases hMessage
      · cases hSame
        exact hMessage.trans hMessage'.symm
    | other hProcess hIdle => exact hOwn.own hIdle (fun stage' hSame => absurd hSame (hProcess stage')) hHeld
  | receive h =>
    refine ⟨Process.noConfusion, fun _ _ _ => Process.noConfusion, fun entry' hEntry' hTag stage hStage _ => ?_⟩
    cases hStage
    rw [Stage.message_receive]
    rcases site.lawful.tagged h hEntry' hTag with hOld | ⟨_, hDelivered⟩
    · exact absurd rfl (hOwn.busy entry' hOld hTag)
    · cases hDelivered
      rfl
  | publish | unpublished =>
    exact hOwn.own Process.noConfusion (fun _ h => by cases h) (hTags Process.noConfusion)
  | defer | undeferred =>
    refine hOwn.own Process.noConfusion (fun stage' hSame _ => ⟨_, rfl, Stage.noConfusion, ?_⟩)
      (hTags Process.noConfusion)
    cases hSame
    exact (Stage.message_afterDefer _ _).symm
  | ack | nack =>
    refine hOwn.own Process.noConfusion (fun stage' hSame hOpen => ?_) (hTags Process.noConfusion)
    cases hSame
    exact absurd rfl hOpen

theorem Run.handles (h : Run site history w) (i : Nat) : Handles site i history w.shared.broker (w.procs i) := by
  refine (Run.invariant (G := fun _ _ => True) (L := fun i history s x => Handles site i history s.broker x)
    (fun _ => trivial) ?_ ?_ ?_ h).2 i
  · exact fun i t => ⟨fun _ _ h => absurd h List.not_mem_nil, fun entry h => absurd h (site.empty entry),
      fun entry h => absurd h (site.empty entry)⟩
  · intro history w label s _ _ hStep
    refine ⟨trivial, fun i x hL => hL.next (fun signal hLabel => ?_) fun _ => hStep.tags⟩
    exact hStep.unconfirmed (congrArg Label.confirmed hLabel)
  · intro i history w label s x _ _ hL hStep
    refine ⟨trivial, hStep.handles hL, fun j y hj hOther =>
      hOther.next (fun signal hLabel => ?_) fun _ hEntry hTag => ?_⟩
    · subst hLabel
      exact hj hStep.deferred
    · exact (hStep.tags hEntry hTag).resolve_right fun hReceived => hj hReceived.1

/-! ## Runs -/

/-- The topology stays as long as it is declared once. -/
theorem Run.plan (hPlan : site.server.Provides site.first Dispatch.plan) (h : Run site history w) :
    site.server.Provides w.shared.broker Dispatch.plan := by
  have hNext {s s' : Shared σ} (hOld : site.server.Provides s.broker Dispatch.plan)
      (hStep : s'.broker = s.broker ∨ ∃ event, site.server.Step s.broker event s'.broker) :
      site.server.Provides s'.broker Dispatch.plan := by
    rcases hStep with hSame | ⟨_, hStep⟩
    · rwa [hSame]
    · exact hOld.step site.lawful Dispatch.plan_sound (List.append_nil _).symm hStep
  refine (Run.invariant (G := fun _ s => site.server.Provides s.broker Dispatch.plan) (L := fun _ _ _ _ => True)
    (fun _ => hPlan) (fun _ _ => trivial) ?_ ?_ h).1
  · intro _ _ _ _ _ hOld hStep
    exact ⟨hNext hOld (hStep.arises.imp_right fun ⟨event, h, _⟩ => ⟨event, h⟩), fun _ _ _ => trivial⟩
  · intro _ _ _ _ _ _ _ hOld _ hStep
    exact ⟨hNext hOld (hStep.asks.imp_right fun ⟨event, h, _⟩ => ⟨event, h⟩), trivial, fun _ _ _ _ => trivial⟩

theorem Act.strays (h : Act site i s x label s' x') : s.strays ⊆ s'.strays := by
  cases h with
  | publish h | unpublished h | defer h | undeferred h => exact h.sent.2.1
  | store | receive | ack | nack => exact List.Subset.refl _

theorem Env.strays (h : Env site s label s') : s'.strays = s.strays := by
  cases h <;> rfl

/-- A message whose confirmation its own call has read is in its queue. -/
theorem PublishSignal.copy {channel : Nat} {exchange routingKey queue : String}
    (h : PublishSignal site.server channel exchange routingKey signal s true s') (hOwn : signal ∉ s'.strays)
    (hRoutes : site.server.Routes s.broker exchange routingKey queue)
    (hQueue : queue = Dispatch.queueName ∨ queue = Dispatch.deferralQueue) :
    ∃ entry, site.server.Holds s'.broker entry ∧ Copy history signal entry := by
  cases h with
  | confirmed hText _ h =>
    exact ⟨_, site.lawful.confirmed h hRoutes, hQueue, rfl, rfl, hText.message, fun _ hTag => by cases hTag⟩
  | stray => exact absurd List.mem_cons_self hOwn

theorem Act.confirmed (hPlan : site.server.Provides s.broker Dispatch.plan) (h : Act site i s x label s' x')
    (hConfirms : label.confirmed = some signal) (hOwn : signal ∉ s'.strays) :
    ∃ entry, site.server.Holds s'.broker entry ∧ Copy history signal entry := by
  obtain ⟨_, hDispatch, hDeferral⟩ := Dispatch.routed_of_plan site.lawful hPlan
  cases h with
  | store _ h => exact absurd hConfirms (unconfirmed h)
  | publish h =>
    cases hConfirms
    exact h.copy hOwn hDispatch (.inl rfl)
  | defer h =>
    cases hConfirms
    exact h.copy hOwn ((hDeferral _).mpr rfl) (.inr rfl)
  | receive | unpublished | undeferred | ack | nack => cases hConfirms

theorem Env.advances (h : Env site s label s') : ∃ action, Store.Step s.store action s'.store := by
  cases h with
  | store h => exact h.advances.step
  | broker | declare | foreign => exact ⟨.wait, .wait le_rfl⟩

theorem Act.advances (h : Act site i s x label s' x') : ∃ action, Store.Step s.store action s'.store := by
  cases h with
  | store _ h => exact h.advances.step
  | publish h | unpublished h | defer h | undeferred h =>
    rw [h.sent.1]
    exact ⟨.wait, .wait le_rfl⟩
  | receive | ack | nack => exact ⟨.wait, .wait le_rfl⟩

/-- A signal that no claim can use stays so. -/
theorem Run.dead (hForeign : ∀ signal, ¬site.setting.foreign signal) (h : Run site history w)
    (hConfirmed : Confirmed history signal) (hDead : w.shared.store.Dead signal) {t : Store}
    (hStep : ∃ action, Store.Step w.shared.store action t) : t.Dead signal := by
  obtain ⟨v, hBelow, hSim⟩ := h.simulated
  obtain ⟨_, hStore⟩ := hStep
  refine hDead.step (hSim.store ▸ hBelow.reachable) ?_ hStore
  exact hSim.store ▸ (hBelow.launched hForeign).1 signal (hBelow.confirmed hConfirmed)

end Deployment

end ReliableNotifier
