import ReliableNotifier.Rabbit.PublishSignal

/-! # Whose confirmation a call reads

A call that leaves the outer select without a confirmation leaves the answer to its
message behind, and the next call takes it for its own. As long as no call publishes
after such a call, every success is the server's word on the message of that call.
-/

namespace ReliableNotifier.Rabbit

open Interleaving LabelledRun

variable {i j : Nat} {s s' : RabbitBroker} {c c' : Caller} {branch : Branch} {event : Event} {label : Label}
  {history : List Label} {message : Message} {tag : Nat}

/-! ## What a call can rely on -/

/-- The message of `tag` was acknowledged and not returned. -/
structure Delivered (message : Message) (tag : Nat) (s : RabbitBroker) : Prop where
  sent : s.sent[tag]? = some message
  ack : s.verdicts[tag]? = some true
  routed : tag ∉ s.unroutable

/-- Every message is confirmed, and every confirmation has been read. -/
structure Settled (s : RabbitBroker) : Prop where
  verdicts : s.verdicts.length = s.sent.length
  confirms : s.confirms = none
  wire : s.wire = []

def Notice.IsReturn : Notice → Prop
  | .returned .. => True
  | .confirmation .. => False

/-- The last message and its confirmation: not given, on the wire behind returns, or in the channel. -/
inductive Awaiting (tag : Nat) (s : RabbitBroker) : Prop
  | unanswered (hVerdicts : s.verdicts.length = tag) (hConfirms : s.confirms = none)
      (hWire : ∀ notice ∈ s.wire, notice.IsReturn)
  | travelling {ack : Bool} {ahead : List Notice} (hVerdicts : s.verdicts.length = tag + 1)
      (hAck : s.verdicts[tag]? = some ack) (hConfirms : s.confirms = none)
      (hWire : s.wire = ahead ++ [.confirmation tag ack]) (hAhead : ∀ notice ∈ ahead, notice.IsReturn)
  | arrived {ack : Bool} (hVerdicts : s.verdicts.length = tag + 1) (hAck : s.verdicts[tag]? = some ack)
      (hConfirms : s.confirms = some (tag, ack)) (hWire : s.wire = [])

/-- If the message was returned, its return is ahead of its confirmation. -/
def Announced (tag : Nat) (s : RabbitBroker) : Prop :=
  tag ∈ s.unroutable → s.returns ≠ none ∨ ∃ replyText, .returned tag replyText ∈ s.wire

theorem Delivered.serve (h : Delivered message tag s) (hServe : Served s event s') : Delivered message tag s' := by
  have hBound : tag < s.verdicts.length := (List.getElem?_eq_some_iff.mp h.ack).1
  cases hServe with
  | unroutable hUnconfirmed =>
    refine ⟨h.sent, h.ack, fun hMem => ?_⟩
    rcases List.mem_cons.mp hMem with rfl | hOld
    · omega
    · exact h.routed hOld
  | confirm => exact ⟨h.sent, by rw [List.getElem?_append_left hBound]; exact h.ack, h.routed⟩
  | returned | confirmation | close => exact ⟨h.sent, h.ack, h.routed⟩

theorem Settled.serve (h : Settled s) (hServe : Served s event s') : Settled s' := by
  have hVerdicts := h.verdicts
  cases hServe with
  | unroutable | confirm => omega
  | returned hWire | confirmation hWire =>
    rw [h.wire] at hWire
    cases hWire
  | close => exact ⟨h.verdicts, h.confirms, h.wire⟩

/-- What is read off the wire is a return or the confirmation itself, and then nothing is left. -/
theorem Awaiting.head {notice : Notice} {rest : List Notice} (h : Awaiting tag s) (hWire : s.wire = notice :: rest) :
    (notice.IsReturn ∧ ∀ returns, Awaiting tag { s with wire := rest, returns := returns }) ∨
      ∃ ack, notice = .confirmation tag ack ∧ rest = [] ∧ s.verdicts.length = tag + 1 ∧
        s.verdicts[tag]? = some ack := by
  cases h with
  | unanswered hVerdicts hConfirms hReturns =>
    rw [hWire] at hReturns
    obtain ⟨hHead, hRest⟩ := List.forall_mem_cons.mp hReturns
    exact .inl ⟨hHead, fun _ => .unanswered hVerdicts hConfirms hRest⟩
  | @travelling ack ahead hVerdicts hAck hConfirms hTravels hAhead =>
    rw [hTravels] at hWire
    cases ahead with
    | nil =>
      cases hWire
      exact .inr ⟨ack, rfl, rfl, hVerdicts, hAck⟩
    | cons first others =>
      cases hWire
      obtain ⟨hHead, hRest⟩ := List.forall_mem_cons.mp hAhead
      exact .inl ⟨hHead, fun _ => .travelling hVerdicts hAck hConfirms rfl hRest⟩
  | arrived _ _ _ hEmpty =>
    rw [hEmpty] at hWire
    cases hWire

theorem Awaiting.serve (h : Awaiting tag s) (hLast : s.sent.length = tag + 1) (hServe : Served s event s') :
    Awaiting tag s' := by
  cases hServe with
  | unroutable hUnconfirmed hSent =>
    cases h with
    | unanswered hVerdicts hConfirms hWire =>
      refine .unanswered hVerdicts hConfirms fun notice hNotice => ?_
      rcases List.mem_append.mp hNotice with hOld | hNew
      · exact hWire notice hOld
      · rw [List.mem_singleton.mp hNew]
        trivial
    | travelling hVerdicts | arrived hVerdicts => omega
  | @confirm ack hSent =>
    cases h with
    | unanswered hVerdicts hConfirms hWire =>
      refine @Awaiting.travelling tag _ ack s.wire ?_ ?_ hConfirms ?_ hWire
      · simp [hVerdicts]
      · simp [← hVerdicts]
      · simp [hVerdicts]
    | travelling hVerdicts | arrived hVerdicts => omega
  | returned hMoved =>
    rcases h.head hMoved with ⟨_, hRest⟩ | ⟨_, hOther, _⟩
    · exact hRest _
    · cases hOther
  | confirmation hMoved =>
    rcases h.head hMoved with ⟨hReturn, _⟩ | ⟨_, hSame, rfl, hVerdicts, hAck⟩
    · exact hReturn.elim
    · cases hSame
      exact .arrived hVerdicts hAck rfl rfl
  | close =>
    cases h with
    | unanswered hVerdicts hConfirms hWire => exact .unanswered hVerdicts hConfirms hWire
    | travelling hVerdicts hAck hConfirms hWire hAhead => exact .travelling hVerdicts hAck hConfirms hWire hAhead
    | arrived hVerdicts hAck hConfirms hWire => exact .arrived hVerdicts hAck hConfirms hWire

theorem Announced.serve (h : Announced tag s) (hServe : Served s event s') : Announced tag s' := by
  cases hServe with
  | @unroutable other replyText =>
    intro hMem
    rcases List.mem_cons.mp hMem with rfl | hOld
    · exact .inr ⟨replyText, List.mem_append_right _ (List.mem_singleton_self _)⟩
    · exact (h hOld).imp_right fun ⟨text, hText⟩ => ⟨text, List.mem_append_left _ hText⟩
  | confirm => exact fun hMem => (h hMem).imp_right fun ⟨text, hText⟩ => ⟨text, List.mem_append_left _ hText⟩
  | returned => exact fun _ => .inl (fun hNone => by cases hNone)
  | confirmation hMoved =>
    intro hMem
    rcases h hMem with hReturns | ⟨text, hText⟩
    · exact .inl hReturns
    · rw [hMoved] at hText
      rcases List.mem_cons.mp hText with hSame | hRest
      · cases hSame
      · exact .inr ⟨text, hRest⟩
  | close => exact h

/-! ## Runs -/

namespace Label

/-- The call leaves the outer select without a confirmation. -/
def Strays : Label → Prop
  | .caller _ .context | .caller _ .returns => True
  | _ => False

def Publishes : Label → Prop
  | .caller _ .publish => True
  | _ => False

end Label

def Clean (history : List Label) : Prop := ∀ label ∈ history, ¬label.Strays

/-- No call publishes after one that strayed. -/
def Orderly : List Label → Prop
  | [] => True
  | label :: history => (label.Publishes → Clean history) ∧ Orderly history

/-- The call published, if it did, before any call strayed. -/
def Prompt (i : Nat) : List Label → Prop
  | [] => True
  | label :: history => (label = .caller i .publish → Clean history) ∧ Prompt i history

namespace Caller

def Holds : Caller → Prop
  | .locked _ | .selecting .. | .acknowledged .. => True
  | _ => False

/-- What holds of a prompt call. -/
def Sound (history : List Label) (s : RabbitBroker) : Caller → Prop
  | .idle | .waiting _ => True
  | .locked _ => Clean history → s.closed = true ∨ Settled s
  | .selecting message tag => s.sent[tag]? = some message ∧ s.sent.length = tag + 1 ∧ Awaiting tag s ∧
      Announced tag s
  | .acknowledged message tag => s.sent[tag]? = some message ∧ s.verdicts[tag]? = some true ∧ Settled s ∧
      (tag ∈ s.unroutable → s.returns ≠ none)
  | .done message tag none => ∃ k, tag = some k ∧ Delivered message k s
  | .done _ _ (some _) => True

end Caller

theorem Clean.tail (h : Clean (label :: history)) : Clean history :=
  fun other hOther => h other (List.mem_cons_of_mem _ hOther)

theorem Clean.prompt (h : Clean history) : Prompt i history := by
  induction history with
  | nil => trivial
  | cons label history ih => exact ⟨fun _ => h.tail, ih h.tail⟩

theorem Orderly.prompt (h : Orderly history) : Prompt i history := by
  induction history with
  | nil => trivial
  | cons label history ih => exact ⟨fun hLabel => h.1 (hLabel ▸ trivial), ih h.2⟩

theorem closed_or_settled_serve (h : s.closed = true ∨ Settled s) (hServe : Served s event s') :
    s'.closed = true ∨ Settled s' := by
  rcases h with hClosed | hSettled
  · left
    cases hServe <;> first | exact hClosed | rfl
  · exact .inr (hSettled.serve hServe)

theorem Caller.Sound.serve (h : c.Sound history s) (hServe : Served s event s') :
    c.Sound (label :: history) s' := by
  have hSent : s'.sent = s.sent := by cases hServe <;> rfl
  rcases c with _ | _ | _ | ⟨message, tag⟩ | ⟨message, tag⟩ | ⟨message, tag, _ | error⟩
  · trivial
  · trivial
  · exact fun hClean => closed_or_settled_serve (h hClean.tail) hServe
  · obtain ⟨hMessage, hLast, hAwaiting, hAnnounced⟩ := h
    exact ⟨hSent ▸ hMessage, hSent ▸ hLast, hAwaiting.serve hLast hServe, hAnnounced.serve hServe⟩
  · obtain ⟨hMessage, hAck, hSettled, hRouted⟩ := h
    have hVerdicts := hSettled.verdicts
    refine ⟨hSent ▸ hMessage, ?_, hSettled.serve hServe, ?_⟩
    · cases hServe <;> first | exact hAck | omega
    · cases hServe with
      | unroutable | confirm => omega
      | returned => exact fun _ hNone => by cases hNone
      | confirmation | close => exact hRouted
  · exact h.imp fun k ⟨hTag, hDelivered⟩ => ⟨hTag, hDelivered.serve hServe⟩
  · trivial

theorem Turn.lock_iff (h : Turn i s c branch s' c') (hLock : s.mu = some i ↔ c.Holds) :
    (s'.mu = some i ↔ c'.Holds) ∧ ∀ j, j ≠ i → (s'.mu = some j ↔ s.mu = some j) := by
  have hUnlocked (hHolds : c.Holds) : ∀ j, j ≠ i → (none = some j ↔ s.mu = some j) := by
    intro j hj
    simp [hLock.mpr hHolds, hj.symm]
  cases h with
  | call => exact ⟨hLock, fun _ _ => Iff.rfl⟩
  | lock hFree => exact ⟨⟨fun _ => trivial, fun _ => rfl⟩, fun j hj => by simp [hFree, hj.symm]⟩
  | publish | ack => exact ⟨hLock, fun _ _ => Iff.rfl⟩
  | fail | returns | nack | confirmsClosed | context | drain | default =>
    exact ⟨⟨fun h => (by cases h), fun h => h.elim⟩, hUnlocked trivial⟩

theorem Turn.delivered (h : Turn i s c branch s' c') (hDelivered : Delivered message tag s) :
    Delivered message tag s' := by
  obtain ⟨hSent, hAck, hRouted⟩ := hDelivered
  have hBound : tag < s.sent.length := (List.getElem?_eq_some_iff.mp hSent).1
  cases h with
  | publish => exact ⟨by rw [List.getElem?_append_left hBound]; exact hSent, hAck, hRouted⟩
  | returns hSame | drain hSame =>
    rw [hSame]
    exact ⟨hSent, hAck, hRouted⟩
  | _ => exact ⟨hSent, hAck, hRouted⟩

/-- A caller that does not hold the mutex changes nothing. -/
theorem Turn.quiet (h : Turn i s c branch s' c') (hHolds : ¬c.Holds) (hMu : s.mu ≠ none) : s' = s := by
  cases h with
  | call => rfl
  | lock hFree => exact absurd hFree hMu
  | _ => exact absurd trivial hHolds

theorem Turn.others {other : Caller} (h : Turn i s c branch s' c') (hLock : s.mu = some i ↔ c.Holds) (hj : j ≠ i)
    (hOther : s.mu = some j ↔ other.Holds) (hSound : other.Sound history s) : other.Sound (label :: history) s' := by
  by_cases hHolds : other.Holds
  · have hMu := hOther.mpr hHolds
    have hNot : ¬c.Holds := fun hBoth => hj (Option.some.inj (hMu.symm.trans (hLock.mpr hBoth)))
    rw [h.quiet hNot (by simp [hMu])]
    cases other with
    | locked => exact fun hClean => hSound hClean.tail
    | selecting | acknowledged => exact hSound
    | idle | waiting | done => exact hHolds.elim
  · rcases other with _ | _ | _ | _ | _ | ⟨message, tag, _ | error⟩
    · trivial
    · trivial
    · exact absurd trivial hHolds
    · exact absurd trivial hHolds
    · exact absurd trivial hHolds
    · exact hSound.imp fun k ⟨hTag, hDelivered⟩ => ⟨hTag, h.delivered hDelivered⟩
    · trivial

/-- The facts about the broker between two calls. -/
structure Ready (history : List Label) (s : RabbitBroker) : Prop where
  bounded : ∀ tag ∈ s.unroutable, tag < s.sent.length
  settled : Clean history → s.mu = none → s.closed = true ∨ Settled s

theorem Settled.unlock (h : Settled s) : Settled s.unlock := ⟨h.verdicts, h.confirms, h.wire⟩

/-- A confirmation that has arrived is that of the last message, and nothing is behind it. -/
theorem Awaiting.arrival {k : Nat} {ack : Bool} (h : Awaiting tag s) (hLast : s.sent.length = tag + 1)
    (hConfirm : s.confirms = some (k, ack)) :
    s.verdicts[tag]? = some ack ∧ Settled { s with confirms := none } := by
  cases h with
  | unanswered _ hNone | travelling _ _ hNone =>
    rw [hNone] at hConfirm
    cases hConfirm
  | arrived hVerdicts hAck hArrived hWire =>
    rw [hArrived] at hConfirm
    cases hConfirm
    exact ⟨hAck, hVerdicts.trans hLast.symm, rfl, hWire⟩

theorem Turn.own (h : Turn i s c branch s' c') (hLock : s.mu = some i ↔ c.Holds) (hReady : Ready history s)
    (hPrompt : Prompt i (.caller i branch :: history)) (hSound : c.Sound history s) :
    c'.Sound (.caller i branch :: history) s' ∧
      (Clean (.caller i branch :: history) → s'.mu = none → s'.closed = true ∨ Settled s') := by
  cases h with
  | call => exact ⟨trivial, fun hClean => hReady.settled hClean.tail⟩
  | lock hFree =>
    refine ⟨fun hClean => ?_, fun _ hNone => by cases hNone⟩
    exact (hReady.settled hClean.tail hFree).imp_right fun h => ⟨h.verdicts, h.confirms, h.wire⟩
  | fail => exact ⟨trivial, fun hClean _ => (hSound hClean.tail).imp_right Settled.unlock⟩
  | publish hOpen =>
    have hMu : s.mu ≠ none := by simp [hLock.mpr trivial]
    refine ⟨?_, fun _ hNone => absurd hNone hMu⟩
    rcases hSound (hPrompt.1 rfl) with hClosed | hSettled
    · rw [hOpen] at hClosed
      cases hClosed
    · refine ⟨by simp, by simp, .unanswered hSettled.verdicts hSettled.confirms ?_, fun hMem => ?_⟩
      · intro notice hNotice
        rw [hSettled.wire] at hNotice
        cases hNotice
      · exact absurd (hReady.bounded _ hMem) (lt_irrefl _)
  | returns | context => exact ⟨trivial, fun hClean => absurd trivial (hClean _ List.mem_cons_self)⟩
  | ack hConfirm =>
    obtain ⟨hMessage, hLast, hAwaiting, hAnnounced⟩ := hSound
    obtain ⟨hAck, hSettled⟩ := hAwaiting.arrival hLast hConfirm
    refine ⟨⟨hMessage, hAck, hSettled, fun hMem => ?_⟩, fun _ _ => .inr hSettled⟩
    rcases hAnnounced hMem with hReturns | ⟨_, hText⟩
    · exact hReturns
    · rw [show s.wire = [] from hSettled.wire] at hText
      cases hText
  | nack hConfirm =>
    obtain ⟨_, hLast, hAwaiting, _⟩ := hSound
    exact ⟨trivial, fun _ _ => .inr (hAwaiting.arrival hLast hConfirm).2.unlock⟩
  | confirmsClosed hClosed => exact ⟨trivial, fun _ _ => .inl hClosed⟩
  | drain hSame =>
    obtain ⟨_, _, hSettled, _⟩ := hSound
    rw [hSame]
    exact ⟨trivial, fun _ _ => .inr ⟨hSettled.verdicts, hSettled.confirms, hSettled.wire⟩⟩
  | default hNone =>
    obtain ⟨hMessage, hAck, hSettled, hRouted⟩ := hSound
    exact ⟨⟨_, rfl, hMessage, hAck, fun hMem => hRouted hMem hNone⟩, fun _ _ => .inr hSettled.unlock⟩

theorem Turn.bounded (h : Turn i s c branch s' c') (hBounded : ∀ tag ∈ s.unroutable, tag < s.sent.length) :
    ∀ tag ∈ s'.unroutable, tag < s'.sent.length := by
  cases h with
  | publish => exact fun tag hMem => (hBounded tag hMem).trans (by simp)
  | returns hSame | drain hSame =>
    rw [hSame]
    exact hBounded
  | _ => exact hBounded

theorem Served.bounded (h : Served s event s') (hBounded : ∀ tag ∈ s.unroutable, tag < s.sent.length) :
    ∀ tag ∈ s'.unroutable, tag < s'.sent.length := by
  cases h with
  | unroutable _ hSent => exact List.forall_mem_cons.mpr ⟨hSent, hBounded⟩
  | _ => exact hBounded

theorem Served.mu_eq (h : Served s event s') : s'.mu = s.mu := by
  cases h <;> rfl

/-- The invariant of the broker and of all calls on it. -/
theorem Run.sound {w : World} (h : Run Step start history w) :
    Ready history w.shared ∧ ∀ i, (w.shared.mu = some i ↔ (w.procs i).Holds) ∧
      (Prompt i history → (w.procs i).Sound history w.shared) := by
  refine invariant (G := Ready)
    (L := fun i history s c => (s.mu = some i ↔ c.Holds) ∧ (Prompt i history → c.Sound history s)) ?_ ?_ ?_ ?_ h
  · exact ⟨fun _ h => (by cases h), fun _ _ => .inr ⟨rfl, rfl, rfl⟩⟩
  · exact fun i => ⟨⟨fun h => (by cases h), fun h => h.elim⟩, fun _ => trivial⟩
  · rintro history w label s _ hReady ⟨hServe⟩
    have hServed := served_of_serve hServe
    refine ⟨⟨hServed.bounded hReady.bounded, fun hClean hFree => ?_⟩, fun i c hLocal => ?_⟩
    · exact closed_or_settled_serve (hReady.settled hClean.tail (hServed.mu_eq.symm.trans hFree)) hServed
    · exact ⟨hServed.mu_eq ▸ hLocal.1, fun hPrompt => (hLocal.2 hPrompt.2).serve hServed⟩
  · rintro i history w label s c _ hReady ⟨hLock, hSound⟩ ⟨hCall⟩
    have hTurn := turn_of_publishSignal hCall
    obtain ⟨hOwn, hOthers⟩ := hTurn.lock_iff hLock
    refine ⟨⟨hTurn.bounded hReady.bounded, fun hClean => ?_⟩, ⟨hOwn, fun hPrompt => ?_⟩, fun j other hj hLocal => ?_⟩
    · exact (hTurn.own hLock hReady hClean.prompt (hSound hClean.tail.prompt)).2 hClean
    · exact (hTurn.own hLock hReady hPrompt (hSound hPrompt.2)).1
    · exact ⟨(hOthers j hj).trans hLocal.1, fun hPrompt => hTurn.others hLock hj hLocal.1 (hLocal.2 hPrompt.2)⟩

/-- A prompt call returns nil only for a message that the server acknowledged and did not return. -/
theorem Run.delivered {w : World} {tag : Option Nat} (hRun : Run Step start history w) (hPrompt : Prompt i history)
    (hNil : w.procs i = .done message tag none) : ∃ k, tag = some k ∧ Delivered message k w.shared := by
  have hSound := ((Run.sound hRun).2 i).2 hPrompt
  rw [hNil] at hSound
  exact hSound

/-- In an orderly run, `publishSignal` returns nil only for a message that the server acknowledged and
did not return. -/
theorem own_message_confirmed {w : World} {tag : Option Nat} (hRun : Run Step start history w)
    (hOrderly : Orderly history) (hNil : w.procs i = .done message tag none) :
    ∃ k, tag = some k ∧ Delivered message k w.shared :=
  Run.delivered hRun hOrderly.prompt hNil

/-- One call, confirmed. -/
def confirmed : List Label :=
  [.caller 0 (.call (publish ⟨100, 0, 102⟩)), .caller 0 .lock, .caller 0 .publish, .server (.confirm true),
    .server .dispatch, .caller 0 .confirms, .caller 0 .default]

theorem own_message_confirmed_once :
    ∃ (history : List Label) (w : World), Run Step start history w ∧ Orderly history ∧
      w.procs 0 = .done (publish ⟨100, 0, 102⟩) (some 0) none ∧ Delivered (publish ⟨100, 0, 102⟩) 0 w.shared := by
  have hPlay : (play start confirmed).any
      (fun w => w.procs 0 = .done (publish ⟨100, 0, 102⟩) (some 0) none) = true := by
    decide +kernel
  obtain ⟨w, hPlay, hDone⟩ := (Option.any_eq_true _ _).mp hPlay
  have hDone := of_decide_eq_true hDone
  have hRun := run_of_play .refl hPlay
  have hOrderly : Orderly (confirmed.reverse ++ []) := by
    simp [confirmed, Orderly, Clean, Label.Publishes, Label.Strays]
  obtain ⟨k, hTag, hDelivered⟩ := own_message_confirmed hRun hOrderly hDone
  cases hTag
  exact ⟨_, w, hRun, hOrderly, hDone, hDelivered⟩

/-- The first call is cancelled before its confirmation arrives, and the second reads it. -/
def cancelled : List Label :=
  [.caller 0 (.call (defer ⟨100, 0, 102⟩)), .caller 0 .lock, .caller 0 .publish, .caller 0 .context,
    .server (.confirm true), .server .dispatch, .caller 1 (.call (defer ⟨200, 0, 202⟩)), .caller 1 .lock,
    .caller 1 .publish, .caller 1 .confirms, .caller 1 .default, .server (.confirm false)]

/-- The second deferral is reported as done, and the server refuses its message. -/
theorem stray_confirmation_taken :
    ∃ (history : List Label) (w : World), Run Step start history w ∧
      w.procs 1 = .done (defer ⟨200, 0, 202⟩) (some 1) none ∧
      w.shared.sent = [defer ⟨100, 0, 102⟩, defer ⟨200, 0, 202⟩] ∧ w.shared.verdicts = [true, false] := by
  have hPlay : (play start cancelled).any (fun w => w.procs 1 = .done (defer ⟨200, 0, 202⟩) (some 1) none &&
      (w.shared.sent = [defer ⟨100, 0, 102⟩, defer ⟨200, 0, 202⟩] && w.shared.verdicts = [true, false])) = true := by
    decide +kernel
  obtain ⟨w, hPlay, hState⟩ := (Option.any_eq_true _ _).mp hPlay
  obtain ⟨hDone, hBoth⟩ := Bool.and_eq_true_iff.mp hState
  obtain ⟨hSent, hVerdicts⟩ := Bool.and_eq_true_iff.mp hBoth
  exact ⟨_, w, run_of_play .refl hPlay, of_decide_eq_true hDone, of_decide_eq_true hSent,
    of_decide_eq_true hVerdicts⟩

end ReliableNotifier.Rabbit
