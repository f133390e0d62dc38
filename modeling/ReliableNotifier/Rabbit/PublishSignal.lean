import ReliableNotifier.Library.Interleaving
import ReliableNotifier.Worker.Process

/-! # Publishing with confirms

All calls of `publishSignal` on one broker share its mutex, its channel and the two
channels on which the client library hands over returned messages and confirmations.
The server answers in its own time. A call may leave while the answer to its message is
still on the way.
-/

namespace ReliableNotifier.Rabbit

open Interleaving LabelledRun

structure Message where
  exchange : String
  routingKey : String
  messageType : String
  signal : Signal
  deriving DecidableEq

/-- The message of `Publish`. -/
def publish (signal : Signal) : Message :=
  ⟨"reliable-notifier.dispatch", "delivery", "delivery.dispatch", signal⟩

/-- The message of `Defer`. -/
def defer (signal : Signal) : Message := ⟨"", "reliable-notifier.dispatch.deferred", "delivery.deferred", signal⟩

inductive PublishError where
  | encode
  | publish
  | unroutable (replyText : String)
  | confirmsClosed
  | negative
  | context
  deriving DecidableEq

/-- What the server sends back for the message with number `tag`. -/
inductive Notice where
  | returned (tag : Nat) (replyText : String)
  | confirmation (tag : Nat) (ack : Bool)
  deriving DecidableEq

/-- The broker and the server behind it. A message's number is its place in `sent`, and the server
confirms in that order. The two channels hold one element each. -/
structure RabbitBroker where
  mu : Option Nat
  sent : List Message
  verdicts : List Bool
  unroutable : List Nat
  wire : List Notice
  returns : Option (Nat × String)
  confirms : Option (Nat × Bool)
  closed : Bool
  deriving DecidableEq

def newRabbitBroker : RabbitBroker := ⟨none, [], [], [], [], none, none, false⟩

/-- Where a call of `publishSignal` stands. `selecting` is the outer select, `acknowledged` the inner one. -/
inductive Caller where
  | idle
  | waiting (message : Message)
  | locked (message : Message)
  | selecting (message : Message) (tag : Nat)
  | acknowledged (message : Message) (tag : Nat)
  | done (message : Message) (tag : Option Nat) (error : Option PublishError)
  deriving DecidableEq

/-- What a caller does next, with the case that a select takes. -/
inductive Branch where
  | call (message : Message)
  | lock
  | fail (error : PublishError)
  | publish
  | returns
  | confirms
  | context
  | drain
  | default
  deriving DecidableEq

inductive Event where
  | unroutable (tag : Nat) (replyText : String)
  | confirm (ack : Bool)
  | dispatch
  | close
  deriving DecidableEq

namespace RabbitBroker

/-- `<-broker.returns`. A closed and empty channel gives the zero value. -/
def receiveReturn (s : RabbitBroker) : Option (String × RabbitBroker) :=
  match s.returns with
  | some (_, replyText) => some (replyText, { s with returns := none })
  | none => if s.closed then some ("", s) else none

/-- The end of a call unlocks the mutex. -/
def unlock (s : RabbitBroker) : RabbitBroker := { s with mu := none }

def publishSignal (i : Nat) (s : RabbitBroker) : Caller → Branch → Option (RabbitBroker × Caller)
  | .idle, .call message => some (s, .waiting message)
  | .waiting message, .lock => if s.mu = none then some ({ s with mu := some i }, .locked message) else none
  | .locked message, .fail error =>
    if error = .encode ∨ error = .publish then some (s.unlock, .done message none (some error)) else none
  | .locked message, .publish =>
    if s.closed then none
    else some ({ s with sent := s.sent ++ [message] }, .selecting message s.sent.length)
  | .selecting message tag, .returns =>
    s.receiveReturn.map fun (replyText, s) => (s.unlock, .done message (some tag) (some (.unroutable replyText)))
  | .selecting message tag, .confirms =>
    match s.confirms with
    | some (_, true) => some ({ s with confirms := none }, .acknowledged message tag)
    | some (_, false) => some ({ s with confirms := none }.unlock, .done message (some tag) (some .negative))
    | none => if s.closed then some (s.unlock, .done message (some tag) (some .confirmsClosed)) else none
  | .selecting message tag, .context => some (s.unlock, .done message (some tag) (some .context))
  | .acknowledged message tag, .drain =>
    s.receiveReturn.map fun (replyText, s) => (s.unlock, .done message (some tag) (some (.unroutable replyText)))
  | .acknowledged message tag, .default =>
    if s.receiveReturn = none then some (s.unlock, .done message (some tag) none) else none
  | _, _ => none

/-- The server returns a message before it confirms it and confirms each once, in order. The reader of
the connection hands the notices over in order and waits where a channel is full. -/
def serve (s : RabbitBroker) : Event → Option RabbitBroker
  | .unroutable tag replyText =>
    if s.verdicts.length ≤ tag ∧ tag < s.sent.length ∧ tag ∉ s.unroutable then
      some { s with unroutable := tag :: s.unroutable, wire := s.wire ++ [.returned tag replyText] }
    else none
  | .confirm ack =>
    if s.verdicts.length < s.sent.length then
      some { s with verdicts := s.verdicts ++ [ack], wire := s.wire ++ [.confirmation s.verdicts.length ack] }
    else none
  | .dispatch =>
    if s.closed then none
    else match s.wire with
      | [] => none
      | .returned tag replyText :: rest =>
        if s.returns = none then some { s with wire := rest, returns := some (tag, replyText) } else none
      | .confirmation tag ack :: rest =>
        if s.confirms = none then some { s with wire := rest, confirms := some (tag, ack) } else none
  | .close => some { s with closed := true }

end RabbitBroker

/-! ## Branch by branch -/

section

variable {i : Nat} {s s' : RabbitBroker} {c c' : Caller} {branch : Branch} {event : Event}

theorem receiveReturn_eq_some {replyText : String} (h : s.receiveReturn = some (replyText, s')) :
    s' = { s with returns := s'.returns } := by
  unfold RabbitBroker.receiveReturn at h
  split at h
  · cases h
    rfl
  · split at h
    · cases h
      rfl
    · cases h

theorem receiveReturn_eq_none (h : s.receiveReturn = none) : s.returns = none := by
  unfold RabbitBroker.receiveReturn at h
  split at h
  · cases h
  · assumption

/-- What a caller can do, branch by branch. -/
inductive Turn (i : Nat) (s : RabbitBroker) : Caller → Branch → RabbitBroker → Caller → Prop
  | call (message : Message) : Turn i s .idle (.call message) s (.waiting message)
  | lock {message : Message} (hFree : s.mu = none) :
      Turn i s (.waiting message) .lock { s with mu := some i } (.locked message)
  | fail {message : Message} (error : PublishError) :
      Turn i s (.locked message) (.fail error) s.unlock (.done message none (some error))
  | publish {message : Message} (hOpen : s.closed = false) :
      Turn i s (.locked message) .publish { s with sent := s.sent ++ [message] }
        (.selecting message s.sent.length)
  | returns {message : Message} {tag : Nat} {s' : RabbitBroker} {replyText : String}
      (hSame : s' = { s with returns := s'.returns }) :
      Turn i s (.selecting message tag) .returns s'.unlock
        (.done message (some tag) (some (.unroutable replyText)))
  | ack {message : Message} {tag k : Nat} (hConfirm : s.confirms = some (k, true)) :
      Turn i s (.selecting message tag) .confirms { s with confirms := none } (.acknowledged message tag)
  | nack {message : Message} {tag k : Nat} (hConfirm : s.confirms = some (k, false)) :
      Turn i s (.selecting message tag) .confirms { s with confirms := none }.unlock
        (.done message (some tag) (some .negative))
  | confirmsClosed {message : Message} {tag : Nat} (hClosed : s.closed = true) :
      Turn i s (.selecting message tag) .confirms s.unlock (.done message (some tag) (some .confirmsClosed))
  | context {message : Message} {tag : Nat} :
      Turn i s (.selecting message tag) .context s.unlock (.done message (some tag) (some .context))
  | drain {message : Message} {tag : Nat} {s' : RabbitBroker} {replyText : String}
      (hSame : s' = { s with returns := s'.returns }) :
      Turn i s (.acknowledged message tag) .drain s'.unlock
        (.done message (some tag) (some (.unroutable replyText)))
  | default {message : Message} {tag : Nat} (hNone : s.returns = none) :
      Turn i s (.acknowledged message tag) .default s.unlock (.done message (some tag) none)

theorem turn_of_publishSignal (h : s.publishSignal i c branch = some (s', c')) : Turn i s c branch s' c' := by
  unfold RabbitBroker.publishSignal at h
  split at h
  · cases h
    exact .call _
  · split at h
    · cases h
      exact .lock ‹_›
    · cases h
  · split at h
    · cases h
      exact .fail _
    · cases h
  · split at h
    · cases h
    · rename_i hOpen
      cases h
      exact .publish (by simpa using hOpen)
  · obtain ⟨⟨replyText, s''⟩, hReceive, hSame⟩ := Option.map_eq_some_iff.mp h
    cases hSame
    exact .returns (receiveReturn_eq_some hReceive)
  · split at h
    · cases h
      exact .ack ‹_›
    · cases h
      exact .nack ‹_›
    · split at h
      · cases h
        exact .confirmsClosed ‹_›
      · cases h
  · cases h
    exact .context
  · obtain ⟨⟨replyText, s''⟩, hReceive, hSame⟩ := Option.map_eq_some_iff.mp h
    cases hSame
    exact .drain (receiveReturn_eq_some hReceive)
  · split at h
    · rename_i hNone
      cases h
      exact .default (receiveReturn_eq_none hNone)
    · cases h
  · cases h

/-- What the server and the reader can do. -/
inductive Served (s : RabbitBroker) : Event → RabbitBroker → Prop
  | unroutable {tag : Nat} {replyText : String} (hUnconfirmed : s.verdicts.length ≤ tag)
      (hSent : tag < s.sent.length) :
      Served s (.unroutable tag replyText)
        { s with unroutable := tag :: s.unroutable, wire := s.wire ++ [.returned tag replyText] }
  | confirm {ack : Bool} (hSent : s.verdicts.length < s.sent.length) :
      Served s (.confirm ack)
        { s with verdicts := s.verdicts ++ [ack], wire := s.wire ++ [.confirmation s.verdicts.length ack] }
  | returned {tag : Nat} {replyText : String} {rest : List Notice} (hWire : s.wire = .returned tag replyText :: rest) :
      Served s .dispatch { s with wire := rest, returns := some (tag, replyText) }
  | confirmation {tag : Nat} {ack : Bool} {rest : List Notice} (hWire : s.wire = .confirmation tag ack :: rest)
      (hRoom : s.confirms = none) : Served s .dispatch { s with wire := rest, confirms := some (tag, ack) }
  | close : Served s .close { s with closed := true }

theorem served_of_serve (h : s.serve event = some s') : Served s event s' := by
  unfold RabbitBroker.serve at h
  split at h
  · split at h
    · rename_i hGuard
      cases h
      exact .unroutable hGuard.1 hGuard.2.1
    · cases h
  · split at h
    · cases h
      exact .confirm ‹_›
    · cases h
  · split at h
    · cases h
    · split at h
      · cases h
      · rename_i hWire
        split at h
        · cases h
          exact .returned hWire
        · cases h
      · rename_i hWire
        split at h
        · cases h
          exact .confirmation hWire ‹_›
        · cases h
  · cases h
    exact .close

end

/-! ## The system -/

inductive Label where
  | caller (i : Nat) (branch : Branch)
  | server (event : Event)
  deriving DecidableEq

inductive Env : RabbitBroker → Label → RabbitBroker → Prop
  | server {s s' : RabbitBroker} {event : Event} (h : s.serve event = some s') : Env s (.server event) s'

inductive Act (i : Nat) : RabbitBroker → Caller → Label → RabbitBroker → Caller → Prop
  | caller {s s' : RabbitBroker} {c c' : Caller} {branch : Branch}
      (h : s.publishSignal i c branch = some (s', c')) : Act i s c (.caller i branch) s' c'

abbrev World := Interleaving.World RabbitBroker Caller

abbrev Step : World → Label → World → Prop := Interleaving.Step Env Act

def start : World := ⟨newRabbitBroker, fun _ => .idle⟩

/-! ## Computed runs -/

def execute (w : World) : Label → Option World
  | .caller i branch =>
    (w.shared.publishSignal i (w.procs i) branch).map fun (s, c) => ⟨s, Function.update w.procs i c⟩
  | .server event => (w.shared.serve event).map fun s => { w with shared := s }

theorem step_of_execute {w w' : World} {label : Label} (h : execute w label = some w') : Step w label w' := by
  cases label with
  | caller i branch =>
    obtain ⟨⟨s, c⟩, hCall, rfl⟩ := Option.map_eq_some_iff.mp h
    exact .act i (.caller hCall)
  | server event =>
    obtain ⟨s, hServe, rfl⟩ := Option.map_eq_some_iff.mp h
    exact .env (.server hServe)

def play (w : World) : List Label → Option World
  | [] => some w
  | label :: rest => (execute w label).bind fun next => play next rest

theorem run_of_play {first w w' : World} {history : List Label} {script : List Label}
    (hRun : Run Step first history w) (h : play w script = some w') :
    Run Step first (script.reverse ++ history) w' := by
  induction script generalizing history w with
  | nil =>
    cases h
    exact hRun
  | cons label rest ih =>
    obtain ⟨next, hNext, hRest⟩ := Option.bind_eq_some_iff.mp h
    rw [List.reverse_cons, List.append_assoc]
    exact ih (hRun.next (step_of_execute hNext)) hRest

end ReliableNotifier.Rabbit
