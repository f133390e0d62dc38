import ReliableNotifier.Library.Interleaving
import ReliableNotifier.Runtime.Handles

/-! # The loop around a consumer

`runWorker` connects, lets `RabbitConsumer.Run` start a goroutine for every message, closes
the consumer when `Run` returns and tries again. The goroutines, the loop, the broker and
the signal that ends the service interleave in any way. The outcomes of the calls that a
goroutine makes are arbitrary, so that nothing here depends on what a cancelled context
does to them.

`Close` is the client library's. It waits for the goroutine that reads the connection, which
is stuck once a confirmation does not fit into `confirms` any more, and a `Defer` that ends by
its context or by a returned message leaves its confirmation there. Whether `Close` returns
after so many of them is a parameter, `closes`.
-/

namespace ReliableNotifier.Runtime.Consumer

open Interleaving LabelledRun Resource
open Json (Bytes ascii)

/-- What a call of `Run` shares with its goroutines. -/
structure Consuming where
  messages : List Bytes
  closed : Bool
  failures : Option String
  group : Nat
  /-- The calls of `Defer` that ended without a confirmation. -/
  unread : Nat

def Consuming.initial : Consuming := ⟨[], false, none, 0, 0⟩

/-- Where `runWorker` stands, with the number of the consumer it has and the error that `Run` returns. -/
inductive Loop where
  | deciding
  | selecting (n : Nat)
  | waiting (n : Nat) (err : Option String)
  | closing (n : Nat) (err : Option String)
  | checking (err : Option String)
  | pausing
  | exited
  deriving DecidableEq

structure Shared where
  cancelled : Bool
  attempts : Nat
  loop : Loop
  runs : Nat → Consuming
  trace : Trace

def Shared.setRun (s : Shared) (n : Nat) (run : Consuming) : Shared :=
  { s with runs := Function.update s.runs n run }

/-- A goroutine of `Run`, with the calls of `processMessage` that are still to come and its result. -/
inductive Goroutine where
  | idle
  | working (n : Nat) (calls : List Wire.Call) (result : Except String Unit)
  | failing (n : Nat) (err : String)
  | leaving (n : Nat)
  | done

inductive Label where
  | quiet
  | cancelled
  | disconnected (n : Nat)
  | started (n i : Nat)
  | handled (n i : Nat) (result : Except String Unit)
  | returned (n : Nat) (err : Option String)
  | warned (message category : String)
  deriving DecidableEq

def workerErrorCategory : Option String → String
  | none => "consumer_closed"
  | some _ => "delivery_or_broker_failure"

/-- The channel that a call of `processMessage` is made on. `Process` has none. -/
def perform (n : Nat) : Wire.Call → Trace → Trace
  | .process _, trace => trace
  | .defer signal, trace => .used ⟨n, .broker, .channel⟩ (.defer signal) :: trace
  | .ack, trace => .used ⟨n, .consumer, .channel⟩ .ack :: trace
  | .nack requeue, trace => .used ⟨n, .consumer, .channel⟩ (.nack requeue) :: trace

inductive Env (closes : Nat → Prop) : Shared → Label → Shared → Prop
  | cancel {s : Shared} : Env closes s .cancelled { s with cancelled := true }
  | deliver {s : Shared} {n : Nat} {body : Bytes} (hMade : n < s.attempts) (hOpen : (s.runs n).closed = false) :
      Env closes s .quiet (s.setRun n { s.runs n with messages := (s.runs n).messages ++ [body] })
  | disconnect {s : Shared} {n : Nat} (hMade : n < s.attempts) :
      Env closes s (.disconnected n) (s.setRun n { s.runs n with closed := true })
  | stop {s : Shared} (hLoop : s.loop = .deciding) (hCancelled : s.cancelled = true) :
      Env closes s .quiet { s with loop := .exited }
  | unavailable {s : Shared} {replies : Replies} {err : String} {trace : Trace} (hLoop : s.loop = .deciding)
      (hOpen : s.cancelled = false)
      (hConnect : (newRabbitConsumer replies s.attempts).run.run s.trace = (.error err, trace)) :
      Env closes s (.warned "Worker broker unavailable" "broker_unavailable")
        { s with loop := .pausing, attempts := s.attempts + 1, trace := trace }
  | connect {s : Shared} {replies : Replies} {trace : Trace} (hLoop : s.loop = .deciding)
      (hOpen : s.cancelled = false)
      (hConnect : (newRabbitConsumer replies s.attempts).run.run s.trace = (.ok (), trace)) :
      Env closes s .quiet
        { s.setRun s.attempts .initial with
          loop := .selecting s.attempts, attempts := s.attempts + 1, trace := trace }
  | context {s : Shared} {n : Nat} (hLoop : s.loop = .selecting n) (hCancelled : s.cancelled = true) :
      Env closes s .quiet { s with loop := .waiting n (some "context canceled") }
  | failure {s : Shared} {n : Nat} {err : String} (hLoop : s.loop = .selecting n)
      (hFailure : (s.runs n).failures = some err) :
      Env closes s .quiet
        { s.setRun n { s.runs n with failures := none } with loop := .waiting n (some err) }
  | closed {s : Shared} {n : Nat} (hLoop : s.loop = .selecting n) (hEmpty : (s.runs n).messages = [])
      (hClosed : (s.runs n).closed = true) :
      Env closes s .quiet { s with loop := .waiting n (some "RabbitMQ Worker delivery channel closed") }
  | returned {s : Shared} {n : Nat} {err : Option String} (hLoop : s.loop = .waiting n err)
      (hGroup : (s.runs n).group = 0) : Env closes s (.returned n err) { s with loop := .closing n err }
  | close {s : Shared} {n : Nat} {err : Option String} (hLoop : s.loop = .closing n err)
      (hCloses : closes (s.runs n).unread) :
      Env closes s .quiet { s with loop := .checking err, trace := closeConsumer n s.trace }
  | leave {s : Shared} {err : Option String} (hLoop : s.loop = .checking err) (hCancelled : s.cancelled = true) :
      Env closes s .quiet { s with loop := .exited }
  | interrupted {s : Shared} {err : Option String} (hLoop : s.loop = .checking err) (hOpen : s.cancelled = false) :
      Env closes s (.warned "Worker consumer interrupted" (workerErrorCategory err)) { s with loop := .pausing }
  | resume {s : Shared} (hLoop : s.loop = .pausing) : Env closes s .quiet { s with loop := .deciding }
  | awaited {s : Shared} (hLoop : s.loop = .pausing) (hCancelled : s.cancelled = true) :
      Env closes s .quiet { s with loop := .exited }

/-- A goroutine that fails sends its error unless one is waiting already. -/
inductive Act (i : Nat) : Shared → Goroutine → Label → Shared → Goroutine → Prop
  | start {s : Shared} {n : Nat} {body : Bytes} {rest : List Bytes} {σ : Type} {consumer : Wire.Consumer σ} {store : σ}
      (hLoop : s.loop = .selecting n) (hMessage : (s.runs n).messages = body :: rest) :
      Act i s .idle (.started n i)
        (s.setRun n { s.runs n with messages := rest, group := (s.runs n).group + 1 })
        (.working n (Wire.processMessage consumer body store).calls (Wire.processMessage consumer body store).result)
  | call {s : Shared} {n : Nat} {call : Wire.Call} {calls : List Wire.Call} {result : Except String Unit} :
      Act i s (.working n (call :: calls) result) .quiet { s with trace := perform n call s.trace }
        (.working n calls result)
  | abandon {s : Shared} {n : Nat} {signal : Wire.Signal} {calls : List Wire.Call} {result : Except String Unit} :
      Act i s (.working n (.defer signal :: calls) result) .quiet
        { s.setRun n { s.runs n with unread := (s.runs n).unread + 1 } with
          trace := perform n (.defer signal) s.trace }
        (.working n calls result)
  | succeed {s : Shared} {n : Nat} : Act i s (.working n [] (.ok ())) (.handled n i (.ok ())) s (.leaving n)
  | fail {s : Shared} {n : Nat} {err : String} :
      Act i s (.working n [] (.error err)) (.handled n i (.error err)) s (.failing n err)
  | report {s : Shared} {n : Nat} {err : String} (hEmpty : (s.runs n).failures = none) :
      Act i s (.failing n err) .quiet (s.setRun n { s.runs n with failures := some err }) (.leaving n)
  | drop {s : Shared} {n : Nat} {err earlier : String} (hFull : (s.runs n).failures = some earlier) :
      Act i s (.failing n err) .quiet s (.leaving n)
  | finish {s : Shared} {n : Nat} :
      Act i s (.leaving n) .quiet (s.setRun n { s.runs n with group := (s.runs n).group - 1 }) .done

abbrev World := Interleaving.World Shared Goroutine

abbrev Step (closes : Nat → Prop) : World → Label → World → Prop := Interleaving.Step (Env closes) Act

def start : World := ⟨⟨false, 0, .deciding, fun _ => .initial, []⟩, fun _ => .idle⟩

abbrev Run (closes : Nat → Prop) : List Label → World → Prop := LabelledRun.Run (Step closes) start

/-- The confirmations that `confirms` has room for, which is what the library asks of its user. -/
abbrev fits (unread : Nat) : Prop := unread ≤ 1

/-- Which of its ready cases the `select` of `Run` takes. -/
inductive Case where
  | context
  | failure
  | closed

def turn (s : Shared) (replies : Replies) (case : Case) : Option (Label × Shared) :=
  match s.loop with
  | .deciding =>
    if s.cancelled then some (.quiet, { s with loop := .exited })
    else
      match (newRabbitConsumer replies s.attempts).run.run s.trace with
      | (.error _, trace) =>
        some (.warned "Worker broker unavailable" "broker_unavailable",
          { s with loop := .pausing, attempts := s.attempts + 1, trace := trace })
      | (.ok _, trace) =>
        some (.quiet,
          { s.setRun s.attempts .initial with
            loop := .selecting s.attempts, attempts := s.attempts + 1, trace := trace })
  | .selecting n =>
    match case with
    | .context =>
      if s.cancelled then some (.quiet, { s with loop := .waiting n (some "context canceled") }) else none
    | .failure =>
      match (s.runs n).failures with
      | some err =>
        some (.quiet, { s.setRun n { s.runs n with failures := none } with loop := .waiting n (some err) })
      | none => none
    | .closed =>
      if (s.runs n).messages = [] ∧ (s.runs n).closed = true then
        some (.quiet, { s with loop := .waiting n (some "RabbitMQ Worker delivery channel closed") })
      else none
  | .waiting n err =>
    if (s.runs n).group = 0 then some (.returned n err, { s with loop := .closing n err }) else none
  | .closing n err =>
    if fits (s.runs n).unread then
      some (.quiet, { s with loop := .checking err, trace := closeConsumer n s.trace })
    else none
  | .checking err =>
    if s.cancelled then some (.quiet, { s with loop := .exited })
    else some (.warned "Worker consumer interrupted" (workerErrorCategory err), { s with loop := .pausing })
  | .pausing =>
    if s.cancelled then some (.quiet, { s with loop := .exited }) else some (.quiet, { s with loop := .deciding })
  | .exited => none

def go (i : Nat) (s : Shared) (consumer : Wire.Consumer Unit) : Goroutine → Option (Label × Shared × Goroutine)
  | .idle =>
    match s.loop with
    | .selecting n =>
      match (s.runs n).messages with
      | body :: rest =>
        some (.started n i, s.setRun n { s.runs n with messages := rest, group := (s.runs n).group + 1 },
          .working n (Wire.processMessage consumer body ()).calls (Wire.processMessage consumer body ()).result)
      | [] => none
    | _ => none
  | .working n (call :: calls) result =>
    some (.quiet, { s with trace := perform n call s.trace }, .working n calls result)
  | .working n [] (.ok ()) => some (.handled n i (.ok ()), s, .leaving n)
  | .working n [] (.error err) => some (.handled n i (.error err), s, .failing n err)
  | .failing n err =>
    match (s.runs n).failures with
    | none => some (.quiet, s.setRun n { s.runs n with failures := some err }, .leaving n)
    | some _ => some (.quiet, s, .leaving n)
  | .leaving n => some (.quiet, s.setRun n { s.runs n with group := (s.runs n).group - 1 }, .done)
  | .done => none

/-- The next call of the goroutine is a `Defer` that ends without a confirmation. -/
def abandon (s : Shared) : Goroutine → Option (Label × Shared × Goroutine)
  | .working n (.defer signal :: calls) result =>
    some (.quiet, { s.setRun n { s.runs n with unread := (s.runs n).unread + 1 } with
      trace := perform n (.defer signal) s.trace }, .working n calls result)
  | _ => none

inductive Command where
  | cancel
  | deliver (n : Nat) (body : Bytes)
  | disconnect (n : Nat)
  | turn (replies : Replies) (case : Case)
  | go (i : Nat) (consumer : Wire.Consumer Unit)
  | abandon (i : Nat)

def execute (w : World) : Command → Option (Label × World)
  | .cancel => some (.cancelled, { w with shared := { w.shared with cancelled := true } })
  | .deliver n body =>
    if n < w.shared.attempts ∧ (w.shared.runs n).closed = false then
      some (.quiet, { w with
        shared := w.shared.setRun n { w.shared.runs n with messages := (w.shared.runs n).messages ++ [body] } })
    else none
  | .disconnect n =>
    if n < w.shared.attempts then
      some (.disconnected n, { w with shared := w.shared.setRun n { w.shared.runs n with closed := true } })
    else none
  | .turn replies case => (turn w.shared replies case).map fun (label, s) => (label, { w with shared := s })
  | .go i consumer =>
    (go i w.shared consumer (w.procs i)).map fun (label, s, x) => (label, ⟨s, Function.update w.procs i x⟩)
  | .abandon i =>
    (abandon w.shared (w.procs i)).map fun (label, s, x) => (label, ⟨s, Function.update w.procs i x⟩)

variable {closes : Nat → Prop}
variable {history : List Label} {w w' : World} {s s' : Shared} {x x' : Goroutine} {label : Label} {i n : Nat}

@[simp] theorem setRun_self (run : Consuming) : (s.setRun n run).runs n = run := Function.update_self ..

theorem setRun_of_ne {m : Nat} (h : m ≠ n) (run : Consuming) : (s.setRun n run).runs m = s.runs m :=
  Function.update_of_ne h ..

theorem env_of_turn {replies : Replies} {case : Case} (h : turn s replies case = some (label, s')) :
    Env fits s label s' := by
  have hRunning (h : ¬s.cancelled = true) : s.cancelled = false := by simpa using h
  unfold turn at h
  split at h <;> rename_i hLoop
  · split at h
    · cases h
      exact .stop hLoop ‹_›
    · split at h
      · cases h
        exact .unavailable hLoop (hRunning ‹_›) ‹_›
      · cases h
        exact .connect hLoop (hRunning ‹_›) ‹_›
  · split at h
    · split at h
      · cases h
        exact .context hLoop ‹_›
      · cases h
    · split at h
      · cases h
        exact .failure hLoop ‹_›
      · cases h
    · split at h
      · cases h
        exact .closed hLoop (And.left ‹_›) (And.right ‹_›)
      · cases h
  · split at h
    · cases h
      exact .returned hLoop ‹_›
    · cases h
  · split at h
    · cases h
      exact .close hLoop ‹_›
    · cases h
  · split at h
    · cases h
      exact .leave hLoop ‹_›
    · cases h
      exact .interrupted hLoop (hRunning ‹_›)
  · split at h
    · cases h
      exact .awaited hLoop ‹_›
    · cases h
      exact .resume hLoop
  · cases h

theorem act_of_go {consumer : Wire.Consumer Unit} (h : go i s consumer x = some (label, s', x')) :
    Act i s x label s' x' := by
  unfold go at h
  split at h
  · split at h <;> rename_i hLoop
    · split at h
      · cases h
        exact .start hLoop ‹_›
      · cases h
    · cases h
  · cases h
    exact .call
  · cases h
    exact .succeed
  · cases h
    exact .fail
  · split at h
    · cases h
      exact .report ‹_›
    · cases h
      exact .drop ‹_›
  · cases h
    exact .finish
  · cases h

theorem act_of_abandon (h : abandon s x = some (label, s', x')) : Act i s x label s' x' := by
  unfold abandon at h
  split at h
  · cases h
    exact .abandon
  · cases h

/-- What a command does is a step. -/
theorem step_of_execute {command : Command} (h : execute w command = some (label, w')) : Step fits w label w' := by
  cases command with
  | cancel =>
    cases h
    exact .env .cancel
  | deliver n body =>
    simp only [execute] at h
    split at h
    · cases h
      exact .env (.deliver (And.left ‹_›) (And.right ‹_›))
    · cases h
  | disconnect n =>
    simp only [execute] at h
    split at h
    · cases h
      exact .env (.disconnect ‹_›)
    · cases h
  | turn replies case =>
    obtain ⟨⟨label', s⟩, hTurn, hSame⟩ := Option.map_eq_some_iff.mp h
    cases hSame
    exact .env (env_of_turn hTurn)
  | go i consumer =>
    obtain ⟨⟨label', s, x⟩, hGo, hSame⟩ := Option.map_eq_some_iff.mp h
    cases hSame
    exact .act i (act_of_go hGo)
  | abandon i =>
    obtain ⟨⟨label', s, x⟩, hAbandon, hSame⟩ := Option.map_eq_some_iff.mp h
    cases hSame
    exact .act i (act_of_abandon hAbandon)

/-- The channel was lost, so that no message can be refused any more. -/
def Sample.consumer : Wire.Consumer Unit :=
  ⟨fun _ _ => (.ok true, ()), fun _ => .ok (), .ok (), fun _ => .error "channel/connection is not open"⟩

/-- Two messages that do not decode, taken by two goroutines. -/
def Sample.messages : List Command :=
  [.turn .willing .context, .deliver 0 [120], .deliver 0 [120], .go 0 consumer, .go 1 consumer]

/-- Both fail, the first one while `Run` selects and the second one while it waits. -/
def Sample.failures : List Command :=
  [.go 0 consumer, .go 0 consumer, .go 0 consumer, .turn .willing .failure, .go 0 consumer, .go 1 consumer,
    .go 1 consumer, .go 1 consumer, .go 1 consumer, .turn .willing .context]

/-- A delivery that finds no capacity, and a `Defer` that the end of the service cuts short. -/
def Sample.busy : Wire.Consumer Unit :=
  ⟨fun _ _ => (.ok false, ()), fun _ => .error "context canceled", .ok (), fun _ => .ok ()⟩

def Sample.signal : Bytes :=
  ascii ("\x7b\"delivery_id\":\"00000000-0000-4000-8000-000000000001\",\"generation\":1," ++
    "\"trace_id\":\"00000000-0000-4000-8000-000000000002\"\x7d")

/-! ## Goroutines at work -/

/-- The goroutine has not told the group of the consumer `n` that it is done. -/
def Goroutine.Busy (n : Nat) : Goroutine → Prop
  | working m _ _ => m = n
  | failing m _ => m = n
  | leaving m => m = n
  | _ => False

/-- The consumer that `Run` is called on. -/
def Loop.serving : Loop → Option Nat
  | selecting n => some n
  | waiting n _ => some n
  | _ => none

/-- What a step does to the group of a consumer: nothing, or the goroutine joins it or leaves it. -/
inductive Shift (s s' : Shared) (x x' : Goroutine) : Prop
  | stay (hGroup : ∀ m, (s'.runs m).group = (s.runs m).group) (hBusy : ∀ m, x'.Busy m ↔ x.Busy m)
  | enter (n : Nat) (hServing : s.loop.serving = some n) (hOut : ∀ m, ¬x.Busy m) (hIn : ∀ m, x'.Busy m ↔ m = n)
      (hGroup : (s'.runs n).group = (s.runs n).group + 1)
      (hOthers : ∀ m, m ≠ n → (s'.runs m).group = (s.runs m).group)
  | leave (n : Nat) (hIn : ∀ m, x.Busy m ↔ m = n) (hOut : ∀ m, ¬x'.Busy m)
      (hGroup : (s'.runs n).group = (s.runs n).group - 1)
      (hOthers : ∀ m, m ≠ n → (s'.runs m).group = (s.runs m).group)

theorem group_setRun {run : Consuming} (h : run.group = (s.runs n).group) (m : Nat) :
    ((s.setRun n run).runs m).group = (s.runs m).group := by
  by_cases hSame : m = n
  · rw [hSame, setRun_self, h]
  · rw [setRun_of_ne hSame]

theorem Act.shift (h : Act i s x label s' x') : Shift s s' x x' := by
  cases h with
  | @start n _ _ _ _ _ hLoop =>
    refine .enter n (by simp [hLoop, Loop.serving]) (fun _ => id) (fun m => eq_comm) (by simp) fun m hne => ?_
    rw [setRun_of_ne hne]
  | call => exact .stay (fun _ => rfl) fun _ => Iff.rfl
  | abandon => exact .stay (group_setRun rfl) fun _ => Iff.rfl
  | succeed => exact .stay (fun _ => rfl) fun _ => Iff.rfl
  | fail => exact .stay (fun _ => rfl) fun _ => Iff.rfl
  | report => exact .stay (group_setRun rfl) fun _ => Iff.rfl
  | drop => exact .stay (fun _ => rfl) fun _ => Iff.rfl
  | @finish n =>
    refine .leave n (fun m => eq_comm) (fun _ => id) (by simp) fun m hne => ?_
    rw [setRun_of_ne hne]

/-- A goroutine does not move the loop, and it only uses the handles of its consumer. -/
theorem Act.frame (h : Act i s x label s' x') : s'.loop = s.loop ∧ s'.attempts = s.attempts ∧
    s'.cancelled = s.cancelled ∧ (s'.trace = s.trace ∨ ∃ n call, x.Busy n ∧ s'.trace = perform n call s.trace) := by
  cases h with
  | @call n call => exact ⟨rfl, rfl, rfl, .inr ⟨n, call, rfl, rfl⟩⟩
  | @abandon n signal => exact ⟨rfl, rfl, rfl, .inr ⟨n, .defer signal, rfl, rfl⟩⟩
  | _ => exact ⟨rfl, rfl, rfl, .inl rfl⟩

/-- The groups count the goroutines at work, all of them for the consumer that `Run` is called on. -/
structure Grouped (w : World) : Prop where
  counts : ∀ n, Counts w.procs (Goroutine.Busy n) (w.shared.runs n).group
  serving : ∀ i n, (w.procs i).Busy n → w.shared.loop.serving = some n

theorem Grouped.act (hw : Grouped w) (h : Act i w.shared (w.procs i) label s x) :
    Grouped ⟨s, Function.update w.procs i x⟩ := by
  constructor
  · intro m
    have hCounts := hw.counts m
    cases h.shift with
    | stay hGroup hBusy =>
      rw [hGroup m]
      exact hCounts.stay (hBusy m)
    | enter n _ hOut hIn hGroup hOthers =>
      by_cases hSame : m = n
      · subst hSame
        rw [hGroup]
        exact hCounts.enter (hOut m) ((hIn m).mpr rfl)
      · rw [hOthers m hSame]
        exact hCounts.stay ⟨fun hBusy => absurd ((hIn m).mp hBusy) hSame, fun hBusy => absurd hBusy (hOut m)⟩
    | leave n hIn hOut hGroup hOthers =>
      by_cases hSame : m = n
      · subst hSame
        have hPos := hCounts.pos ((hIn m).mpr rfl)
        rw [hGroup]
        exact Counts.leave (by rwa [Nat.sub_add_cancel hPos]) ((hIn m).mpr rfl) (hOut m)
      · rw [hOthers m hSame]
        exact hCounts.stay ⟨fun hBusy => absurd hBusy (hOut m), fun hBusy => absurd ((hIn m).mp hBusy) hSame⟩
  · intro j m hBusy
    rw [h.frame.1]
    by_cases hSame : j = i
    · subst hSame
      simp only [Function.update_self] at hBusy
      cases h.shift with
      | stay _ hStay => exact hw.serving j m ((hStay m).mp hBusy)
      | enter n hServing _ hIn => rwa [(hIn m).mp hBusy]
      | leave _ _ hOut => exact absurd hBusy (hOut m)
    · simp only [Function.update_of_ne hSame] at hBusy
      exact hw.serving j m hBusy

/-- `Run` is called when no consumer is served, and returns when its group is empty. -/
inductive Turn (s s' : Shared) : Prop
  | same (hServing : s'.loop.serving = s.loop.serving) (hGroup : ∀ m, (s'.runs m).group = (s.runs m).group)
  | called (hServing : s.loop.serving = none)
      (hGroup : ∀ m, (s'.runs m).group = (s.runs m).group ∨ (s'.runs m).group = 0)
  | returned (n : Nat) (hServing : s.loop.serving = some n) (hEmpty : (s.runs n).group = 0)
      (hGroup : ∀ m, (s'.runs m).group = (s.runs m).group)

theorem Env.turn (h : Env closes s label s') : Turn s s' := by
  cases h with
  | cancel => exact .same rfl fun _ => rfl
  | deliver => exact .same rfl (group_setRun rfl)
  | disconnect => exact .same rfl (group_setRun rfl)
  | stop hLoop => exact .same (by simp [hLoop, Loop.serving]) fun _ => rfl
  | unavailable hLoop => exact .same (by simp [hLoop, Loop.serving]) fun _ => rfl
  | connect hLoop =>
    refine .called (by simp [hLoop, Loop.serving]) fun m => ?_
    by_cases hSame : m = s.attempts
    · exact .inr (by simp [hSame, Consuming.initial])
    · exact .inl (by simp [setRun_of_ne hSame])
  | context hLoop => exact .same (by simp [hLoop, Loop.serving]) fun _ => rfl
  | failure hLoop => exact .same (by simp [hLoop, Loop.serving]) (group_setRun rfl)
  | closed hLoop => exact .same (by simp [hLoop, Loop.serving]) fun _ => rfl
  | returned hLoop hGroup => exact .returned _ (by simp [hLoop, Loop.serving]) hGroup fun _ => rfl
  | close hLoop => exact .same (by simp [hLoop, Loop.serving]) fun _ => rfl
  | leave hLoop => exact .same (by simp [hLoop, Loop.serving]) fun _ => rfl
  | interrupted hLoop => exact .same (by simp [hLoop, Loop.serving]) fun _ => rfl
  | resume hLoop => exact .same (by simp [hLoop, Loop.serving]) fun _ => rfl
  | awaited hLoop => exact .same (by simp [hLoop, Loop.serving]) fun _ => rfl

theorem Grouped.env (hw : Grouped w) (h : Env closes w.shared label s) : Grouped { w with shared := s } := by
  cases h.turn with
  | same hServing hGroup =>
    refine ⟨fun m => ?_, fun i m hBusy => hServing.trans (hw.serving i m hBusy)⟩
    rw [hGroup m]
    exact hw.counts m
  | called hServing hGroup =>
    have hIdle (i m : Nat) : ¬(w.procs i).Busy m := fun hBusy => by
      have hSome := hw.serving i m hBusy
      rw [hServing] at hSome
      cases hSome
    refine ⟨fun m => ?_, fun i m hBusy => absurd hBusy (hIdle i m)⟩
    rcases hGroup m with hSame | hZero
    · rw [hSame]
      exact hw.counts m
    · rw [hZero]
      exact .none fun i => hIdle i m
  | returned n hServing hEmpty hGroup =>
    refine ⟨fun m => ?_, fun i m hBusy => ?_⟩
    · rw [hGroup m]
      exact hw.counts m
    · have hSame : n = m := Option.some.inj (hServing.symm.trans (hw.serving i m hBusy))
      have hPos := (hw.counts n).pos (hSame ▸ hBusy)
      omega

theorem Run.grouped (h : Run closes history w) : Grouped w := by
  refine h.invariant (I := fun _ w => Grouped w) ?_ fun _ _ _ _ _ hw hStep => ?_
  · exact ⟨fun _ => .none fun _ => id, fun _ _ h => h.elim⟩
  · cases hStep with
    | env h => exact hw.env h
    | act i h => exact hw.act h

/-! ## What is open -/

def Loop.handles : Loop → List Handle
  | selecting n => consumerHandles n
  | waiting n _ => consumerHandles n
  | closing n _ => consumerHandles n
  | _ => []

theorem Loop.handles_of_serving {loop : Loop} (h : loop.serving = some n) : loop.handles = consumerHandles n := by
  cases loop <;> cases h <;> rfl

/-- Only the handles of the consumer that the loop has are open. -/
abbrev Shared.Kept (s : Shared) : Prop := Standing s.attempts [] s.loop.handles s.trace

theorem perform_standing {k : Nat} {trace : Trace} (h : Standing k [] (consumerHandles n) trace) (call : Wire.Call) :
    Standing k [] (consumerHandles n) (perform n call trace) := by
  cases call with
  | process => exact h
  | defer => exact h.used (by simp [consumerHandles, Role.handles])
  | ack => exact h.used (by simp [consumerHandles, Role.handles])
  | nack => exact h.used (by simp [consumerHandles, Role.handles])

theorem Act.kept (h : Act i s x label s' x') (hServing : ∀ n, x.Busy n → s.loop.serving = some n) (hKept : s.Kept) :
    s'.Kept := by
  obtain ⟨hLoop, hAttempts, -, hTrace⟩ := h.frame
  unfold Shared.Kept
  rw [hLoop, hAttempts]
  rcases hTrace with hTrace | ⟨n, call, hBusy, hTrace⟩
  · rwa [hTrace]
  · rw [hTrace, Loop.handles_of_serving (hServing n hBusy)]
    rw [Shared.Kept, Loop.handles_of_serving (hServing n hBusy)] at hKept
    exact perform_standing hKept call

theorem Env.kept (h : Env closes s label s') (hKept : s.Kept) : s'.Kept := by
  unfold Shared.Kept at hKept ⊢
  cases h with
  | unavailable hLoop _ hConnect =>
    rw [hLoop] at hKept
    exact (newRabbitConsumer_triple _).error_of_run (hKept.fresh (by simp [Role.handles])) hConnect
  | connect hLoop _ hConnect =>
    rw [hLoop] at hKept
    exact (newRabbitConsumer_triple _).ok_of_run (hKept.fresh (by simp [Role.handles])) hConnect
  | close hLoop =>
    rw [hLoop] at hKept
    exact hKept.closeConsumer
  | cancel => exact hKept
  | deliver => exact hKept
  | disconnect => exact hKept
  | _ hLoop => rwa [hLoop] at hKept

theorem Run.kept (h : Run closes history w) : w.shared.Kept := by
  refine h.invariant (I := fun _ w => w.shared.Kept) ?_ fun _ _ _ _ hRun hKept hStep => ?_
  · exact ⟨.nil, by simp, by simp [start]⟩
  · cases hStep with
    | env h => exact h.kept hKept
    | act i h => exact h.kept ((Run.grouped hRun).serving i) hKept

/-- Whatever the broker and the goroutines do, no connection or channel is used before it was opened or after it was
closed, none is closed twice, those of one consumer are open at a time, and the loop ends with all of them closed. -/
theorem handles_closed (h : Run closes history w) :
    Orderly w.shared.trace ∧
      (∀ x y, Live w.shared.trace x → Live w.shared.trace y → x.attempt = y.attempt) ∧
      (w.shared.loop = .exited → ∀ x, .opened x ∈ w.shared.trace → .closed x ∈ w.shared.trace) := by
  have hBalance := h.kept.balance
  have hAttempt (loop : Loop) : ∃ n, ∀ h ∈ loop.handles, h.attempt = n := by
    cases loop with
    | selecting n => exact ⟨n, by simp [Loop.handles, consumerHandles, Role.handles]⟩
    | waiting n => exact ⟨n, by simp [Loop.handles, consumerHandles, Role.handles]⟩
    | closing n => exact ⟨n, by simp [Loop.handles, consumerHandles, Role.handles]⟩
    | _ => exact ⟨0, by simp [Loop.handles]⟩
  refine ⟨hBalance.orderly, fun x y hx hy => ?_, fun hExited x hOpened => ?_⟩
  · obtain ⟨n, hn⟩ := hAttempt w.shared.loop
    exact (hn x ((hBalance.live_iff x).mp hx)).trans (hn y ((hBalance.live_iff y).mp hy)).symm
  · rw [hExited] at hBalance
    exact hBalance.closed_of_opened hOpened

theorem handles_closed_failures :
    ∃ history w, Run fits history w ∧ w.shared.loop = .exited ∧ .opened ⟨0, .consumer, .channel⟩ ∈ w.shared.trace ∧
      .closed ⟨0, .consumer, .channel⟩ ∈ w.shared.trace := by
  have hPlay : (play execute [] start (Sample.messages ++ Sample.failures ++
      [.cancel, .turn .willing .context, .turn .willing .context])).any (fun run =>
        run.2.shared.loop = .exited ∧ .opened ⟨0, .consumer, .channel⟩ ∈ run.2.shared.trace) = true := by
    decide +kernel
  obtain ⟨⟨history, w⟩, hRun, hFacts⟩ := (Option.any_eq_true _ _).mp hPlay
  obtain ⟨hExited, hOpened⟩ := of_decide_eq_true hFacts
  have h : Run fits history w := run_of_play step_of_execute .refl hRun
  exact ⟨history, w, h, hExited, hOpened, (handles_closed h).2.2 hExited _ hOpened⟩

end ReliableNotifier.Runtime.Consumer
