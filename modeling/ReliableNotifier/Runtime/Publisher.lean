import ReliableNotifier.Lifecycle.Integrity
import ReliableNotifier.Runtime.Handles
import ReliableNotifier.Worker.Process

/-! # The loop around a publisher

`runPublisher` connects, runs the cycles of a publisher until one of them fails or the
service is to end, closes the broker and tries again. The replies of the store and of the
broker are arbitrary, except that a claim returns what `ClaimOutbox` returns for a store
that can arise.
-/

namespace ReliableNotifier.Runtime.Publisher

open Checked LabelledRun Resource

/-- The name of the host as the process knows it. -/
def hostname (value : Except String String) : String :=
  match value with
  | .ok "" => "publisher"
  | .ok value => value
  | .error _ => "publisher"

def owner (host : Except String String) (pid nanos : Int) : String :=
  hostname host ++ "-" ++ toString pid ++ "-" ++ toString nanos

def leaseDuration : Duration := 30 * second

def batchSize : Int := 100

def newPublisher (owner : String) (leaseDuration : Duration) (batchSize : Int) : Except String Unit :=
  ensure (owner ≠ "" && 0 < leaseDuration && 0 < batchSize) "invalid Publisher configuration"

/-- Where `runPublisher` stands, with the number of the broker it has. -/
inductive Loop where
  | deciding
  | configuring (n : Nat)
  | polling (n : Nat)
  | claiming (n : Nat)
  | cycling (n : Nat) (cycle : Cycle)
  | idling (n : Nat)
  | closing (n : Nat)
  | pausing
  | exited

structure State where
  cancelled : Bool
  attempts : Nat
  loop : Loop
  trace : Trace

inductive Label where
  | quiet
  | cancelled
  | logged (message category : String)
  deriving DecidableEq

/-- The steps of the loop for a publisher of this name, and the signal that ends the service. -/
inductive Step (name : String) : State → Label → State → Prop
  | cancel {s : State} : Step name s .cancelled { s with cancelled := true }
  | stop {s : State} (hLoop : s.loop = .deciding) (hCancelled : s.cancelled = true) :
      Step name s .quiet { s with loop := .exited }
  | unavailable {s : State} {replies : Replies} {err : String} {trace : Trace} (hLoop : s.loop = .deciding)
      (hOpen : s.cancelled = false)
      (hConnect : (newRabbitBroker replies s.attempts).run.run s.trace = (.error err, trace)) :
      Step name s (.logged "Publisher broker unavailable" "rabbitmq_unavailable")
        { s with loop := .pausing, attempts := s.attempts + 1, trace := trace }
  | connect {s : State} {replies : Replies} {trace : Trace} (hLoop : s.loop = .deciding)
      (hOpen : s.cancelled = false)
      (hConnect : (newRabbitBroker replies s.attempts).run.run s.trace = (.ok (), trace)) :
      Step name s .quiet
        { s with loop := .configuring s.attempts, attempts := s.attempts + 1, trace := trace }
  | misconfigured {s : State} {n : Nat} {err : String} (hLoop : s.loop = .configuring n)
      (hNew : newPublisher name leaseDuration batchSize = .error err) :
      Step name s (.logged "Publisher configuration failed" "invalid_configuration")
        { s with loop := .exited, trace := closeBroker n s.trace }
  | configured {s : State} {n : Nat} (hLoop : s.loop = .configuring n)
      (hNew : newPublisher name leaseDuration batchSize = .ok ()) :
      Step name s .quiet { s with loop := .polling n }
  | poll {s : State} {n : Nat} (hLoop : s.loop = .polling n) (hOpen : s.cancelled = false) :
      Step name s .quiet { s with loop := .claiming n }
  | leave {s : State} {n : Nat} (hLoop : s.loop = .polling n) (hCancelled : s.cancelled = true) :
      Step name s .quiet { s with loop := .closing n }
  | claim {s : State} {n : Nat} {store : Store} {r : Readings} {locked : UUID → Bool} {token : UUID}
      (hLoop : s.loop = .claiming n) (hStore : store.Reachable) :
      Step name s .quiet
        { s with loop := .cycling n (.afterClaimOutbox
          (Prod.fst <$> claimOutbox r name leaseDuration batchSize locked token store.db)) }
  | unclaimed {s : State} {n : Nat} (hLoop : s.loop = .claiming n) :
      Step name s .quiet { s with loop := .cycling n (.afterClaimOutbox (.error .unavailable)) }
  | publish {s : State} {n published : Nat} {event : OutboxEvent} {rest : List OutboxEvent}
      (hLoop : s.loop = .cycling n (.publishing published event rest)) (confirmed : Bool) :
      Step name s .quiet
        { s with
          loop := .cycling n (.afterPublish published event rest confirmed)
          trace := .used ⟨n, .broker, .channel⟩ (.publish event.signal) :: s.trace }
  | mark {s : State} {n published : Nat} {event : OutboxEvent} {rest : List OutboxEvent}
      (hLoop : s.loop = .cycling n (.marking published event rest)) (reply : Except StoreError Unit) :
      Step name s .quiet { s with loop := .cycling n (.afterMark published event rest reply) }
  | release {s : State} {n published : Nat} {event : OutboxEvent} {rest : List OutboxEvent}
      (hLoop : s.loop = .cycling n (.releasing published event rest)) :
      Step name s .quiet { s with loop := .cycling n (.afterRelease published rest) }
  | failed {s : State} {n published : Nat} (hLoop : s.loop = .cycling n (.returned published true)) :
      Step name s (.logged "Publisher cycle failed" "publication_failed") { s with loop := .closing n }
  | again {s : State} {n published : Nat} (hLoop : s.loop = .cycling n (.returned published false))
      (hSome : published ≠ 0) : Step name s .quiet { s with loop := .polling n }
  | idle {s : State} {n : Nat} (hLoop : s.loop = .cycling n (.returned 0 false)) :
      Step name s .quiet { s with loop := .idling n }
  | waited {s : State} {n : Nat} (hLoop : s.loop = .idling n) : Step name s .quiet { s with loop := .polling n }
  | awaited {s : State} {n : Nat} (hLoop : s.loop = .idling n) (hCancelled : s.cancelled = true) :
      Step name s .quiet { s with loop := .exited, trace := closeBroker n s.trace }
  | close {s : State} {n : Nat} (hLoop : s.loop = .closing n) :
      Step name s .quiet { s with loop := .pausing, trace := closeBroker n s.trace }
  | resume {s : State} (hLoop : s.loop = .pausing) : Step name s .quiet { s with loop := .deciding }
  | interrupted {s : State} (hLoop : s.loop = .pausing) (hCancelled : s.cancelled = true) :
      Step name s .quiet { s with loop := .exited }

def start : State := ⟨false, 0, .deciding, []⟩

/-- The runs of the loop in a process on this host. -/
def Run (host : Except String String) (pid nanos : Int) : List Label → State → Prop :=
  LabelledRun.Run (Step (owner host pid nanos)) start

variable {host : Except String String} {pid nanos : Int} {name : String} {history later : List Label}
  {s s' : State} {label : Label} {n : Nat}

/-! ## What is open -/

theorem owner_ne_empty (host : Except String String) (pid nanos : Int) : owner host pid nanos ≠ "" := by
  intro h
  have hLength := congrArg String.length h
  simp only [owner, String.length_append, String.length_empty] at hLength
  have hDash : "-".length = 1 := rfl
  omega

theorem newPublisher_ok (host : Except String String) (pid nanos : Int) :
    newPublisher (owner host pid nanos) leaseDuration batchSize = .ok () := by
  refine ensure_ok_iff.mpr ?_
  simp [owner_ne_empty, leaseDuration, batchSize, second]

def Loop.handles : Loop → List Handle
  | configuring n => Role.handles .broker n
  | polling n => Role.handles .broker n
  | claiming n => Role.handles .broker n
  | cycling n _ => Role.handles .broker n
  | idling n => Role.handles .broker n
  | closing n => Role.handles .broker n
  | _ => []

abbrev State.Kept (s : State) : Prop := Standing s.attempts [] s.loop.handles s.trace

theorem newRabbitBroker_alone (replies : Replies) (n : Nat) :
    Session.Triple (Standing (n + 1) [⟨n, .broker, .connection⟩, ⟨n, .broker, .channel⟩] [])
      (newRabbitBroker replies n) (Standing (n + 1) [] (Role.handles .broker n)) (Standing (n + 1) [] []) :=
  newRabbitBroker_triple replies fun _ hMem => absurd hMem List.not_mem_nil

theorem Step.kept (h : Step name s label s') (hKept : s.Kept) : s'.Kept := by
  unfold State.Kept at hKept ⊢
  cases h with
  | cancel => exact hKept
  | unavailable hLoop _ hConnect =>
    rw [hLoop] at hKept
    exact (newRabbitBroker_alone _ _).error_of_run (hKept.fresh (by simp)) hConnect
  | connect hLoop _ hConnect =>
    rw [hLoop] at hKept
    exact (newRabbitBroker_alone _ _).ok_of_run (hKept.fresh (by simp)) hConnect
  | publish hLoop =>
    rw [hLoop] at hKept
    exact hKept.used List.mem_cons_self
  | misconfigured hLoop =>
    rw [hLoop] at hKept
    exact hKept.closeBroker
  | awaited hLoop =>
    rw [hLoop] at hKept
    exact hKept.closeBroker
  | close hLoop =>
    rw [hLoop] at hKept
    exact hKept.closeBroker
  | _ hLoop => rwa [hLoop] at hKept

theorem Run.kept (h : Run host pid nanos history s) : s.Kept := by
  refine LabelledRun.Run.invariant (I := fun _ s => s.Kept) ?_ (fun _ _ _ _ _ hKept hStep => hStep.kept hKept) h
  exact ⟨.nil, by simp, by simp [start]⟩

/-- The loop ends only because the service is to end: its configuration is never refused. -/
theorem Run.cancelled_of_exited (h : Run host pid nanos history s) (hExited : s.loop = .exited) :
    s.cancelled = true := by
  refine LabelledRun.Run.invariant (I := fun _ s => s.loop = .exited → s.cancelled = true) ?_ ?_ h hExited
  · simp [start]
  · intro history s label s' _ hs hStep
    cases hStep with
    | cancel => exact fun _ => rfl
    | stop _ hCancelled => exact fun _ => hCancelled
    | awaited _ hCancelled => exact fun _ => hCancelled
    | interrupted _ hCancelled => exact fun _ => hCancelled
    | misconfigured _ hNew =>
      rw [newPublisher_ok] at hNew
      cases hNew
    | _ => exact fun hLoop => Loop.noConfusion hLoop

/-- Whatever the store and the broker answer, no connection or channel is used before it was opened or after it was
closed, and when the loop ends, which it does only because the service is to end, all of them are closed. -/
theorem broker_closed (h : Run host pid nanos history s) :
    Orderly s.trace ∧ (s.loop = .exited → s.cancelled = true ∧
      ∀ x, .opened x ∈ s.trace → .closed x ∈ s.trace) := by
  have hBalance := h.kept.balance
  refine ⟨hBalance.orderly, fun hExited => ⟨h.cancelled_of_exited hExited, fun x hOpened => ?_⟩⟩
  rw [hExited] at hBalance
  exact hBalance.closed_of_opened hOpened

/-- The trace of the first attempt to connect, if the broker answers every call. -/
def Sample.connected : Trace := ((newRabbitBroker .willing 0).run.run []).2

/-- A cycle fails, and the service is to end. -/
theorem sample_run : Run (.ok "host") 1 1
    [.cancelled, .logged "Publisher cycle failed" "publication_failed", .quiet, .quiet, .quiet, .quiet]
    ⟨true, 1, .closing 0, Sample.connected⟩ := by
  have hConnect : Step (owner (.ok "host") 1 1) start .quiet ⟨false, 1, .configuring 0, Sample.connected⟩ :=
    @Step.connect _ start .willing Sample.connected rfl rfl rfl
  have hPolling : Run (.ok "host") 1 1 _ ⟨false, 1, .polling 0, Sample.connected⟩ :=
    (LabelledRun.Run.refl.next hConnect).next (.configured rfl (newPublisher_ok _ _ _))
  exact (((hPolling.next (.poll rfl rfl)).next (.unclaimed rfl)).next (.failed rfl)).next .cancel

theorem broker_closed_cycle :
    ∃ history s, Run (.ok "host") 1 1 history s ∧ s.loop = .exited ∧
      .opened ⟨0, .broker, .channel⟩ ∈ s.trace ∧ .closed ⟨0, .broker, .channel⟩ ∈ s.trace := by
  have hOpened : .opened ⟨0, .broker, .channel⟩ ∈ closeBroker 0 Sample.connected := by decide +kernel
  have h : Run (.ok "host") 1 1 _ ⟨true, 1, .exited, closeBroker 0 Sample.connected⟩ :=
    (sample_run.next (.close rfl)).next (.interrupted rfl rfl)
  exact ⟨_, _, h, rfl, hOpened, ((broker_closed h).2 rfl).2 _ hOpened⟩

/-! ## Coming to an end -/

/-- The calls that a cycle still makes at most. -/
def Cycle.remaining : Cycle → Nat
  | .publishing _ _ rest => 3 * rest.length + 3
  | .marking _ _ rest => 3 * rest.length + 2
  | .releasing _ _ rest => rest.length + 1
  | .returned _ _ => 0

/-- The steps that the loop still takes at most once the service is to end. -/
def Loop.remaining : Loop → Nat
  | exited => 0
  | deciding => 1
  | pausing => 2
  | closing _ => 3
  | polling _ => 4
  | idling _ => 5
  | cycling _ cycle => 6 + Cycle.remaining cycle
  | claiming _ => 307
  | configuring _ => 308

theorem claimOutbox_length {r : Readings} {leaseDuration : Duration} {limit : Int} {locked : UUID → Bool} {token : UUID}
    {db db' : Database} {reply : List OutboxEvent} (hDb : Integrity db)
    (h : claimOutbox r name leaseDuration limit locked token db = .ok (reply, db')) : reply.length ≤ limit.toNat := by
  obtain ⟨-, -, rfl⟩ := claimOutbox_ok h
  set candidates := outboxCandidates r limit locked db
  set claimed := db.outboxEvents.filter fun row => candidates.any fun candidate => candidate.id = row.id
  have hNodup : (claimed.map OutboxEventRow.id).Nodup :=
    hDb.eventIDs.sublist (List.filter_sublist.map _)
  have hSubset : claimed.map OutboxEventRow.id ⊆ candidates.map OutboxEventRow.id := by
    intro id hMem
    obtain ⟨row, hRow, rfl⟩ := List.mem_map.mp hMem
    obtain ⟨candidate, hCandidate, hSame⟩ := List.any_eq_true.mp (List.mem_filter.mp hRow).2
    exact List.mem_map.mpr ⟨candidate, hCandidate, of_decide_eq_true hSame⟩
  calc (claimed.map (OutboxEventRow.load name token)).length
      = (claimed.map OutboxEventRow.id).length := by simp
    _ ≤ (candidates.map OutboxEventRow.id).length := (hNodup.subperm hSubset).length_le
    _ ≤ limit.toNat := by
      rw [List.length_map, show candidates = outboxCandidates r limit locked db from rfl, outboxCandidates,
        RowTable.length_batch]
      exact min_le_left _ _

theorem remaining_publish (published : Nat) (events : List OutboxEvent) :
    Cycle.remaining (.publish published events) = 3 * events.length := by
  cases events with
  | nil => rfl
  | cons => simp [Cycle.publish, Cycle.remaining, Nat.mul_add]

theorem remaining_releaseRemaining (published : Nat) (events : List OutboxEvent) :
    Cycle.remaining (.releaseRemaining published events) = events.length := by
  cases events <;> simp [Cycle.releaseRemaining, Cycle.remaining]

theorem remaining_claim {r : Readings} {locked : UUID → Bool} {token : UUID} {store : Store} (hs : store.Reachable) :
    Cycle.remaining (.afterClaimOutbox
      (Prod.fst <$> claimOutbox r name leaseDuration batchSize locked token store.db)) ≤ 300 := by
  cases hReply : claimOutbox r name leaseDuration batchSize locked token store.db with
  | error err => exact Nat.zero_le _
  | ok result =>
    have hLength : result.1.length ≤ 100 := claimOutbox_length hs.integrity hReply
    calc Cycle.remaining (.publish 0 result.1) = 3 * result.1.length := remaining_publish 0 _
      _ ≤ 300 := by omega

/-- What a step does to the number of steps that are left. It grows only where the loop checks that the service is not
to end. -/
theorem Step.remaining (h : Step name s label s') :
    label = .cancelled ∧ s'.loop = s.loop ∨
    s.cancelled = false ∧ s'.loop.remaining ≤ 308 ∨
    s'.loop.remaining < s.loop.remaining := by
  cases h with
  | cancel => exact .inl ⟨rfl, rfl⟩
  | unavailable _ hOpen => exact .inr (.inl ⟨hOpen, by simp [Loop.remaining]⟩)
  | connect _ hOpen => exact .inr (.inl ⟨hOpen, by simp [Loop.remaining]⟩)
  | poll _ hOpen => exact .inr (.inl ⟨hOpen, by simp [Loop.remaining]⟩)
  | claim hLoop hStore =>
    rw [hLoop]
    refine .inr (.inr ?_)
    exact Nat.add_lt_add_left (Nat.lt_succ_of_le (remaining_claim hStore)) 6
  | unclaimed hLoop => exact .inr (.inr (by simp [hLoop, Loop.remaining, Cycle.afterClaimOutbox, Cycle.remaining]))
  | @publish _ published event rest hLoop confirmed =>
    rw [hLoop]
    refine .inr (.inr (Nat.add_lt_add_left ?_ 6))
    cases confirmed with
    | true => exact Nat.lt_succ_self _
    | false =>
      rw [show Cycle.afterPublish published event rest false = .releaseRemaining published (event :: rest) from rfl,
        remaining_releaseRemaining]
      simp only [List.length_cons, Cycle.remaining]
      omega
  | @mark _ published event rest hLoop reply =>
    rw [hLoop]
    refine .inr (.inr (Nat.add_lt_add_left ?_ 6))
    cases reply with
    | error =>
      rw [show Cycle.afterMark published event rest (.error _) = .releaseRemaining published (event :: rest) from rfl,
        remaining_releaseRemaining]
      simp only [List.length_cons, Cycle.remaining]
      omega
    | ok =>
      rw [show Cycle.afterMark published event rest (.ok _) = .publish (published + 1) rest from rfl,
        remaining_publish]
      simp only [Cycle.remaining]
      omega
  | @release _ published event rest hLoop =>
    rw [hLoop]
    refine .inr (.inr (Nat.add_lt_add_left ?_ 6))
    rw [show Cycle.afterRelease published rest = .releaseRemaining published rest from rfl,
      remaining_releaseRemaining]
    exact Nat.lt_succ_self _
  | _ hLoop => exact .inr (.inr (by simp +arith [hLoop, Loop.remaining]))

theorem Step.cancelled (h : Step name s label s') (hCancelled : s.cancelled = true) : s'.cancelled = true := by
  cases h with
  | cancel => rfl
  | _ => exact hCancelled

theorem Run.remaining_le (h : Run host pid nanos history s) : s.loop.remaining ≤ 308 := by
  refine LabelledRun.Run.invariant (I := fun _ s => s.loop.remaining ≤ 308) (by decide) ?_ h
  intro history s label s' _ hs hStep
  rcases hStep.remaining with ⟨-, hSame⟩ | ⟨-, hBound⟩ | hLess
  · rwa [hSame]
  · exact hBound
  · exact hLess.le.trans hs

/-- A step that the loop can take while the service is to end. -/
theorem exists_step (host : Except String String) (pid nanos : Int) (hCancelled : s.cancelled = true)
    (hLoop : s.loop ≠ .exited) : ∃ label t, label ≠ .cancelled ∧ Step (owner host pid nanos) s label t := by
  cases h : s.loop with
  | deciding => exact ⟨_, _, by simp, .stop h hCancelled⟩
  | configuring n => exact ⟨_, _, by simp, .configured h (newPublisher_ok host pid nanos)⟩
  | polling n => exact ⟨_, _, by simp, .leave h hCancelled⟩
  | claiming n => exact ⟨_, _, by simp, .unclaimed h⟩
  | cycling n cycle =>
    cases cycle with
    | publishing => exact ⟨_, _, by simp, .publish h true⟩
    | marking => exact ⟨_, _, by simp, .mark h (.ok ())⟩
    | releasing => exact ⟨_, _, by simp, .release h⟩
    | returned published failed =>
      cases failed with
      | true => exact ⟨_, _, by simp, .failed h⟩
      | false =>
        by_cases hNone : published = 0
        · subst hNone
          exact ⟨_, _, by simp, .idle h⟩
        · exact ⟨_, _, by simp, .again h hNone⟩
  | idling n => exact ⟨_, _, by simp, .waited h⟩
  | closing n => exact ⟨_, _, by simp, .close h⟩
  | pausing => exact ⟨_, _, by simp, .resume h⟩
  | exited => exact absurd h hLoop

/-- Once the service is to end, the loop takes at most 308 more steps, whatever it is told by the store and the broker,
and it does not get stuck before its end. -/
theorem publisher_ends (h : Run host pid nanos history s) (hCancelled : s.cancelled = true)
    (hLater : LabelledRun.Run (Step (owner host pid nanos)) s later s') :
    later.countP (· ≠ .cancelled) ≤ 308 ∧
      (s'.loop = .exited ∨ ∃ label t, label ≠ .cancelled ∧ Step (owner host pid nanos) s' label t) := by
  have hSpent : s'.cancelled = true ∧
      later.countP (· ≠ .cancelled) + s'.loop.remaining ≤ s.loop.remaining := by
    refine hLater.invariant (I := fun later s' => s'.cancelled = true ∧
      later.countP (· ≠ .cancelled) + s'.loop.remaining ≤ s.loop.remaining) ⟨hCancelled, by simp⟩ ?_
    rintro later t label t' _ ⟨hStill, hSum⟩ hStep
    refine ⟨hStep.cancelled hStill, ?_⟩
    rcases hStep.remaining with ⟨rfl, hSame⟩ | ⟨hOpen, -⟩ | hLess
    · simpa [hSame] using hSum
    · simp [hStill] at hOpen
    · rw [List.countP_cons]
      split <;> omega
  refine ⟨by have := h.remaining_le; omega, ?_⟩
  by_cases hExited : s'.loop = .exited
  · exact .inl hExited
  · exact .inr (exists_step host pid nanos hSpent.1 hExited)

/-- The broker is closed and the pause is over, and the loop is about to see that it has to end. -/
theorem publisher_ends_cycle :
    ∃ history later s s', Run (.ok "host") 1 1 history s ∧ s.cancelled = true ∧
      LabelledRun.Run (Step (owner (.ok "host") 1 1)) s later s' ∧ later.length = 2 ∧
      later.countP (· ≠ .cancelled) ≤ 308 ∧
      ∃ label t, label ≠ .cancelled ∧ Step (owner (.ok "host") 1 1) s' label t := by
  have hLater : LabelledRun.Run (Step (owner (.ok "host") 1 1)) ⟨true, 1, .closing 0, Sample.connected⟩
      [.quiet, .quiet] ⟨true, 1, .deciding, closeBroker 0 Sample.connected⟩ :=
    (LabelledRun.Run.refl.next (.close rfl)).next (.resume rfl)
  obtain ⟨hFew, hExited | hStep⟩ := publisher_ends sample_run rfl hLater
  · cases hExited
  · exact ⟨_, _, _, _, sample_run, rfl, hLater, rfl, hFew, hStep⟩

end ReliableNotifier.Runtime.Publisher
