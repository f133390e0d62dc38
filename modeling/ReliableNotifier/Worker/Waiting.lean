import ReliableNotifier.Library.GoInt
import ReliableNotifier.Library.Interleaving
import ReliableNotifier.Worker.Bookings

/-! # Waiting for a permit

`acquire` asks, and when it is refused it looks at the state under a second lock, sleeps
until a timer fires or a channel is closed, and asks again. Each release closes the channel
of its destination and puts a new one in its place. Between the refusal, the look and the
sleep anything may happen to the limiter.
-/

namespace ReliableNotifier.Waiting

open Interleaving LabelledRun

/-- The limiter with its channels. They are numbered for each destination, and those below `closed` are closed. -/
structure Room where
  desk : Bookings.Desk
  closed : String → Nat

/-- Where a call of `acquire` stands. -/
inductive Call where
  | idle
  | trying (destination : DestinationVersion)
  | refused (destination : DestinationVersion)
  | looked (destination : DestinationVersion) (channel : Nat) (lookedAt : GoTime) (wait : Duration)
  | waiting (destination : DestinationVersion) (channel : Nat) (lookedAt : GoTime) (wait : Duration)
      (deadline : GoTime)
  | granted
  | cancelled

/-- Ten milliseconds. -/
def patience : Duration := 10000000

/-- How long a refused call sleeps at most. -/
def pause (now : GoTime) (state : LimitState) : Duration :=
  let wait := GoInt.saturate (state.nextAllowed - now)
  if wait ≤ 0 ∨ state.maxConcurrent ≤ state.active then patience else wait

/-- A permit that is released for the first time closes the channel of its destination. -/
def Room.close (room : Room) (permit : Permit) : String → Nat :=
  if permit.released then room.closed
  else Function.update room.closed permit.destinationID (room.closed permit.destinationID + 1)

variable (quotient : Rat → Duration)

/-- The calls that take the lock once. -/
inductive Serves : Room → Bookings.Label → Room → Prop
  | tryAcquire {room : Room} {now : GoTime} {destination : DestinationVersion} {granted : Bool} {desk : Bookings.Desk}
      (hStep : Bookings.Step quotient room.desk (.tryAcquire now destination granted) desk) :
      Serves room (.tryAcquire now destination granted) { room with desk := desk }
  | release {room : Room} {index : Nat} {claimed : Bool} {permit : Permit} {desk : Bookings.Desk}
      (hPermit : room.desk.permits[index]? = some permit)
      (hStep : Bookings.Step quotient room.desk (.release index claimed) desk) :
      Serves room (.release index claimed) ⟨desk, room.close permit⟩

def Room.tick (room : Room) (t : GoTime) : Room := { room with desk := { room.desk with clock := t } }

inductive Env : Room → Option Bookings.Label → Room → Prop
  | tick {room : Room} {t : GoTime} (hClock : room.desk.clock ≤ t) : Env room none (room.tick t)
  | serve {room room' : Room} {label : Bookings.Label} (hServes : Serves quotient room label room') :
      Env room (some label) room'

inductive Act (i : Nat) : Room → Call → Option Bookings.Label → Room → Call → Prop
  | call {room : Room} (destination : DestinationVersion) : Act i room .idle none room (.trying destination)
  | grant {room room' : Room} {now : GoTime} {destination : DestinationVersion}
      (hServes : Serves quotient room (.tryAcquire now destination true) room') :
      Act i room (.trying destination) (some (.tryAcquire now destination true)) room' .granted
  | refuse {room room' : Room} {now : GoTime} {destination : DestinationVersion}
      (hServes : Serves quotient room (.tryAcquire now destination false) room') :
      Act i room (.trying destination) (some (.tryAcquire now destination false)) room' (.refused destination)
  | look {room : Room} {now : GoTime} {destination : DestinationVersion} (hClock : room.desk.clock ≤ now) :
      Act i room (.refused destination) none
        ⟨⟨room.desk.limiter.set destination.destinationID (room.desk.limiter.state quotient destination),
          room.desk.permits, now⟩, room.closed⟩
        (.looked destination (room.closed destination.destinationID) now
          (pause now (room.desk.limiter.state quotient destination)))
  | arm {room : Room} {destination : DestinationVersion} {channel : Nat} {lookedAt t : GoTime} {wait : Duration}
      (hClock : room.desk.clock ≤ t) :
      Act i room (.looked destination channel lookedAt wait) none (room.tick t)
        (.waiting destination channel lookedAt wait (t + wait))
  | notified {room : Room} {destination : DestinationVersion} {channel : Nat} {lookedAt deadline : GoTime}
      {wait : Duration} (hClosed : channel < room.closed destination.destinationID) :
      Act i room (.waiting destination channel lookedAt wait deadline) none room (.trying destination)
  | fired {room : Room} {destination : DestinationVersion} {channel : Nat} {lookedAt deadline t : GoTime}
      {wait : Duration} (hClock : room.desk.clock ≤ t) (hDeadline : deadline ≤ t) :
      Act i room (.waiting destination channel lookedAt wait deadline) none (room.tick t) (.trying destination)
  | cancel {room : Room} {destination : DestinationVersion} {channel : Nat} {lookedAt deadline : GoTime}
      {wait : Duration} :
      Act i room (.waiting destination channel lookedAt wait deadline) none room .cancelled

abbrev Step : World Room Call → Option Bookings.Label → World Room Call → Prop :=
  Interleaving.Step (Env quotient) (Act quotient)

def start (first : GoTime) : World Room Call := ⟨⟨⟨.new, [], first⟩, fun _ => 0⟩, fun _ => .idle⟩

def Reachable (w : World Room Call) : Prop := ∃ first, LabelledRun.Reachable (Step quotient) (start first) w

variable {quotient} {room room' : Room} {id : String} {channel : Nat} {lookedAt now : GoTime} {wait : Duration}
  {destination : DestinationVersion} {label : Bookings.Label}

/-! ## What becomes of a destination while its channel is open -/

/-- The next admission does not come earlier unless a channel is closed. -/
structure Follows (id : String) (room room' : Room) : Prop where
  closed : room.closed id ≤ room'.closed id
  clock : room.desk.clock ≤ room'.desk.clock
  allowed : room'.closed id = room.closed id → ∀ state, room.desk.limiter.states id = some state →
    ∃ state', room'.desk.limiter.states id = some state' ∧
      (state.nextAllowed ≤ state'.nextAllowed ∨ state.nextAllowed ≤ room'.desk.clock)

theorem Follows.of_limiter (hClosed : room'.closed = room.closed) (hClock : room.desk.clock ≤ room'.desk.clock)
    (hSame : room'.desk.limiter.states id = room.desk.limiter.states id) : Follows id room room' where
  closed := (congrFun hClosed id).ge
  clock := hClock
  allowed _ state hState := ⟨state, hSame.trans hState, .inl le_rfl⟩

theorem state_nextAllowed {limiter : Limiter} {state : LimitState}
    (h : limiter.states destination.destinationID = some state) :
    (limiter.state quotient destination).nextAllowed = state.nextAllowed := by
  rw [Bookings.state_of_some h]

/-- The limits of a version leave the next admission where it is. -/
theorem Follows.limits (hClosed : room'.closed = room.closed) (hClock : room.desk.clock ≤ room'.desk.clock)
    (hSet : room'.desk.limiter = room.desk.limiter.set destination.destinationID
      (room.desk.limiter.state quotient destination)) : Follows id room room' := by
  by_cases hID : id = destination.destinationID
  · subst hID
    refine ⟨(congrFun hClosed _).ge, hClock, fun _ state hState => ⟨_, hSet ▸ Limiter.set_self _, .inl ?_⟩⟩
    exact (state_nextAllowed hState).ge
  · exact .of_limiter hClosed hClock (hSet ▸ Limiter.set_of_ne _ hID)

theorem Serves.follows (h : Serves quotient room label room') (id : String) : Follows id room room' := by
  cases h with
  | @tryAcquire now destination _ _ hStep =>
    cases hStep with
    | tryAcquire hClock hAcquire =>
      rcases Bookings.tryAcquire_cases hAcquire with ⟨_, _, hSet⟩ | ⟨_, hDue, permit, _, _, _, _, _, hSet⟩
      · exact .limits rfl hClock hSet
      · by_cases hID : id = destination.destinationID
        · subst hID
          refine ⟨le_rfl, hClock, fun _ state hState => ⟨_, hSet ▸ Limiter.set_self _, .inr ?_⟩⟩
          exact (state_nextAllowed hState).ge.trans hDue
        · exact .of_limiter rfl hClock (hSet ▸ Limiter.set_of_ne _ hID)
  | @release index claimed permit desk hPermit hStep =>
    cases hStep with
    | @release _ other _ _ limiter hOther hRelease =>
      obtain rfl : permit = other := Option.some.inj (hPermit.symm.trans hOther)
      obtain rfl : _ = limiter := congrArg Prod.snd hRelease
      by_cases hID : id = permit.destinationID
      · subst hID
        cases hReleased : permit.released with
        | true =>
          refine .of_limiter (if_pos hReleased) le_rfl ?_
          rw [Permit.release, if_pos hReleased]
        | false =>
          have hMore : room.close permit permit.destinationID = room.closed permit.destinationID + 1 := by
            simp [Room.close, hReleased]
          exact ⟨hMore.ge.trans' (Nat.le_succ _), le_rfl, fun hSame => absurd (hMore.symm.trans hSame) (by simp)⟩
      · have hSame : room.close permit id = room.closed id := by
          rw [Room.close]
          split
          · rfl
          · exact Function.update_of_ne hID _ _
        exact ⟨hSame.ge, le_rfl, fun _ state hState =>
          ⟨state, (Limiter.release_states hID).trans hState, .inl le_rfl⟩⟩

/-! ## Sleepers -/

/-- What a call that looked may rely on: as long as the channel it took is open, it sleeps for ten milliseconds
or no longer than the destination stays closed. -/
structure Watching (room : Room) (id : String) (channel : Nat) (lookedAt : GoTime) (wait : Duration) : Prop where
  pos : 0 < wait
  channel_le : channel ≤ room.closed id
  held : channel = room.closed id → wait = patience ∨ lookedAt + wait ≤ room.desk.clock ∨
    ∃ state, room.desk.limiter.states id = some state ∧ lookedAt + wait ≤ state.nextAllowed

theorem Watching.follows (h : Watching room id channel lookedAt wait) (hFollows : Follows id room room') :
    Watching room' id channel lookedAt wait where
  pos := h.pos
  channel_le := h.channel_le.trans hFollows.closed
  held hOpen := by
    have hBefore : channel = room.closed id := le_antisymm h.channel_le (hOpen ▸ hFollows.closed)
    rcases h.held hBefore with hShort | hPast | ⟨state, hState, hNext⟩
    · exact .inl hShort
    · exact .inr (.inl (hPast.trans hFollows.clock))
    · obtain ⟨state', hState', hLater | hDue⟩ := hFollows.allowed (hOpen.symm.trans hBefore) state hState
      · exact .inr (.inr ⟨state', hState', hNext.trans hLater⟩)
      · exact .inr (.inl (hNext.trans hDue))

theorem pause_cases (now : GoTime) (state : LimitState) :
    pause now state = patience ∨ 0 < pause now state ∧ now + pause now state ≤ state.nextAllowed := by
  unfold pause
  dsimp only
  split
  · exact .inl rfl
  · rename_i hWait
    have hPos : 0 < GoInt.saturate (state.nextAllowed - now) := not_le.mp (not_or.mp hWait).1
    exact .inr ⟨hPos, Int.add_le_of_le_sub_left (GoInt.saturate_le hPos)⟩

def Call.Watches (room : Room) : Call → Prop
  | looked destination channel lookedAt wait => Watching room destination.destinationID channel lookedAt wait
  | waiting destination channel lookedAt wait _ => Watching room destination.destinationID channel lookedAt wait
  | _ => True

theorem Call.Watches.follows {call : Call} (h : call.Watches room) (hFollows : ∀ id, Follows id room room') :
    call.Watches room' := by
  cases call with
  | looked | waiting => exact Watching.follows h (hFollows _)
  | _ => trivial

theorem Room.tick_follows {t : GoTime} (hClock : room.desk.clock ≤ t) (id : String) : Follows id room (room.tick t) :=
  .of_limiter rfl hClock rfl

theorem Env.follows {label : Option Bookings.Label} (h : Env quotient room label room') (id : String) :
    Follows id room room' := by
  cases h with
  | tick hClock => exact Room.tick_follows hClock id
  | serve hServes => exact hServes.follows id

theorem Act.follows {i : Nat} {call call' : Call} {label : Option Bookings.Label}
    (h : Act quotient i room call label room' call') (id : String) : Follows id room room' := by
  cases h with
  | grant hServes | refuse hServes => exact hServes.follows id
  | look hClock => exact .limits rfl hClock rfl
  | arm hClock | fired hClock _ => exact Room.tick_follows hClock id
  | call | notified | cancel => exact .of_limiter rfl le_rfl rfl

/-- A call that looks takes the open channel along with what the state says. -/
theorem Act.watches {i : Nat} {call call' : Call} {label : Option Bookings.Label}
    (h : Act quotient i room call label room' call') (hWatches : call.Watches room) : call'.Watches room' := by
  cases h with
  | @look now destination hClock =>
    have hCases := pause_cases now (room.desk.limiter.state quotient destination)
    refine ⟨?_, le_rfl, fun _ => ?_⟩
    · rcases hCases with hShort | ⟨hPos, _⟩
      · exact hShort ▸ (by decide : 0 < patience)
      · exact hPos
    · exact hCases.imp_right fun hNext => .inr ⟨_, Limiter.set_self _, hNext.2⟩
  | arm hClock => exact Watching.follows hWatches (Room.tick_follows hClock _)
  | call | grant | refuse | notified | fired | cancel => trivial

theorem Reachable.watches {w : World Room Call} (h : Reachable quotient w) (i : Nat) :
    (w.procs i).Watches w.shared := by
  obtain ⟨first, history, hRun⟩ := h
  refine (Interleaving.invariant (G := fun _ _ => True) (L := fun _ _ room call => call.Watches room) trivial ?_ ?_ ?_
    hRun).2 i
  · exact fun _ => trivial
  · exact fun _ _ _ _ _ _ hEnv => ⟨trivial, fun _ _ hOld => hOld.follows hEnv.follows⟩
  · exact fun _ _ _ _ _ _ _ _ hOwn hAct => ⟨trivial, hAct.watches hOwn, fun _ _ _ hOld => hOld.follows hAct.follows⟩

/-- A sleeping call does not spin, and a release of its destination wakes it. If the destination would grant a
permit, the sleeper's channel is closed, its time is up, or it sleeps for ten milliseconds only. -/
theorem no_lost_wakeup {w : World Room Call} (h : Reachable quotient w) {i : Nat} {deadline : GoTime}
    (hWaiting : w.procs i = .waiting destination channel lookedAt wait deadline) :
    0 < wait ∧
    (∀ (index : Nat) (claimed : Bool) (permit : Permit) (room : Room),
      w.shared.desk.permits[index]? = some permit → permit.released = false →
      permit.destinationID = destination.destinationID →
      Serves quotient w.shared (.release index claimed) room → channel < room.closed destination.destinationID) ∧
    ∀ (now : GoTime) (version : DestinationVersion), w.shared.desk.clock ≤ now →
      version.destinationID = destination.destinationID →
      (w.shared.desk.limiter.tryAcquire quotient now version).1.isSome = true →
      channel < w.shared.closed destination.destinationID ∨ lookedAt + wait ≤ now ∨ wait = patience := by
  have hWatching : Watching w.shared destination.destinationID channel lookedAt wait := by
    have hOwn := h.watches i
    rw [hWaiting] at hOwn
    exact hOwn
  refine ⟨hWatching.pos, ?_, ?_⟩
  · intro index claimed permit room hPermit hUnreleased hID hServes
    cases hServes with
    | @release _ _ other desk hOther hStep =>
      obtain rfl : permit = other := Option.some.inj (hPermit.symm.trans hOther)
      have hMore : w.shared.close permit destination.destinationID =
          w.shared.closed destination.destinationID + 1 := by
        simp [Room.close, hUnreleased, hID]
      exact Nat.lt_succ_of_le hWatching.channel_le |>.trans_eq hMore.symm
  · intro now version hNow hSame hFree
    rcases hWatching.channel_le.lt_or_eq with hClosed | hOpen
    · exact .inl hClosed
    · rcases hWatching.held hOpen with hShort | hPast | ⟨state, hState, hNext⟩
      · exact .inr (.inr hShort)
      · exact .inr (.inl (hPast.trans hNow))
      · have hDue := (Bookings.tryAcquire_isSome_iff.mp hFree).2
        rw [state_nextAllowed (hSame ▸ hState)] at hDue
        exact .inr (.inl (hNext.trans hDue))

/-- A call is refused for the tenth of a second after a permit that then comes to nothing. -/
theorem no_lost_wakeup_rollback :
    ∃ (w : World Room Call) (room : Room),
      Reachable (fun _ => 100000000) w ∧
      w.procs 0 = .waiting Sample.destination 0 8000 100000000 100008000 ∧
      Serves (fun _ => 100000000) w.shared (.release 0 false) room ∧ 0 < room.closed "orders" := by
  have h : LabelledRun.Run (Step fun _ => 100000000) (start 8000) [] (start 8000) := .refl
  have h := h.next (.env (.serve (.tryAcquire
    (@Bookings.Step.tryAcquire _ _ 8000 Sample.destination _ _ le_rfl rfl))))
  have h := h.next (.act 0 (.call Sample.destination))
  have h := h.next (.act 0 (.refuse (.tryAcquire
    (@Bookings.Step.tryAcquire _ _ 8000 Sample.destination _ _ le_rfl rfl))))
  have h := h.next (.act 0 (@Act.look _ _ _ 8000 Sample.destination le_rfl))
  have h := h.next (.act 0 (@Act.arm _ _ _ Sample.destination _ _ 8000 _ le_rfl))
  obtain ⟨w, hReachable, hWaiting, hPermit⟩ : ∃ w, Reachable (fun _ => 100000000) w ∧
      w.procs 0 = .waiting Sample.destination 0 8000 100000000 100008000 ∧
      w.shared.desk.permits[0]? = some ⟨"orders", 1, zeroTime, 100008000, false⟩ :=
    ⟨_, ⟨8000, _, h⟩, rfl, rfl⟩
  have hServes : Serves (fun _ => 100000000) w.shared (.release 0 false) _ :=
    .release hPermit (.release hPermit rfl)
  exact ⟨w, _, hReachable, hWaiting, hServes,
    (no_lost_wakeup hReachable hWaiting).2.1 0 false _ _ hPermit rfl rfl hServes⟩

end ReliableNotifier.Waiting
