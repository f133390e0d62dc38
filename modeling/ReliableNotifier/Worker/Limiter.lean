import Mathlib.Logic.Function.Basic
import ReliableNotifier.Schema

/-! # The limiter of a worker

`destinationLimiter` keeps a state for every destination it has been asked about. A
refused request tightens the limits all the same, and the reservation of a permit that
came to no claim is taken back when it is still the newest one.
-/

namespace ReliableNotifier

/-- The zero value of `time.Time`, the first of January of the year one. -/
def zeroTime : GoTime := -62135596800000000000

/-- `destinationLimitState`. -/
structure LimitState where
  active : Int
  maxConcurrent : Int
  minInterval : Duration
  nextAllowed : GoTime
  lastSequence : UInt64
  deriving DecidableEq

/-- `destinationPermit`. The state it points to is that of its destination. -/
structure Permit where
  destinationID : String
  sequence : UInt64
  previousNext : GoTime
  reservedNext : GoTime
  released : Bool
  deriving DecidableEq

structure Limiter where
  states : String → Option LimitState

def effectiveConcurrency (destination : DestinationVersion) : Int :=
  if destination.maxConcurrency ≤ 0 then 1 else destination.maxConcurrency

def effectiveRate (destination : DestinationVersion) : Rat :=
  if destination.ratePerSecond ≤ 0 then 1 else destination.ratePerSecond

namespace Limiter

def new : Limiter := ⟨fun _ => none⟩

def set (limiter : Limiter) (id : String) (state : LimitState) : Limiter :=
  ⟨Function.update limiter.states id (some state)⟩

def modify (limiter : Limiter) (id : String) (f : LimitState → LimitState) : Limiter :=
  ⟨Function.update limiter.states id ((limiter.states id).map f)⟩

-- `quotient rate` is the floating-point quotient of a second and the rate, as a duration
variable (quotient : Rat → Duration)

/-- The state of the destination, with the limits of this version taken into account. -/
def state (destination : DestinationVersion) (limiter : Limiter) : LimitState :=
  let maxConcurrent := effectiveConcurrency destination
  let interval := quotient (effectiveRate destination)
  match limiter.states destination.destinationID with
  | none => ⟨0, maxConcurrent, interval, zeroTime, 0⟩
  | some state =>
    { state with
      maxConcurrent := if maxConcurrent < state.maxConcurrent then maxConcurrent else state.maxConcurrent
      minInterval := if state.minInterval < interval then interval else state.minInterval }

def tryAcquire (now : GoTime) (destination : DestinationVersion) (limiter : Limiter) : Option Permit × Limiter :=
  let state := limiter.state quotient destination
  if state.maxConcurrent ≤ state.active ∨ now < state.nextAllowed then
    (none, limiter.set destination.destinationID state)
  else
    let permit : Permit :=
      { destinationID := destination.destinationID
        sequence := state.lastSequence + 1
        previousNext := state.nextAllowed
        reservedNext := now + state.minInterval
        released := false }
    (some permit, limiter.set destination.destinationID
      { state with
        active := state.active + 1
        lastSequence := permit.sequence
        nextAllowed := permit.reservedNext })

end Limiter

def LimitState.release (claimed : Bool) (permit : Permit) (state : LimitState) : LimitState :=
  { state with
    active := state.active - 1
    nextAllowed :=
      if claimed = false ∧ state.lastSequence = permit.sequence ∧ state.nextAllowed = permit.reservedNext then
        permit.previousNext
      else state.nextAllowed }

/-- The permit that is released again is left as it is. -/
def Permit.release (claimed : Bool) (limiter : Limiter) (permit : Permit) : Permit × Limiter :=
  if permit.released then (permit, limiter)
  else ({ permit with released := true }, limiter.modify permit.destinationID (LimitState.release claimed permit))

namespace Limiter

variable {quotient : Rat → Duration} {now : GoTime} {destination : DestinationVersion} {limiter : Limiter}
  {id : String} {permit : Permit} {claimed : Bool}

/-- How many permits of the destination count as taken. -/
def active (limiter : Limiter) (id : String) : Int := ((limiter.states id).map LimitState.active).getD 0

/-- The destination is held to `n` permits at a time. -/
def HeldTo (limiter : Limiter) (id : String) (n : Int) : Prop :=
  ∃ state, limiter.states id = some state ∧ state.maxConcurrent ≤ n

@[simp]
theorem set_self (state : LimitState) : (limiter.set id state).states id = some state := Function.update_self ..

@[simp]
theorem set_of_ne {other : String} (state : LimitState) (h : other ≠ id) :
    (limiter.set id state).states other = limiter.states other := Function.update_of_ne h ..

@[simp]
theorem modify_self (f : LimitState → LimitState) :
    (limiter.modify id f).states id = (limiter.states id).map f := Function.update_self ..

@[simp]
theorem modify_of_ne {other : String} (f : LimitState → LimitState) (h : other ≠ id) :
    (limiter.modify id f).states other = limiter.states other := Function.update_of_ne h ..

theorem active_congr {limiter' : Limiter} (h : limiter'.states id = limiter.states id) :
    limiter'.active id = limiter.active id := by
  rw [active, active, h]

theorem isSome_of_active (h : limiter.active id ≠ 0) : (limiter.states id).isSome := by
  cases hState : limiter.states id with
  | none => simp [active, hState] at h
  | some state => rfl

theorem state_active : (limiter.state quotient destination).active = limiter.active destination.destinationID := by
  unfold state active
  split <;> simp_all

theorem state_maxConcurrent_le :
    (limiter.state quotient destination).maxConcurrent ≤ effectiveConcurrency destination := by
  unfold state
  split
  · exact le_rfl
  · dsimp only
    split <;> omega

theorem HeldTo.state {n : Int} (h : limiter.HeldTo destination.destinationID n) :
    (limiter.state quotient destination).maxConcurrent ≤ n := by
  obtain ⟨old, hOld, hBound⟩ := h
  unfold Limiter.state
  rw [hOld]
  dsimp only
  split <;> omega

/-- What a request does to the state of its destination, and that it touches no other. -/
theorem tryAcquire_states (h : id ≠ destination.destinationID) :
    (limiter.tryAcquire quotient now destination).2.states id = limiter.states id := by
  unfold tryAcquire
  dsimp only
  split <;> exact set_of_ne _ h

variable (quotient now destination limiter) in
theorem tryAcquire_self :
    ∃ state, (limiter.tryAcquire quotient now destination).2.states destination.destinationID = some state ∧
      state.maxConcurrent = (limiter.state quotient destination).maxConcurrent := by
  unfold tryAcquire
  dsimp only
  split <;> exact ⟨_, set_self _, rfl⟩

theorem tryAcquire_refused (h : (limiter.tryAcquire quotient now destination).1 = none) (id : String) :
    (limiter.tryAcquire quotient now destination).2.active id = limiter.active id := by
  by_cases hID : id = destination.destinationID
  · subst hID
    unfold tryAcquire at h ⊢
    dsimp only at h ⊢
    split
    · simp only [active, set_self, Option.map_some, Option.getD_some, state_active]
    · rw [if_neg ‹_›] at h
      cases h
  · exact active_congr (tryAcquire_states hID)

theorem tryAcquire_granted (h : (limiter.tryAcquire quotient now destination).1 = some permit) :
    permit.destinationID = destination.destinationID ∧ permit.released = false ∧
      (limiter.tryAcquire quotient now destination).2.active destination.destinationID =
        limiter.active destination.destinationID + 1 ∧
      limiter.active destination.destinationID + 1 ≤ (limiter.state quotient destination).maxConcurrent := by
  unfold tryAcquire at h ⊢
  dsimp only at h ⊢
  split at h
  · cases h
  · rename_i hFree
    rw [if_neg hFree]
    cases h
    refine ⟨rfl, rfl, ?_, ?_⟩
    · simp only [active, set_self, Option.map_some, Option.getD_some, state_active]
    · have hActive : (limiter.state quotient destination).active = limiter.active destination.destinationID :=
        state_active
      omega

theorem HeldTo.tryAcquire {n : Int} (h : limiter.HeldTo id n) :
    (limiter.tryAcquire quotient now destination).2.HeldTo id n := by
  by_cases hID : id = destination.destinationID
  · subst hID
    obtain ⟨state, hState, hMax⟩ := tryAcquire_self quotient now destination limiter
    exact ⟨state, hState, hMax ▸ h.state⟩
  · obtain ⟨state, hState, hBound⟩ := h
    exact ⟨state, (tryAcquire_states hID).trans hState, hBound⟩

theorem heldTo_tryAcquire :
    (limiter.tryAcquire quotient now destination).2.HeldTo destination.destinationID
      (effectiveConcurrency destination) := by
  obtain ⟨state, hState, hMax⟩ := tryAcquire_self quotient now destination limiter
  exact ⟨state, hState, hMax ▸ state_maxConcurrent_le⟩

theorem release_states (h : id ≠ permit.destinationID) :
    (permit.release claimed limiter).2.states id = limiter.states id := by
  unfold Permit.release
  split
  · rfl
  · exact modify_of_ne _ h

theorem release_active (hUnreleased : permit.released = false)
    (hState : (limiter.states permit.destinationID).isSome) :
    (permit.release claimed limiter).2.active permit.destinationID = limiter.active permit.destinationID - 1 := by
  obtain ⟨state, hState⟩ := Option.isSome_iff_exists.mp hState
  simp [Permit.release, hUnreleased, active, hState, LimitState.release]

theorem HeldTo.release {n : Int} (h : limiter.HeldTo id n) : (permit.release claimed limiter).2.HeldTo id n := by
  obtain ⟨state, hState, hBound⟩ := h
  unfold Permit.release
  split
  · exact ⟨state, hState, hBound⟩
  · by_cases hID : id = permit.destinationID
    · subst hID
      exact ⟨state.release claimed permit, by simp [hState], hBound⟩
    · exact ⟨state, (modify_of_ne _ hID).trans hState, hBound⟩

end Limiter

end ReliableNotifier
