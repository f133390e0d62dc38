import ReliableNotifier.Library.Interleaving
import ReliableNotifier.Store.Operation
import ReliableNotifier.Worker.Limiter
import ReliableNotifier.Worker.Process

/-! # Calls of `Process` that share a limiter

Any number of calls run in one worker, each request to the limiter being atomic. Store
and sender may answer anything at any point. A call carries its local variable `permit`
and the release it still has to make before it returns, by an explicit call or by `defer`.
-/

namespace ReliableNotifier

open Interleaving

/-- The part of a message's handling that is inside `Process`. -/
def Stage.inProcess : Stage → Bool
  | checking _ | observing _ _ | acquiring _ _ | claiming _ | sending _ _ _ | completing _ _ _ => true
  | deferring _ | acking _ | nacking _ _ | finished => false

/-- The part of `Process` that comes after a permit was obtained. -/
def Stage.permitted : Stage → Bool
  | claiming _ | sending _ _ _ | completing _ _ _ => true
  | _ => false

namespace Capacity

structure Call where
  stage : Stage
  permit : Option Permit
  release : Option Bool

def Call.Returned (call : Call) : Prop := call.stage.inProcess = false ∧ call.release = none

inductive Label where
  | call (i : Nat) (signal : Signal)
  | check (i : Nat)
  | observe (i : Nat)
  | acquire (i : Nat) (destination : DestinationVersion) (permit : Option Permit)
  | claim (i : Nat)
  | send (i : Nat)
  | complete (i : Nat)
  | release (i : Nat) (permit : Permit) (claimed : Bool)

inductive Act (quotient : Rat → Duration) (i : Nat) :
    Limiter → Option Call → Label → Limiter → Option Call → Prop
  | call {limiter : Limiter} (signal : Signal) :
      Act quotient i limiter none (.call i signal) limiter (some ⟨.checking signal, none, none⟩)
  | check {limiter : Limiter} {signal : Signal} {permit : Option Permit} {release : Option Bool}
      (reply : Except StoreError DestinationVersion) :
      Act quotient i limiter (some ⟨.checking signal, permit, release⟩) (.check i) limiter
        (some ⟨.afterEligible signal reply, permit, release⟩)
  | observe {limiter : Limiter} {signal : Signal} {destination : DestinationVersion} {permit : Option Permit}
      {release : Option Bool} (reply : Except StoreError Unit) :
      Act quotient i limiter (some ⟨.observing signal destination, permit, release⟩) (.observe i) limiter
        (some ⟨.afterObserve signal destination reply, permit, release⟩)
  | acquire {limiter limiter' : Limiter} {signal : Signal} {destination : DestinationVersion}
      {permit permit' : Option Permit} {release : Option Bool} {now : GoTime}
      (hAcquire : limiter.tryAcquire quotient now destination = (permit', limiter')) :
      Act quotient i limiter (some ⟨.acquiring signal destination, permit, release⟩)
        (.acquire i destination permit') limiter' (some ⟨.afterAcquire signal permit'.isSome, permit', release⟩)
  | claimFailed {limiter : Limiter} {signal : Signal} {permit : Option Permit} {release : Option Bool}
      (err : StoreError) :
      Act quotient i limiter (some ⟨.claiming signal, permit, release⟩) (.claim i) limiter
        (some ⟨.afterClaim signal (.error err), permit, some false⟩)
  | claim {limiter : Limiter} {signal : Signal} {permit : Option Permit} {release : Option Bool}
      (grant : Delivery × DestinationVersion) :
      Act quotient i limiter (some ⟨.claiming signal, permit, release⟩) (.claim i) limiter
        (some ⟨.afterClaim signal (.ok grant), permit, release⟩)
  | send {limiter : Limiter} {signal : Signal} {task : Delivery} {destination : DestinationVersion}
      {permit : Option Permit} {release : Option Bool} (parseTime : String → Option GoTime)
      (jitter : Duration → Duration) (startedAt finishedAt : GoTime) (result : Result) (err : Option SendError) :
      Act quotient i limiter (some ⟨.sending signal task destination, permit, release⟩) (.send i) limiter
        (some ⟨.completing signal (settle parseTime jitter task destination startedAt finishedAt result err).1
          (settle parseTime jitter task destination startedAt finishedAt result err).2, permit, release⟩)
  | complete {limiter : Limiter} {signal : Signal} {completion : Completion} {attempt : AttemptResult}
      {permit : Option Permit} {release : Option Bool} (reply : Except StoreError Unit) :
      Act quotient i limiter (some ⟨.completing signal completion attempt, permit, release⟩) (.complete i) limiter
        (some ⟨.afterComplete signal reply, permit, some true⟩)
  | release {limiter limiter' : Limiter} {stage : Stage} {permit permit' : Permit} {claimed : Bool}
      (hRelease : permit.release claimed limiter = (permit', limiter')) :
      Act quotient i limiter (some ⟨stage, some permit, some claimed⟩) (.release i permit claimed) limiter'
        (some ⟨stage, some permit', none⟩)

abbrev Step (quotient : Rat → Duration) : World Limiter (Option Call) → Label → World Limiter (Option Call) → Prop :=
  Interleaving.Step (fun _ _ _ => False) (Act quotient)

def Run (quotient : Rat → Duration) (history : List Label) (w : World Limiter (Option Call)) : Prop :=
  LabelledRun.Run (Step quotient) ⟨.new, fun _ => none⟩ history w

namespace Label

def actor : Label → Nat
  | call i _ | check i | observe i | acquire i _ _ | claim i | send i | complete i | release i _ _ => i

/-- The destination whose state the step may change. -/
def destinationID : Label → Option String
  | acquire _ destination _ => some destination.destinationID
  | release _ permit _ => some permit.destinationID
  | _ => none

def grantTo (i : Nat) : Label → Option Permit
  | acquire j _ permit => if j = i then permit else none
  | _ => none

def releaseBy (i : Nat) : Label → Option Permit
  | release j permit _ => if j = i then some permit else none
  | _ => none

def versionOf (id : String) : Label → Option DestinationVersion
  | acquire _ destination _ => if destination.destinationID = id then some destination else none
  | _ => none

end Label

/-- The permits that call `i` obtained, newest first. -/
def granted (i : Nat) (history : List Label) : List Permit := history.filterMap (Label.grantTo i)

/-- The permits that call `i` released, newest first. -/
def released (i : Nat) (history : List Label) : List Permit := history.filterMap (Label.releaseBy i)

/-- The versions of the destination that the limiter was asked with. -/
def observed (id : String) (history : List Label) : List DestinationVersion := history.filterMap (Label.versionOf id)

/-- The call has a permit of the destination that it has not released. -/
def Holds (id : String) (x : Option Call) : Prop :=
  ∃ permit, x.bind Call.permit = some permit ∧ permit.destinationID = id ∧ permit.released = false

variable {quotient : Rat → Duration} {history : List Label} {w w' : World Limiter (Option Call)} {i : Nat}
  {limiter limiter' : Limiter} {x x' : Option Call} {label : Label} {permits returned : List Permit}

/-- The permits a call obtained and released, by what its local variables say. -/
inductive Custody : List Permit → List Permit → Option Call → Prop
  | uncalled : Custody [] [] none
  | asking {stage : Stage} (hStage : stage.permitted = false) : Custody [] [] (some ⟨stage, none, none⟩)
  | holding {stage : Stage} {permit : Permit} (hStage : stage.permitted = true) (hPermit : permit.released = false) :
      Custody [permit] [] (some ⟨stage, some permit, none⟩)
  | owing {stage : Stage} {permit : Permit} {claimed : Bool} (hStage : stage.inProcess = false)
      (hPermit : permit.released = false) : Custody [permit] [] (some ⟨stage, some permit, some claimed⟩)
  | settled {stage : Stage} {permit : Permit} (hStage : stage.inProcess = false) :
      Custody [permit] [permit] (some ⟨stage, some { permit with released := true }, none⟩)

theorem permitted_of_inProcess {stage : Stage} (h : stage.inProcess = false) : stage.permitted = false := by
  cases stage <;> first | rfl | cases h

theorem inProcess_afterProcess (signal : Signal) (ack : Bool) (err : Option StoreError) :
    (Stage.afterProcess signal ack err).inProcess = false := by
  unfold Stage.afterProcess
  split
  · rfl
  · split <;> rfl

theorem permitted_afterEligible (signal : Signal) (reply : Except StoreError DestinationVersion) :
    (Stage.afterEligible signal reply).permitted = false := by
  unfold Stage.afterEligible
  split
  · exact permitted_of_inProcess (inProcess_afterProcess ..)
  · exact permitted_of_inProcess (inProcess_afterProcess ..)
  · rfl

theorem permitted_afterObserve (signal : Signal) (destination : DestinationVersion) (reply : Except StoreError Unit) :
    (Stage.afterObserve signal destination reply).permitted = false := by
  unfold Stage.afterObserve
  split
  · exact permitted_of_inProcess (inProcess_afterProcess ..)
  · rfl

theorem permitted_afterAcquire (signal : Signal) (granted : Bool) :
    (Stage.afterAcquire signal granted).permitted = granted := by
  cases granted with
  | true => rfl
  | false => exact permitted_of_inProcess (inProcess_afterProcess signal false none)

theorem inProcess_afterClaim (signal : Signal) (err : StoreError) :
    (Stage.afterClaim signal (.error err)).inProcess = false := by
  unfold Stage.afterClaim
  split
  · exact inProcess_afterProcess ..
  · exact inProcess_afterProcess ..
  · contradiction

theorem inProcess_afterComplete (signal : Signal) (reply : Except StoreError Unit) :
    (Stage.afterComplete signal reply).inProcess = false := by
  unfold Stage.afterComplete
  split <;> exact inProcess_afterProcess ..

theorem Act.actor (h : Act quotient i limiter x label limiter' x') : label.actor = i := by
  cases h <;> rfl

/-- A step of a call keeps the account of its permits. -/
theorem Act.custody (h : Act quotient i limiter x label limiter' x') (hCustody : Custody permits returned x) :
    Custody ((label.grantTo i).toList ++ permits) ((label.releaseBy i).toList ++ returned) x' := by
  cases h with
  | call =>
    cases hCustody
    exact .asking rfl
  | check =>
    cases hCustody with
    | asking => exact .asking (permitted_afterEligible ..)
    | holding hStage | owing hStage | settled hStage => cases hStage
  | observe =>
    cases hCustody with
    | asking => exact .asking (permitted_afterObserve ..)
    | holding hStage | owing hStage | settled hStage => cases hStage
  | @acquire _ signal destination _ permit' _ now hAcquire =>
    cases hCustody with
    | asking =>
      cases permit' with
      | none =>
        simpa [Label.grantTo, Label.releaseBy] using Custody.asking (permitted_afterAcquire signal false)
      | some permit =>
        have hGranted := Limiter.tryAcquire_granted (congrArg Prod.fst hAcquire)
        simpa [Label.grantTo, Label.releaseBy] using
          Custody.holding (permitted_afterAcquire signal true) hGranted.2.1
    | holding hStage | owing hStage | settled hStage => cases hStage
  | claimFailed =>
    cases hCustody with
    | holding _ hPermit => exact .owing (inProcess_afterClaim ..) hPermit
    | asking hStage | owing hStage | settled hStage => cases hStage
  | claim =>
    cases hCustody with
    | holding _ hPermit => exact .holding rfl hPermit
    | asking hStage | owing hStage | settled hStage => cases hStage
  | send =>
    cases hCustody with
    | holding _ hPermit => exact .holding rfl hPermit
    | asking hStage | owing hStage | settled hStage => cases hStage
  | complete =>
    cases hCustody with
    | holding _ hPermit => exact .owing (inProcess_afterComplete ..) hPermit
    | asking hStage | owing hStage | settled hStage => cases hStage
  | release hRelease =>
    cases hCustody with
    | owing hStage hPermit =>
      rw [Permit.release, hPermit] at hRelease
      cases hRelease
      simpa [Label.grantTo, Label.releaseBy] using Custody.settled hStage

theorem grantTo_of_ne {j : Nat} (h : label.actor ≠ j) : label.grantTo j = none := by
  cases label <;> first | rfl | exact if_neg h

theorem releaseBy_of_ne {j : Nat} (h : label.actor ≠ j) : label.releaseBy j = none := by
  cases label <;> first | rfl | exact if_neg h

theorem Run.custody (h : Run quotient history w) (i : Nat) :
    Custody (granted i history) (released i history) (w.procs i) := by
  refine (Interleaving.invariant (G := fun _ _ => True)
    (L := fun i history _ x => Custody (granted i history) (released i history) x) trivial ?_
    (fun _ _ _ _ _ _ h => h.elim) (fun i history w label limiter x _ _ hOwn hAct => ⟨trivial, ?_, ?_⟩) h).2 i
  · exact fun _ => .uncalled
  · rw [granted, released, LabelledRun.filterMap_cons, LabelledRun.filterMap_cons]
    exact hAct.custody hOwn
  · intro j y hji hOther
    have hActor : label.actor ≠ j := by
      rw [hAct.actor]
      exact hji.symm
    rw [granted, released, LabelledRun.filterMap_cons, LabelledRun.filterMap_cons, grantTo_of_ne hActor,
      releaseBy_of_ne hActor]
    exact hOther

/-- Every step leaves the limits as tight as they were, and a request imposes those of its version. -/
theorem Act.heldTo {id : String} {n : Int} (h : Act quotient i limiter x label limiter' x')
    (hHeld : limiter.HeldTo id n) : limiter'.HeldTo id n := by
  cases h with
  | acquire hAcquire =>
    obtain rfl : _ = limiter' := congrArg Prod.snd hAcquire
    exact hHeld.tryAcquire
  | release hRelease =>
    obtain rfl : _ = limiter' := congrArg Prod.snd hRelease
    exact hHeld.release
  | call | check | observe | claimFailed | claim | send | complete => exact hHeld

theorem Act.heldTo_version {id : String} {version : DestinationVersion}
    (h : Act quotient i limiter x label limiter' x') (hVersion : label.versionOf id = some version) :
    limiter'.HeldTo id (effectiveConcurrency version) := by
  cases h with
  | @acquire _ _ destination _ _ _ _ hAcquire =>
    obtain ⟨rfl, rfl⟩ : destination.destinationID = id ∧ destination = version := by
      simpa [Label.versionOf] using hVersion
    obtain rfl : _ = limiter' := congrArg Prod.snd hAcquire
    exact Limiter.heldTo_tryAcquire
  | call | check | observe | claimFailed | claim | send | complete | release => cases hVersion

theorem Run.heldTo (h : Run quotient history w) (id : String) :
    ∀ version ∈ observed id history, w.shared.HeldTo id (effectiveConcurrency version) := by
  refine LabelledRun.Run.invariant
    (I := fun history w => ∀ version ∈ observed id history, w.shared.HeldTo id (effectiveConcurrency version))
    (fun _ h => by cases h) (fun history w label w' _ ih hStep version hVersion => ?_) h
  cases hStep with
  | env h => exact h.elim
  | act i hAct =>
    obtain ⟨source, hSource, hSome⟩ := List.mem_filterMap.mp hVersion
    rcases List.mem_cons.mp hSource with rfl | hPast
    · exact hAct.heldTo_version hSome
    · exact hAct.heldTo (ih version (List.mem_filterMap.mpr ⟨source, hPast, hSome⟩))

/-- A grant does not go beyond the limits in force after it. -/
theorem Act.within {j : Nat} {destination : DestinationVersion} {permit : Permit} {n : Int}
    (h : Act quotient i limiter x (.acquire j destination (some permit)) limiter' x')
    (hHeld : limiter'.HeldTo destination.destinationID n) : limiter'.active destination.destinationID ≤ n := by
  cases h with
  | @acquire _ _ _ _ _ _ now hAcquire =>
    obtain rfl : _ = limiter' := congrArg Prod.snd hAcquire
    obtain ⟨_, _, hMore, hFree⟩ := Limiter.tryAcquire_granted (congrArg Prod.fst hAcquire)
    obtain ⟨state, hState, hMax⟩ := Limiter.tryAcquire_self quotient now destination limiter
    obtain ⟨state', hState', hBound⟩ := hHeld
    obtain rfl := Option.some.inj (hState.symm.trans hState')
    omega

theorem Act.permitted {j : Nat} (h : Act quotient i limiter x label limiter' x')
    (hLabel : label = .claim j ∨ label = .send j) :
    i = j ∧ ∃ call, x = some call ∧ call.stage.permitted = true := by
  cases h with
  | claimFailed | claim | send => simpa [Stage.permitted] using hLabel
  | call | check | observe | acquire | complete | release => simp at hLabel

/-- A step leaves the state of every destination alone that it is not about. -/
theorem Act.states {id : String} (h : Act quotient i limiter x label limiter' x')
    (hOther : label.destinationID ≠ some id) : limiter'.states id = limiter.states id := by
  cases h with
  | acquire hAcquire =>
    obtain rfl : _ = limiter' := congrArg Prod.snd hAcquire
    exact Limiter.tryAcquire_states fun hSame => hOther (congrArg some hSame.symm)
  | release hRelease =>
    obtain rfl : _ = limiter' := congrArg Prod.snd hRelease
    exact Limiter.release_states fun hSame => hOther (congrArg some hSame.symm)
  | call | check | observe | claimFailed | claim | send | complete => rfl

/-- Obtaining a permit makes the call a holder, and releasing it ends that. -/
theorem Act.counts {id : String} {procs : Nat → Option Call} {n : Nat}
    (h : Act quotient i limiter (procs i) label limiter' x') (hCustody : Custody permits returned (procs i))
    (hCount : Counts procs (Holds id) n) (hActive : limiter.active id = n) :
    ∃ m : Nat, Counts (Function.update procs i x') (Holds id) m ∧ limiter'.active id = m := by
  generalize hx : procs i = x at h hCustody
  cases h with
  | call | check | observe | claimFailed | claim | send | complete =>
    exact ⟨n, hCount.stay (by rw [hx]; rfl), hActive⟩
  | @acquire _ signal destination permit permit' release now hAcquire =>
    obtain rfl : _ = limiter' := congrArg Prod.snd hAcquire
    have hPermit : (limiter.tryAcquire quotient now destination).1 = permit' := congrArg Prod.fst hAcquire
    cases hCustody with
    | asking =>
      have hOut : ¬Holds id (procs i) := by
        rw [hx]
        rintro ⟨_, hNone, _⟩
        cases hNone
      cases permit' with
      | none => exact ⟨n, hCount.stay (by rw [hx]; rfl), (Limiter.tryAcquire_refused hPermit id).trans hActive⟩
      | some permit =>
        obtain ⟨hOwn, hUnreleased, hMore, _⟩ := Limiter.tryAcquire_granted hPermit
        by_cases hID : permit.destinationID = id
        · refine ⟨n + 1, hCount.enter hOut ⟨permit, rfl, hID, hUnreleased⟩, ?_⟩
          rw [hOwn] at hID
          subst hID
          rw [hMore, hActive]
          rfl
        · refine ⟨n, hCount.stay ⟨?_, fun h => absurd h hOut⟩, ?_⟩
          · rintro ⟨_, ⟨⟩, hSame, _⟩
            exact absurd hSame hID
          · exact (Limiter.active_congr (Limiter.tryAcquire_states fun h => hID (hOwn.trans h.symm))).trans hActive
    | holding hStage | owing hStage | settled hStage => cases hStage
  | @release _ stage permit permit' claimed hRelease =>
    obtain rfl : _ = limiter' := congrArg Prod.snd hRelease
    obtain rfl : _ = permit' := congrArg Prod.fst hRelease
    cases hCustody with
    | owing _ hUnreleased =>
      have hDone : ¬Holds id (some ⟨stage, some (permit.release claimed limiter).1, none⟩) := by
        simp [Holds, Permit.release, hUnreleased]
      by_cases hID : permit.destinationID = id
      · subst hID
        have hIn : Holds permit.destinationID (procs i) := by
          rw [hx]
          exact ⟨permit, rfl, rfl, hUnreleased⟩
        obtain ⟨m, rfl⟩ := Nat.exists_eq_succ_of_ne_zero (hCount.pos hIn).ne'
        refine ⟨m, hCount.leave hIn hDone, ?_⟩
        rw [Limiter.release_active hUnreleased (Limiter.isSome_of_active (by omega)), hActive]
        simp
      · refine ⟨n, hCount.stay ⟨fun h => absurd h hDone, fun h => ?_⟩, ?_⟩
        · rw [hx] at h
          obtain ⟨_, ⟨⟩, hSame, _⟩ := h
          exact absurd hSame hID
        · exact (Limiter.active_congr (Limiter.release_states (Ne.symm hID))).trans hActive

theorem Run.counts (h : Run quotient history w) (id : String) :
    ∃ n : Nat, Counts w.procs (Holds id) n ∧ w.shared.active id = n := by
  refine LabelledRun.Run.invariant (I := fun _ (w : World Limiter (Option Call)) =>
    ∃ n : Nat, Counts w.procs (Holds id) n ∧ w.shared.active id = n) ?_ ?_ h
  · refine ⟨0, Counts.none ?_, rfl⟩
    rintro _ ⟨_, hNone, _⟩
    cases hNone
  · rintro history w label w' hRun ⟨n, hCount, hActive⟩ hStep
    cases hStep with
    | env h => exact h.elim
    | act i hAct => exact hAct.counts (Run.custody hRun i) hCount hActive

theorem Custody.of_holds {id : String} (h : Custody permits returned x) :
    Holds id x → ∃ permit, permits = [permit] ∧ returned = [] ∧ permit.destinationID = id := by
  rintro ⟨permit, hPermit, hID, hUnreleased⟩
  cases h with
  | uncalled | asking => cases hPermit
  | holding | owing =>
    cases hPermit
    exact ⟨permit, rfl, rfl, hID⟩
  | settled =>
    cases hPermit
    cases hUnreleased

theorem Custody.account (h : Custody permits returned x) :
    permits.length ≤ 1 ∧ (returned = [] ∨ returned = permits) := by
  cases h with
  | uncalled | asking => exact ⟨Nat.zero_le 1, .inl rfl⟩
  | holding | owing => exact ⟨le_rfl, .inl rfl⟩
  | settled => exact ⟨le_rfl, .inr rfl⟩

theorem Custody.released_eq {call : Call} (h : Custody permits returned (some call)) (hReturned : call.Returned) :
    returned = permits := by
  cases h with
  | asking | settled => rfl
  | holding hStage => cases (permitted_of_inProcess hReturned.1).symm.trans hStage
  | owing => cases hReturned.2

theorem Custody.permitted {call : Call} (h : Custody permits returned (some call))
    (hStage : call.stage.permitted = true) :
    ∃ permit, call.permit = some permit ∧ permit.released = false ∧ permits = [permit] ∧ returned = [] := by
  cases h with
  | asking hOther => cases hOther.symm.trans hStage
  | holding _ hPermit => exact ⟨_, rfl, hPermit, rfl, rfl⟩
  | owing hOut | settled hOut => cases (permitted_of_inProcess hOut).symm.trans hStage

/-- A call that has not returned can go on; in particular it never releases a permit that it does not have. -/
theorem Custody.goes_on {call : Call} (h : Custody permits returned (some call)) (hInside : ¬call.Returned)
    (limiter : Limiter) : ∃ label limiter' x', Act quotient i limiter (some call) label limiter' x' := by
  cases h with
  | @asking stage hStage =>
    cases stage with
    | checking => exact ⟨_, _, _, .check (.error .unavailable)⟩
    | observing => exact ⟨_, _, _, .observe (.error .unavailable)⟩
    | acquiring _ destination => exact ⟨_, _, _, @Act.acquire _ _ _ _ _ destination _ _ _ 0 rfl⟩
    | claiming | sending | completing => cases hStage
    | deferring | acking | nacking | finished => exact absurd ⟨rfl, rfl⟩ hInside
  | @holding stage _ hStage =>
    cases stage with
    | claiming => exact ⟨_, _, _, .claimFailed .unavailable⟩
    | sending => exact ⟨_, _, _, .send (fun _ => none) (fun _ => 0) 0 0 ⟨0, ""⟩ none⟩
    | completing => exact ⟨_, _, _, .complete (.error .unavailable)⟩
    | checking | observing | acquiring | deferring | acking | nacking | finished => cases hStage
  | owing => exact ⟨_, _, _, .release rfl⟩
  | settled hStage => exact absurd ⟨hStage, rfl⟩ hInside

/-- Capacity is respected and never leaks. Every permit is released exactly once, by the call that obtained it;
a claim or a send is made under an unreleased permit; the count of a destination is the number of its holders;
a grant keeps the holders within every limit observed so far; and other destinations are left alone. -/
theorem permits_never_leak (h : Run quotient history w) :
    (∀ i call, w.procs i = some call →
      (granted i history).length ≤ 1 ∧ (released i history = [] ∨ released i history = granted i history) ∧
      (call.Returned → released i history = granted i history) ∧
      (¬call.Returned → ∃ label limiter x, Act quotient i w.shared (some call) label limiter x)) ∧
    (∀ i label w', Step quotient w label w' → label = .claim i ∨ label = .send i →
      ∃ call permit, w.procs i = some call ∧ call.permit = some permit ∧ permit.released = false ∧
        granted i history = [permit] ∧ released i history = []) ∧
    (∀ id, ∃ n : Nat, Counts w.procs (Holds id) n ∧ w.shared.active id = n) ∧
    ((∀ i call, w.procs i = some call → call.Returned) → ∀ id, w.shared.active id = 0) ∧
    (∀ i destination permit w', Step quotient w (.acquire i destination (some permit)) w' →
      ∀ n : Nat, Counts w'.procs (Holds destination.destinationID) n →
        ∀ version ∈ observed destination.destinationID (.acquire i destination (some permit) :: history),
          n ≤ effectiveConcurrency version) ∧
    ∀ label w', Step quotient w label w' → ∀ id, label.destinationID ≠ some id →
      w'.shared.states id = w.shared.states id := by
  refine ⟨?_, ?_, h.counts, ?_, ?_, ?_⟩
  · intro i call hCall
    have hCustody := h.custody i
    rw [hCall] at hCustody
    exact ⟨hCustody.account.1, hCustody.account.2, hCustody.released_eq,
      fun hInside => hCustody.goes_on hInside w.shared⟩
  · intro i label w' hStep hLabel
    cases hStep with
    | env h => exact h.elim
    | act j hAct =>
      obtain ⟨rfl, call, hCall, hStage⟩ := hAct.permitted hLabel
      have hCustody := h.custody j
      rw [hCall] at hCustody
      obtain ⟨permit, hPermit⟩ := hCustody.permitted hStage
      exact ⟨call, permit, hCall, hPermit⟩
  · intro hAll id
    obtain ⟨n, hCount, hActive⟩ := h.counts id
    have hNone : Counts w.procs (Holds id) 0 := by
      refine .none fun i hHolds => ?_
      cases hCall : w.procs i with
      | none =>
        rw [hCall] at hHolds
        obtain ⟨_, hPermit, _⟩ := hHolds
        cases hPermit
      | some call =>
        obtain ⟨permit, hGranted, hReleased, _⟩ := (h.custody i).of_holds hHolds
        have hCustody := h.custody i
        rw [hCall] at hCustody
        have hSame := hCustody.released_eq (hAll i call hCall)
        rw [hGranted, hReleased] at hSame
        cases hSame
    rw [hActive, hCount.unique hNone]
    rfl
  · intro i destination permit w' hStep n hCount version hVersion
    have hNext : Run quotient (.acquire i destination (some permit) :: history) w' := h.next hStep
    obtain ⟨m, hSame, hActive⟩ := hNext.counts destination.destinationID
    have hHeld := hNext.heldTo destination.destinationID version hVersion
    cases hStep with
    | env h => exact h.elim
    | act _ hAct =>
      rw [hCount.unique hSame, ← hActive]
      exact hAct.within hHeld
  · intro label w' hStep id hOther
    cases hStep with
    | env h => exact h.elim
    | act _ hAct => exact hAct.states hOther

theorem Run.act (h : Run quotient history w) (hHere : w.procs i = x)
    (hAct : Act quotient i w.shared x label limiter' x') :
    Run quotient (label :: history) ⟨limiter', Function.update w.procs i x'⟩ :=
  h.next (.act i (hHere ▸ hAct))

/-- One permit for two calls: the second is refused, the first loses its claim, and nothing stays taken. -/
theorem permits_never_leak_contended :
    ∃ (history : List Label) (w : World Limiter (Option Call)) (permit : Permit), Run (fun _ => 0) history w ∧
      granted 0 history = [permit] ∧ released 0 history = [permit] ∧ granted 1 history = [] ∧
      w.shared.active "orders" = 0 := by
  let destination : DestinationVersion := { Sample.destination with maxConcurrency := 1 }
  have h : Run (fun _ => 0) [] ⟨.new, fun _ => none⟩ := .refl
  have h := h.act (i := 0) rfl (.call ⟨100, 0, 102⟩)
  have h := h.act (i := 1) rfl (.call ⟨200, 0, 202⟩)
  have h := h.act (i := 0) rfl (.check (.ok destination))
  have h := h.act (i := 1) rfl (.check (.ok destination))
  have h := h.act (i := 0) rfl (.observe (.ok ()))
  have h := h.act (i := 1) rfl (.observe (.ok ()))
  have h := h.act (i := 0) rfl (@Act.acquire _ _ _ _ _ destination _ _ _ 8000 rfl)
  have h := h.act (i := 1) rfl (@Act.acquire _ _ _ _ _ destination _ _ _ 8000 rfl)
  have h := h.act (i := 0) rfl (.claimFailed .deliveryNotClaimable)
  have h := h.act (i := 0) rfl (.release rfl)
  obtain ⟨hCalls, _, _, hZero, _⟩ := permits_never_leak h
  have hBack := (hCalls 0 _ rfl).2.2.1 ⟨rfl, rfl⟩
  refine ⟨_, _, _, h, rfl, hBack, rfl, hZero ?_ "orders"⟩
  rintro (_ | _ | i) call hCall
  · cases hCall
    exact ⟨rfl, rfl⟩
  · cases hCall
    exact ⟨rfl, rfl⟩
  · cases hCall

end Capacity

end ReliableNotifier
