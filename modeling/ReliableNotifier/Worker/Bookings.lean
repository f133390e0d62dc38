import ReliableNotifier.Library.Run
import ReliableNotifier.Store.Operation
import ReliableNotifier.Worker.Limiter

/-! # When the limiter admits a request

Callers ask for permits and release them in any order, also more than once. The limiter
keeps one instant for each destination and puts it back when a reservation is rolled back;
what it is for is said here by the bookings, one for each permit that was ever given out.
-/

namespace ReliableNotifier.Bookings

/-- A limiter, the permits it has given out and the last reading of its clock. -/
structure Desk where
  limiter : Limiter
  permits : List Permit
  clock : GoTime

inductive Label where
  | tryAcquire (now : GoTime) (destination : DestinationVersion) (granted : Bool)
  | release (index : Nat) (claimed : Bool)

inductive Step (quotient : Rat → Duration) : Desk → Label → Desk → Prop
  | tryAcquire {desk : Desk} {now : GoTime} {destination : DestinationVersion} {reply : Option Permit}
      {limiter : Limiter} (hClock : desk.clock ≤ now)
      (h : desk.limiter.tryAcquire quotient now destination = (reply, limiter)) :
      Step quotient desk (.tryAcquire now destination reply.isSome) ⟨limiter, desk.permits ++ reply.toList, now⟩
  | release {desk : Desk} {index : Nat} {permit permit' : Permit} {claimed : Bool} {limiter : Limiter}
      (hPermit : desk.permits[index]? = some permit) (h : permit.release claimed desk.limiter = (permit', limiter)) :
      Step quotient desk (.release index claimed) ⟨limiter, desk.permits.set index permit', desk.clock⟩

/-- The calls made since the limiter was built, the clock standing at `first`. -/
def Run (quotient : Rat → Duration) (first : GoTime) (history : List Label) (desk : Desk) : Prop :=
  LabelledRun.Run (Step quotient) ⟨.new, [], first⟩ history desk

/-! ## What the calls add up to -/

def Label.versionOf (id : String) : Label → Option DestinationVersion
  | tryAcquire _ destination _ => if destination.destinationID = id then some destination else none
  | release _ _ => none

/-- The versions of the destination that were asked for, newest first. -/
def observed (id : String) (history : List Label) : List DestinationVersion :=
  history.filterMap (Label.versionOf id)

/-- The smallest concurrency observed for the destination, this version included. -/
def smallestConcurrency (destination : DestinationVersion) (history : List Label) : Int :=
  (observed destination.destinationID history).foldr (fun version n => min (effectiveConcurrency version) n)
    (effectiveConcurrency destination)

variable (quotient : Rat → Duration)

def versionInterval (destination : DestinationVersion) : Duration := quotient (effectiveRate destination)

/-- The longest interval observed for the destination, this version included. -/
def intervalInForce (destination : DestinationVersion) (history : List Label) : Duration :=
  (observed destination.destinationID history).foldr (fun version d => max (versionInterval quotient version) d)
    (versionInterval quotient destination)

/-- A permit as its holder sees it, with the outcome it was released with. -/
structure Booking where
  destinationID : String
  grantedAt : GoTime
  interval : Duration
  released : Option Bool
  deriving DecidableEq

namespace Booking

/-- Only the first release counts. -/
def release (claimed : Bool) (booking : Booking) : Booking :=
  { booking with released := booking.released <|> some claimed }

/-- The booking has not been rolled back. -/
def kept (booking : Booking) : Prop := booking.released ≠ some false

instance (booking : Booking) : Decidable booking.kept := inferInstanceAs (Decidable (_ ≠ _))

def reservedUntil (booking : Booking) : GoTime := booking.grantedAt + booking.interval

end Booking

/-- The bookings in the order of their grants. -/
def bookings : List Label → List Booking
  | [] => []
  | .tryAcquire now destination granted :: earlier =>
    if granted then
      bookings earlier ++ [⟨destination.destinationID, now, intervalInForce quotient destination earlier, none⟩]
    else bookings earlier
  | .release index claimed :: earlier => (bookings earlier).modify index (Booking.release claimed)

def unreleased (id : String) (bookings : List Booking) : Nat :=
  bookings.countP fun booking => booking.destinationID = id && booking.released = none

/-! ## The state of one destination -/

/-- The permit and its booking tell the same. What it would restore is in the past. -/
structure Matches (clock : GoTime) (pair : Permit × Booking) : Prop where
  destinationID : pair.1.destinationID = pair.2.destinationID
  released : pair.1.released = pair.2.released.isSome
  reservedNext : pair.1.reservedNext = pair.2.reservedUntil
  previousNext : pair.1.previousNext ≤ clock

/-- A permit is given out only when all earlier ones that are kept have passed. -/
def Passed (clock : GoTime) (pairs : List (Permit × Booking)) : Prop :=
  pairs.Pairwise fun a b =>
    b.2.destinationID = a.2.destinationID → a.2.kept → a.2.reservedUntil ≤ clock

/-- The cell `nextAllowed` stands for the bookings that are kept, as far as they lie ahead. -/
structure Tracks (id : String) (pairs : List (Permit × Booking)) (clock : GoTime) (state : LimitState) : Prop where
  active : state.active = unreleased id (pairs.map Prod.snd)
  ahead : ∀ pair ∈ pairs, pair.2.destinationID = id → pair.2.kept →
    pair.2.reservedUntil ≤ state.nextAllowed ∨ pair.2.reservedUntil ≤ clock
  due : state.nextAllowed ≤ clock ∨
    ∃ pair ∈ pairs, pair.2.destinationID = id ∧ pair.2.kept ∧ pair.2.reservedUntil = state.nextAllowed
  newest : ∀ pair ∈ pairs, pair.2.destinationID = id → pair.2.kept → clock < pair.2.reservedUntil →
    pair.1.sequence = state.lastSequence

section Tracks

variable {id : String} {pairs pre post : List (Permit × Booking)} {pair : Permit × Booking} {clock now : GoTime}
  {state : LimitState}

theorem Matches.wait (h : Matches clock pair) (hNow : clock ≤ now) : Matches now pair :=
  ⟨h.destinationID, h.released, h.reservedNext, h.previousNext.trans hNow⟩

theorem Passed.wait (h : Passed clock pairs) (hNow : clock ≤ now) : Passed now pairs :=
  h.imp fun hPair hSame hKept => (hPair hSame hKept).trans hNow

theorem Tracks.wait (h : Tracks id pairs clock state) (hNow : clock ≤ now) : Tracks id pairs now state where
  active := h.active
  ahead pair hPair hID hKept := (h.ahead pair hPair hID hKept).imp_right fun hPast => hPast.trans hNow
  due := h.due.imp_left fun hPast => hPast.trans hNow
  newest pair hPair hID hKept hAhead := h.newest pair hPair hID hKept (hNow.trans_lt hAhead)

theorem Tracks.nextAllowed_le_iff (h : Tracks id pairs clock state) (hNow : clock ≤ now) :
    state.nextAllowed ≤ now ↔
      ∀ pair ∈ pairs, pair.2.destinationID = id → pair.2.kept → pair.2.reservedUntil ≤ now := by
  constructor
  · intro hNext pair hPair hID hKept
    rcases h.ahead pair hPair hID hKept with hAhead | hPast
    · exact hAhead.trans hNext
    · exact hPast.trans hNow
  · intro hAll
    rcases h.due with hPast | ⟨pair, hPair, hID, hKept, hSame⟩
    · exact hPast.trans hNow
    · exact hSame ▸ hAll pair hPair hID hKept

theorem unreleased_append (id : String) (first second : List Booking) :
    unreleased id (first ++ second) = unreleased id first + unreleased id second :=
  List.countP_append

theorem unreleased_singleton (id : String) (booking : Booking) :
    unreleased id [booking] = if booking.destinationID = id ∧ booking.released = none then 1 else 0 := by
  simp [unreleased, List.countP_cons]

theorem Passed.grant (h : Passed clock pairs) (hAll : ∀ old ∈ pairs, pair.2.destinationID = old.2.destinationID →
    old.2.kept → old.2.reservedUntil ≤ clock) : Passed clock (pairs ++ [pair]) := by
  refine List.pairwise_append.mpr ⟨h, List.pairwise_singleton _ _, fun old hOld new hNew => ?_⟩
  rw [List.mem_singleton.mp hNew]
  exact hAll old hOld

theorem Tracks.grant (h : Tracks id pairs clock state) (hNext : state.nextAllowed ≤ clock)
    (hID : pair.2.destinationID = id) (hNew : pair.2.released = none) :
    Tracks id (pairs ++ [pair]) clock
      { state with
        active := state.active + 1
        lastSequence := pair.1.sequence
        nextAllowed := pair.2.reservedUntil } := by
  have hPast := (h.nextAllowed_le_iff le_rfl).mp hNext
  have hLast : pair ∈ pairs ++ [pair] := List.mem_append_right _ (List.mem_singleton_self _)
  refine ⟨?_, ?_, .inr ⟨pair, hLast, hID, by simp [Booking.kept, hNew], rfl⟩, ?_⟩
  · simp [unreleased_append, unreleased_singleton, hID, hNew, h.active]
  · intro other hOther hSame hKept
    rcases List.mem_append.mp hOther with hOld | hOther
    · exact .inr (hPast other hOld hSame hKept)
    · rw [List.mem_singleton.mp hOther]
      exact .inl le_rfl
  · intro other hOther hSame hKept hAhead
    rcases List.mem_append.mp hOther with hOld | hOther
    · exact absurd (hPast other hOld hSame hKept) (not_le.mpr hAhead)
    · rw [List.mem_singleton.mp hOther]

theorem Tracks.grant_other (h : Tracks id pairs clock state) (hID : pair.2.destinationID ≠ id) :
    Tracks id (pairs ++ [pair]) clock state := by
  have hOld {other : Permit × Booking} (hOther : other ∈ pairs ++ [pair]) (hSame : other.2.destinationID = id) :
      other ∈ pairs := by
    rcases List.mem_append.mp hOther with hOld | hLast
    · exact hOld
    · exact absurd (List.mem_singleton.mp hLast ▸ hSame) hID
  refine ⟨?_, fun other hOther hSame => h.ahead other (hOld hOther hSame) hSame, ?_,
    fun other hOther hSame => h.newest other (hOld hOther hSame) hSame⟩
  · simp [unreleased_append, unreleased_singleton, hID, h.active]
  · rcases h.due with hPast | ⟨other, hOther, hRest⟩
    · exact .inl hPast
    · exact .inr ⟨other, List.mem_append_left _ hOther, hRest⟩

/-- The permit and the booking after a release. -/
def returned (claimed : Bool) (pair : Permit × Booking) : Permit × Booking :=
  ({ pair.1 with released := true }, pair.2.release claimed)

variable {claimed : Bool}

theorem kept_of_returned (h : (returned claimed pair).2.kept) (hNew : pair.2.released = none) : claimed = true := by
  simpa [returned, Booking.release, Booking.kept, hNew] using h

theorem Matches.returned (h : Matches clock pair) : Matches clock (returned claimed pair) := by
  refine ⟨h.destinationID, ?_, h.reservedNext, h.previousNext⟩
  simp [Bookings.returned, Booking.release]

theorem mem_middle {other : Permit × Booking} :
    other ∈ pre ++ pair :: post ↔ other = pair ∨ other ∈ pre ∨ other ∈ post := by
  rw [List.mem_append, List.mem_cons]
  tauto

theorem Passed.returned (h : Passed clock (pre ++ pair :: post)) (hNew : pair.2.released = none) :
    Passed clock (pre ++ returned claimed pair :: post) := by
  obtain ⟨hPre, hRest, hAcross⟩ := List.pairwise_append.mp h
  obtain ⟨hPair, hPost⟩ := List.pairwise_cons.mp hRest
  refine List.pairwise_append.mpr ⟨hPre, List.pairwise_cons.mpr ⟨fun later hLater hSame _ => ?_, hPost⟩, ?_⟩
  · exact hPair later hLater hSame (by simp [Booking.kept, hNew])
  · intro old hOld later hLater
    rcases List.mem_cons.mp hLater with rfl | hLater
    · exact hAcross old hOld pair List.mem_cons_self
    · exact hAcross old hOld later (List.mem_cons_of_mem _ hLater)

/-- Where the cell may be put back, no other booking lies ahead. -/
theorem Tracks.alone (h : Tracks id (pre ++ pair :: post) clock state) (hPassed : Passed clock (pre ++ pair :: post))
    (hID : pair.2.destinationID = id) (hKept : pair.2.kept) (hCell : state.nextAllowed = pair.2.reservedUntil)
    {other : Permit × Booking} (hOther : other ∈ pre ∨ other ∈ post) (hSame : other.2.destinationID = id)
    (hOtherKept : other.2.kept) : other.2.reservedUntil ≤ clock := by
  obtain ⟨_, hRest, hAcross⟩ := List.pairwise_append.mp hPassed
  rcases hOther with hBefore | hAfter
  · exact hAcross other hBefore pair List.mem_cons_self (hID.trans hSame.symm) hOtherKept
  · have hPast := (List.pairwise_cons.mp hRest).1 other hAfter (hSame.trans hID.symm) hKept
    rcases h.ahead other (mem_middle.mpr (.inr (.inr hAfter))) hSame hOtherKept with hAhead | hOver
    · exact hAhead.trans (hCell.trans_le hPast)
    · exact hOver

theorem Tracks.release (claimed : Bool) (h : Tracks id (pre ++ pair :: post) clock state)
    (hPassed : Passed clock (pre ++ pair :: post)) (hMatch : Matches clock pair) (hID : pair.2.destinationID = id)
    (hNew : pair.2.released = none) :
    Tracks id (pre ++ returned claimed pair :: post) clock (state.release claimed pair.1) := by
  have hKept : pair.2.kept := by simp [Booking.kept, hNew]
  have hMem : pair ∈ pre ++ pair :: post := mem_middle.mpr (.inl rfl)
  have hActive : state.active - 1 = unreleased id ((pre ++ returned claimed pair :: post).map Prod.snd) := by
    rw [h.active, List.map_append, List.map_append, List.map_cons, List.map_cons, unreleased_append, unreleased_append,
      unreleased, unreleased, unreleased, List.countP_cons, List.countP_cons]
    simp [returned, Booking.release, hID, hNew]
    omega
  have hNewest : ∀ other ∈ pre ++ returned claimed pair :: post, other.2.destinationID = id → other.2.kept →
      clock < other.2.reservedUntil → other.1.sequence = state.lastSequence := by
    intro other hOther hSame hOtherKept hAhead
    rcases mem_middle.mp hOther with rfl | hOther
    · exact h.newest pair hMem hID hKept hAhead
    · exact h.newest other (mem_middle.mpr (.inr hOther)) hSame hOtherKept hAhead
  by_cases hRestore : claimed = false ∧ state.lastSequence = pair.1.sequence ∧
      state.nextAllowed = pair.1.reservedNext
  · have hCell : state.nextAllowed = pair.2.reservedUntil := hRestore.2.2.trans hMatch.reservedNext
    have hNext : (state.release claimed pair.1).nextAllowed = pair.1.previousNext := if_pos hRestore
    refine ⟨hActive, fun other hOther hSame hOtherKept => .inr ?_, .inl (hNext ▸ hMatch.previousNext), hNewest⟩
    rcases mem_middle.mp hOther with rfl | hOther
    · cases hRestore.1.symm.trans (kept_of_returned hOtherKept hNew)
    · exact h.alone hPassed hID hKept hCell hOther hSame hOtherKept
  · have hNext : (state.release claimed pair.1).nextAllowed = state.nextAllowed := if_neg hRestore
    refine ⟨hActive, fun other hOther hSame hOtherKept => ?_, ?_, hNewest⟩
    · rw [hNext]
      rcases mem_middle.mp hOther with rfl | hOther
      · exact h.ahead pair hMem hID hKept
      · exact h.ahead other (mem_middle.mpr (.inr hOther)) hSame hOtherKept
    · rw [hNext]
      rcases h.due with hPast | ⟨other, hOther, hSame, hOtherKept, hCell⟩
      · exact .inl hPast
      rcases mem_middle.mp hOther with rfl | hRest
      · cases claimed with
        | true =>
          refine .inr ⟨_, mem_middle.mpr (.inl rfl), hID, ?_, hCell⟩
          simp [returned, Booking.release, Booking.kept, hNew]
        | false =>
          -- a booking that lies ahead belongs to the newest permit, so the cell would have been put back
          refine .inl (not_lt.mp fun hAhead => hRestore ⟨rfl, ?_, ?_⟩)
          · exact (h.newest other hOther hSame hOtherKept (hCell ▸ hAhead)).symm
          · exact hCell.symm.trans hMatch.reservedNext.symm
      · exact .inr ⟨other, mem_middle.mpr (.inr hRest), hSame, hOtherKept, hCell⟩

theorem Tracks.release_other (h : Tracks id (pre ++ pair :: post) clock state) (hID : pair.2.destinationID ≠ id) :
    Tracks id (pre ++ returned claimed pair :: post) clock state := by
  have hOld {other : Permit × Booking} (hOther : other ∈ pre ++ returned claimed pair :: post)
      (hSame : other.2.destinationID = id) : other ∈ pre ++ pair :: post := by
    rcases mem_middle.mp hOther with rfl | hOther
    · exact absurd hSame hID
    · exact mem_middle.mpr (.inr hOther)
  refine ⟨?_, fun other hOther hSame => h.ahead other (hOld hOther hSame) hSame, ?_,
    fun other hOther hSame => h.newest other (hOld hOther hSame) hSame⟩
  · rw [h.active, List.map_append, List.map_append, List.map_cons, List.map_cons, unreleased_append, unreleased_append,
      unreleased, unreleased, unreleased, List.countP_cons, List.countP_cons]
    simp [returned, Booking.release, hID]
  · rcases h.due with hPast | ⟨other, hOther, hSame, hRest⟩
    · exact .inl hPast
    · rcases mem_middle.mp hOther with rfl | hOther
      · exact absurd hSame hID
      · exact .inr ⟨other, mem_middle.mpr (.inr hOther), hSame, hRest⟩

end Tracks

/-! ## Every run -/

section State

variable {quotient} {limiter limiter' : Limiter} {destination : DestinationVersion} {now : GoTime}
  {reply : Option Permit}

theorem state_congr (h : limiter'.states destination.destinationID = limiter.states destination.destinationID) :
    limiter'.state quotient destination = limiter.state quotient destination := by
  rw [Limiter.state, Limiter.state, h]

theorem state_of_some {state : LimitState} (h : limiter.states destination.destinationID = some state) :
    limiter.state quotient destination =
      { state with
        maxConcurrent := min (effectiveConcurrency destination) state.maxConcurrent
        minInterval := max (versionInterval quotient destination) state.minInterval } := by
  have hMin (a b : Int) : (if a < b then a else b) = min a b := by
    split <;> omega
  have hMax (a b : Int) : (if a < b then b else a) = max b a := by
    split <;> omega
  simp only [Limiter.state, h, hMin, hMax, versionInterval]

theorem tryAcquire_cases (h : limiter.tryAcquire quotient now destination = (reply, limiter')) :
    (((limiter.state quotient destination).maxConcurrent ≤ (limiter.state quotient destination).active ∨
        now < (limiter.state quotient destination).nextAllowed) ∧ reply = none ∧
      limiter' = limiter.set destination.destinationID (limiter.state quotient destination)) ∨
    ((limiter.state quotient destination).active < (limiter.state quotient destination).maxConcurrent ∧
      (limiter.state quotient destination).nextAllowed ≤ now ∧
      ∃ permit : Permit, reply = some permit ∧ permit.destinationID = destination.destinationID ∧
        permit.released = false ∧ permit.previousNext = (limiter.state quotient destination).nextAllowed ∧
        permit.reservedNext = now + (limiter.state quotient destination).minInterval ∧
        limiter' = limiter.set destination.destinationID
          { limiter.state quotient destination with
            active := (limiter.state quotient destination).active + 1
            lastSequence := permit.sequence
            nextAllowed := permit.reservedNext }) := by
  unfold Limiter.tryAcquire at h
  dsimp only at h
  split at h
  · rename_i hFull
    cases h
    exact .inl ⟨hFull, rfl, rfl⟩
  · rename_i hFree
    obtain ⟨hRoom, hDue⟩ := not_or.mp hFree
    cases h
    exact .inr ⟨not_le.mp hRoom, not_lt.mp hDue, _, rfl, rfl, rfl, rfl, rfl, rfl⟩

end State

theorem observed_cons (id : String) (label : Label) (history : List Label) :
    observed id (label :: history) = (label.versionOf id).toList ++ observed id history :=
  LabelledRun.filterMap_cons ..

theorem foldr_swap {β : Type} {op : Int → Int → Int} (hComm : ∀ a b, op a b = op b a)
    (hLeft : ∀ a b c, op a (op b c) = op b (op a c)) (f : β → Int) (a b : Int) (items : List β) :
    op b (items.foldr (fun item n => op (f item) n) a) = op a (items.foldr (fun item n => op (f item) n) b) := by
  induction items with
  | nil => exact hComm b a
  | cons item rest ih => rw [List.foldr_cons, List.foldr_cons, hLeft b, ih, hLeft a]

/-- What holds of the desk after the calls. -/
structure Sound (history : List Label) (desk : Desk) (pairs : List (Permit × Booking)) : Prop where
  permits : desk.permits = pairs.map Prod.fst
  booked : bookings quotient history = pairs.map Prod.snd
  agree : ∀ pair ∈ pairs, Matches desk.clock pair
  passed : Passed desk.clock pairs
  tracks : ∀ destination : DestinationVersion,
    Tracks destination.destinationID pairs desk.clock (desk.limiter.state quotient destination)
  concurrency : ∀ destination : DestinationVersion,
    (desk.limiter.state quotient destination).maxConcurrent = smallestConcurrency destination history
  interval : ∀ destination : DestinationVersion,
    (desk.limiter.state quotient destination).minInterval = intervalInForce quotient destination history

variable {quotient} {history : List Label} {desk desk' : Desk} {label : Label} {pairs : List (Permit × Booking)}
  {first now : GoTime} {destination : DestinationVersion}

theorem sound_start (hFirst : zeroTime ≤ first) : Sound quotient [] ⟨.new, [], first⟩ [] where
  permits := rfl
  booked := rfl
  agree := List.forall_mem_nil _
  passed := List.Pairwise.nil
  tracks _ := ⟨rfl, List.forall_mem_nil _, .inl hFirst, List.forall_mem_nil _⟩
  concurrency _ := rfl
  interval _ := rfl

theorem limits_after {limiter limiter' : Limiter} {state : LimitState} (now : GoTime) (granted : Bool)
    (hConcurrency : ∀ destination, (limiter.state quotient destination).maxConcurrent =
      smallestConcurrency destination history)
    (hInterval : ∀ destination, (limiter.state quotient destination).minInterval =
      intervalInForce quotient destination history)
    (hLimiter : limiter' = limiter.set destination.destinationID state)
    (hMax : state.maxConcurrent = (limiter.state quotient destination).maxConcurrent)
    (hMin : state.minInterval = (limiter.state quotient destination).minInterval) (version : DestinationVersion) :
    (limiter'.state quotient version).maxConcurrent =
        smallestConcurrency version (.tryAcquire now destination granted :: history) ∧
      (limiter'.state quotient version).minInterval =
        intervalInForce quotient version (.tryAcquire now destination granted :: history) := by
  by_cases hID : destination.destinationID = version.destinationID
  · have hState : limiter'.states version.destinationID = some state := by
      rw [hLimiter, hID]
      exact Limiter.set_self state
    have hSeen : observed version.destinationID (.tryAcquire now destination granted :: history) =
        destination :: observed version.destinationID history := by
      simp [observed_cons, Label.versionOf, hID]
    rw [state_of_some hState, smallestConcurrency, intervalInForce, hSeen]
    dsimp only [List.foldr_cons]
    rw [hMax, hMin, hConcurrency, hInterval, smallestConcurrency, intervalInForce, hID]
    exact ⟨foldr_swap min_comm min_left_comm _ _ _ _, foldr_swap max_comm max_left_comm _ _ _ _⟩
  · have hSeen : observed version.destinationID (.tryAcquire now destination granted :: history) =
        observed version.destinationID history := by
      simp [observed_cons, Label.versionOf, hID]
    have hSame : limiter'.state quotient version = limiter.state quotient version := by
      refine state_congr ?_
      rw [hLimiter]
      exact Limiter.set_of_ne _ (Ne.symm hID)
    rw [hSame, smallestConcurrency, intervalInForce, hSeen]
    exact ⟨hConcurrency version, hInterval version⟩

theorem tracks_after {limiter limiter' : Limiter} {state : LimitState}
    (hOwn : Tracks destination.destinationID pairs now state)
    (hOther : ∀ version : DestinationVersion, version.destinationID ≠ destination.destinationID →
      Tracks version.destinationID pairs now (limiter.state quotient version))
    (hLimiter : limiter' = limiter.set destination.destinationID state) (version : DestinationVersion) :
    Tracks version.destinationID pairs now (limiter'.state quotient version) := by
  by_cases hID : version.destinationID = destination.destinationID
  · have hState : limiter'.states version.destinationID = some state := by
      rw [hLimiter, hID]
      exact Limiter.set_self state
    rw [state_of_some hState, hID]
    exact ⟨hOwn.active, hOwn.ahead, hOwn.due, hOwn.newest⟩
  · have hSame : limiter'.state quotient version = limiter.state quotient version := by
      refine state_congr ?_
      rw [hLimiter]
      exact Limiter.set_of_ne _ hID
    rw [hSame]
    exact hOther version hID

theorem Sound.tryAcquire (h : Sound quotient history desk pairs) {reply : Option Permit} {limiter : Limiter}
    (hClock : desk.clock ≤ now) (hAcquire : desk.limiter.tryAcquire quotient now destination = (reply, limiter)) :
    ∃ pairs, Sound quotient (.tryAcquire now destination reply.isSome :: history)
      ⟨limiter, desk.permits ++ reply.toList, now⟩ pairs := by
  have hWaited (version : DestinationVersion) := (h.tracks version).wait hClock
  rcases tryAcquire_cases hAcquire with ⟨_, rfl, hLimiter⟩ | ⟨_, hDue, permit, rfl, hID, hUnreleased, hPrevious,
    hReserved, hLimiter⟩
  · have hLimits := limits_after now false h.concurrency h.interval hLimiter rfl rfl
    refine ⟨pairs, ⟨?_, h.booked, fun pair hPair => (h.agree pair hPair).wait hClock, h.passed.wait hClock,
      tracks_after (hWaited destination) (fun version _ => hWaited version) hLimiter,
      fun version => (hLimits version).1, fun version => (hLimits version).2⟩⟩
    simpa using h.permits
  · have hLimits := limits_after now true h.concurrency h.interval hLimiter rfl rfl
    let booking : Booking :=
      ⟨destination.destinationID, now, intervalInForce quotient destination history, none⟩
    have hUntil : permit.reservedNext = booking.reservedUntil := by
      rw [hReserved, h.interval]
      rfl
    have hPast := ((hWaited destination).nextAllowed_le_iff le_rfl).mp hDue
    refine ⟨pairs ++ [(permit, booking)], ⟨?_, ?_, ?_, ?_, ?_, fun version => (hLimits version).1,
      fun version => (hLimits version).2⟩⟩
    · simp [h.permits]
    · rw [bookings, Option.isSome_some, if_pos rfl, h.booked, List.map_append]
      rfl
    · intro pair hPair
      rcases List.mem_append.mp hPair with hOld | hNew
      · exact (h.agree pair hOld).wait hClock
      · rw [List.mem_singleton.mp hNew]
        exact ⟨hID, hUnreleased, hUntil, hPrevious ▸ hDue⟩
    · exact (h.passed.wait hClock).grant fun old hOld hSame => hPast old hOld hSame.symm
    · rw [hUntil] at hLimiter
      refine tracks_after ((hWaited destination).grant hDue rfl rfl) (fun version hOther => ?_) hLimiter
      exact (hWaited version).grant_other (Ne.symm hOther)

theorem Booking.release_of_released {booking : Booking} {claimed : Bool} (h : booking.released.isSome = true) :
    booking.release claimed = booking := by
  obtain ⟨id, grantedAt, interval, released⟩ := booking
  cases released with
  | none => cases h
  | some => rfl

theorem exists_middle {α : Type} {items : List α} {index : Nat} {item : α} (h : items[index]? = some item) :
    ∃ pre post, items = pre ++ item :: post ∧ pre.length = index := by
  obtain ⟨hBound, rfl⟩ := List.getElem?_eq_some_iff.mp h
  refine ⟨items.take index, items.drop (index + 1), ?_, List.length_take_of_le hBound.le⟩
  rw [List.getElem_cons_drop, List.take_append_drop]

theorem modify_middle {α : Type} (f : α → α) (pre post : List α) (item : α) :
    (pre ++ item :: post).modify pre.length f = pre ++ f item :: post := by
  induction pre with
  | nil => rfl
  | cons first rest ih => exact congrArg (first :: ·) ih

/-- The bookings of the other destinations are not touched by a release, and the own ones count it. -/
theorem tracks_returned {pre post : List (Permit × Booking)} {pair : Permit × Booking} (claimed : Bool)
    {limiter : Limiter} {clock : GoTime}
    (hTracks : ∀ version : DestinationVersion,
      Tracks version.destinationID (pre ++ pair :: post) clock (limiter.state quotient version))
    (hPassed : Passed clock (pre ++ pair :: post)) (hMatch : Matches clock pair) (hNew : pair.2.released = none)
    (version : DestinationVersion) :
    Tracks version.destinationID (pre ++ returned claimed pair :: post) clock
        ((limiter.modify pair.1.destinationID (LimitState.release claimed pair.1)).state quotient version) ∧
      ((limiter.modify pair.1.destinationID (LimitState.release claimed pair.1)).state quotient version).maxConcurrent =
        (limiter.state quotient version).maxConcurrent ∧
      ((limiter.modify pair.1.destinationID (LimitState.release claimed pair.1)).state quotient version).minInterval =
        (limiter.state quotient version).minInterval := by
  by_cases hID : version.destinationID = pair.1.destinationID
  · have hOwn : pair.2.destinationID = version.destinationID := hMatch.destinationID.symm.trans hID.symm
    -- a permit is out, so the limiter has a state for its destination
    have hActive : limiter.active version.destinationID ≠ 0 := by
      rw [← @Limiter.state_active quotient, (hTracks version).active, List.map_append, List.map_cons,
        unreleased_append, unreleased, unreleased, List.countP_cons]
      simp [hOwn, hNew]
      omega
    obtain ⟨state, hState⟩ := Option.isSome_iff_exists.mp (Limiter.isSome_of_active hActive)
    have hAfter : (limiter.modify pair.1.destinationID (LimitState.release claimed pair.1)).states
        version.destinationID = some (state.release claimed pair.1) := by
      rw [← hID, Limiter.modify_self, hState]
      rfl
    have hTracked := (hTracks version).release claimed hPassed hMatch hOwn hNew
    rw [state_of_some hState] at hTracked ⊢
    rw [state_of_some hAfter]
    exact ⟨hTracked, rfl, rfl⟩
  · have hSame : (limiter.modify pair.1.destinationID (LimitState.release claimed pair.1)).state quotient version =
        limiter.state quotient version := state_congr (Limiter.modify_of_ne _ hID)
    rw [hSame]
    exact ⟨(hTracks version).release_other fun hOther => hID (hOther.symm.trans hMatch.destinationID.symm), rfl, rfl⟩

theorem Sound.release (h : Sound quotient history desk pairs) {index : Nat} {permit permit' : Permit} {claimed : Bool}
    {limiter : Limiter} (hPermit : desk.permits[index]? = some permit)
    (hRelease : permit.release claimed desk.limiter = (permit', limiter)) :
    ∃ pairs, Sound quotient (.release index claimed :: history)
      ⟨limiter, desk.permits.set index permit', desk.clock⟩ pairs := by
  rw [h.permits, List.getElem?_map] at hPermit
  obtain ⟨pair, hPair, rfl⟩ := Option.map_eq_some_iff.mp hPermit
  obtain ⟨pre, post, rfl, rfl⟩ := exists_middle hPair
  have hMatch := h.agree pair (mem_middle.mpr (.inl rfl))
  have hBooked : bookings quotient (.release pre.length claimed :: history) =
      (pre.map Prod.snd) ++ pair.2.release claimed :: post.map Prod.snd := by
    rw [bookings, h.booked, List.map_append, List.map_cons]
    simpa using modify_middle (Booking.release claimed) (pre.map Prod.snd) (post.map Prod.snd) pair.2
  unfold Permit.release at hRelease
  split at hRelease
  · rename_i hAgain
    cases hRelease
    refine ⟨pre ++ pair :: post, ⟨?_, ?_, h.agree, h.passed, h.tracks, h.concurrency, h.interval⟩⟩
    · rw [h.permits]
      simp
    · rw [hBooked, Booking.release_of_released (hMatch.released.symm.trans hAgain), List.map_append, List.map_cons]
  · rename_i hFirst
    cases hRelease
    have hNew : pair.2.released = none := by
      simpa [hMatch.released] using hFirst
    have hAfter := tracks_returned claimed h.tracks h.passed hMatch hNew
    refine ⟨pre ++ returned claimed pair :: post, ⟨?_, ?_, ?_, h.passed.returned hNew,
      fun version => (hAfter version).1,
      fun version => (hAfter version).2.1.trans (h.concurrency version),
      fun version => (hAfter version).2.2.trans (h.interval version)⟩⟩
    · rw [h.permits]
      simp [returned]
    · rw [hBooked, List.map_append, List.map_cons]
      rfl
    · intro other hOther
      rcases mem_middle.mp hOther with rfl | hOther
      · exact hMatch.returned
      · exact h.agree other (mem_middle.mpr (.inr hOther))

theorem Run.sound (h : Run quotient first history desk) (hFirst : zeroTime ≤ first) :
    ∃ pairs, Sound quotient history desk pairs := by
  refine LabelledRun.Run.invariant (I := fun history desk => ∃ pairs, Sound quotient history desk pairs) ?_ ?_ h
  · exact ⟨[], sound_start hFirst⟩
  · rintro history desk label desk' _ ⟨pairs, hSound⟩ hStep
    cases hStep with
    | tryAcquire hClock hAcquire => exact hSound.tryAcquire hClock hAcquire
    | release hPermit hRelease => exact hSound.release hPermit hRelease

theorem tryAcquire_isSome_iff {limiter : Limiter} :
    (limiter.tryAcquire quotient now destination).1.isSome = true ↔
      (limiter.state quotient destination).active < (limiter.state quotient destination).maxConcurrent ∧
        (limiter.state quotient destination).nextAllowed ≤ now := by
  rcases tryAcquire_cases (Prod.mk.eta (p := limiter.tryAcquire quotient now destination)).symm with
    ⟨hFull, hReply, _⟩ | ⟨hRoom, hDue, permit, hReply, _⟩
  · rw [hReply]
    refine iff_of_false nofun fun hFree => ?_
    rcases hFull with hFull | hEarly
    · exact absurd hFree.1 (not_lt.mpr hFull)
    · exact absurd hFree.2 (not_le.mpr hEarly)
  · rw [hReply]
    exact iff_of_true rfl ⟨hRoom, hDue⟩

theorem Sound.due_iff (h : Sound quotient history desk pairs) (hNow : desk.clock ≤ now) :
    (desk.limiter.state quotient destination).nextAllowed ≤ now ↔
      ∀ booking ∈ bookings quotient history, booking.destinationID = destination.destinationID → booking.kept →
        booking.grantedAt + booking.interval ≤ now := by
  rw [(h.tracks destination).nextAllowed_le_iff hNow, h.booked, List.forall_mem_map]
  rfl

theorem Sound.room_iff (h : Sound quotient history desk pairs) :
    (desk.limiter.state quotient destination).active < (desk.limiter.state quotient destination).maxConcurrent ↔
      (unreleased destination.destinationID (bookings quotient history) : Int) <
        smallestConcurrency destination history := by
  rw [(h.tracks destination).active, h.booked, h.concurrency]

/-- A request is admitted if and only if the destination has room under the smallest concurrency observed and every
booking that was not rolled back has run for the interval it was made with. -/
theorem admission_exact (h : Run quotient first history desk) (hFirst : zeroTime ≤ first) (hNow : desk.clock ≤ now)
    (destination : DestinationVersion) :
    (desk.limiter.tryAcquire quotient now destination).1.isSome = true ↔
      (unreleased destination.destinationID (bookings quotient history) : Int) <
          smallestConcurrency destination history ∧
        ∀ booking ∈ bookings quotient history, booking.destinationID = destination.destinationID → booking.kept →
          booking.grantedAt + booking.interval ≤ now := by
  obtain ⟨pairs, hSound⟩ := h.sound hFirst
  rw [tryAcquire_isSome_iff, hSound.room_iff, hSound.due_iff hNow]

/-- A permit that was rolled back at once costs nothing; the next one is kept and holds the third back for a
tenth of a second. -/
theorem admission_exact_rollback :
    ∃ (history : List Label) (desk : Desk), Run (fun _ => 100000000) 8000 history desk ∧ desk.clock = 8000 ∧
      bookings (fun _ => 100000000) history =
        [⟨"orders", 8000, 100000000, some false⟩, ⟨"orders", 8000, 100000000, none⟩] ∧
      (desk.limiter.tryAcquire (fun _ => 100000000) 100007999 Sample.destination).1.isSome = false ∧
      (desk.limiter.tryAcquire (fun _ => 100000000) 100008000 Sample.destination).1.isSome = true := by
  have h : Run (fun _ => 100000000) 8000 [] ⟨.new, [], 8000⟩ := .refl
  have h := h.next (@Step.tryAcquire _ _ 8000 Sample.destination _ _ le_rfl rfl)
  have h := h.next (@Step.release _ _ 0 _ _ false _ rfl rfl)
  have h := h.next (@Step.tryAcquire _ _ 8000 Sample.destination _ _ le_rfl rfl)
  refine ⟨_, _, h, rfl, by decide +kernel, ?_, ?_⟩
  · refine Bool.eq_false_iff.mpr fun hGranted => ?_
    exact absurd ((admission_exact h (by decide) (by decide) _).mp hGranted) (by decide +kernel)
  · exact (admission_exact h (by decide) (by decide) _).mpr (by decide +kernel)

end ReliableNotifier.Bookings
