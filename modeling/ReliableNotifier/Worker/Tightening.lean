import ReliableNotifier.Worker.Bookings

/-! # A stricter rate

The limiter keeps the longest interval it has seen, but the instant it waits for was
computed when the last permit was given out. A longer interval reaches only the permits
that come after it.
-/

namespace ReliableNotifier.Bookings

/-- The last booking of the destination that was not rolled back. -/
def Newest (id : String) (bookings : List Booking) (booking : Booking) : Prop :=
  ∃ k : Nat, bookings[k]? = some booking ∧ booking.destinationID = id ∧ booking.kept ∧
    ∀ (j : Nat) (other : Booking), k < j → bookings[j]? = some other → other.destinationID = id → ¬other.kept

/-- A booking that is kept while none behind it is sure to stay: it is or may become the newest. -/
def Exposed (id : String) (bookings : List Booking) (booking : Booking) : Prop :=
  ∃ k : Nat, bookings[k]? = some booking ∧ booking.destinationID = id ∧ booking.kept ∧
    ∀ (j : Nat) (other : Booking), k < j → bookings[j]? = some other → other.destinationID = id →
      other.released ≠ some true

variable (quotient : Rat → Duration)

/-- From here on every permit for the destination comes at least `d` after the newest booking. -/
def Heeded (history : List Label) (desk : Desk) (id : String) (d : Duration) : Prop :=
  ∀ later desk', LabelledRun.Run (Step quotient) desk later desk' → ∀ now version, desk'.clock ≤ now →
    version.destinationID = id → (desk'.limiter.tryAcquire quotient now version).1.isSome = true →
    ∀ booking, Newest id (bookings quotient (later ++ history)) booking → booking.grantedAt + d ≤ now

/-- The version is no stricter than what the exposed bookings were made with, or they are older than its interval. -/
def Settled (history : List Label) (now : GoTime) (destination : DestinationVersion) : Prop :=
  ∀ booking, Exposed destination.destinationID (bookings quotient history) booking →
    versionInterval quotient destination ≤ booking.interval ∨
      booking.grantedAt + versionInterval quotient destination ≤ now

structure Evolves (old new : Booking) : Prop where
  destinationID : new.destinationID = old.destinationID
  grantedAt : new.grantedAt = old.grantedAt
  interval : new.interval = old.interval
  released : old.released ≠ none → new.released = old.released

variable {quotient} {history later : List Label} {desk desk' : Desk} {label : Label} {first now : GoTime}
  {destination : DestinationVersion} {old new booking : Booking}

theorem Evolves.refl (booking : Booking) : Evolves booking booking := ⟨rfl, rfl, rfl, fun _ => rfl⟩

theorem evolves_release (claimed : Bool) : Evolves booking (booking.release claimed) := by
  refine ⟨rfl, rfl, rfl, fun hReleased => ?_⟩
  rw [Booking.release_of_released (Option.isSome_iff_ne_none.mpr hReleased)]

theorem Evolves.trans {last : Booking} (h : Evolves old new) (hLater : Evolves new last) : Evolves old last where
  destinationID := hLater.destinationID.trans h.destinationID
  grantedAt := hLater.grantedAt.trans h.grantedAt
  interval := hLater.interval.trans h.interval
  released hReleased := by
    have hSame := h.released hReleased
    exact (hLater.released (hSame ▸ hReleased)).trans hSame

theorem Evolves.kept (h : Evolves old new) (hKept : new.kept) : old.kept := by
  intro hBack
  exact hKept ((h.released (by simp [hBack])).trans hBack)

theorem versionInterval_le {version : DestinationVersion}
    (h : version ∈ destination :: observed destination.destinationID history) :
    versionInterval quotient version ≤ intervalInForce quotient destination history := by
  unfold intervalInForce
  generalize observed destination.destinationID history = seen at h ⊢
  induction seen with
  | nil => exact (List.mem_singleton.mp h ▸ le_rfl)
  | cons other rest ih =>
    rw [List.foldr_cons]
    rcases List.mem_cons.mp h with rfl | hSeen
    · exact (ih List.mem_cons_self).trans (le_max_right _ _)
    rcases List.mem_cons.mp hSeen with rfl | hRest
    · exact le_max_left _ _
    · exact (ih (List.mem_cons_of_mem _ hRest)).trans (le_max_right _ _)

theorem mem_observed_append {id : String} {version : DestinationVersion} (h : version ∈ observed id history) :
    version ∈ observed id (later ++ history) := by
  rw [observed, List.filterMap_append]
  exact List.mem_append_right _ h

/-- Bookings keep their places, and those that are added have every interval observed before in force. -/
structure Prolongs (quotient : Rat → Duration) (history : List Label) (olds news : List Booking) : Prop where
  old : ∀ (k : Nat) (old : Booking), olds[k]? = some old → ∃ new, news[k]? = some new ∧ Evolves old new
  new : ∀ (k : Nat) (new : Booking), news[k]? = some new → (∃ old, olds[k]? = some old ∧ Evolves old new) ∨
    ∀ version ∈ observed new.destinationID history, versionInterval quotient version ≤ new.interval

theorem Prolongs.grant {olds news : List Booking} (h : Prolongs quotient history olds news)
    (hNew : ∀ version ∈ observed booking.destinationID history, versionInterval quotient version ≤ booking.interval) :
    Prolongs quotient history olds (news ++ [booking]) where
  old k old hOld := by
    obtain ⟨new, hFound, hEvolves⟩ := h.old k old hOld
    refine ⟨new, ?_, hEvolves⟩
    rw [List.getElem?_append_left (List.getElem?_eq_some_iff.mp hFound).1]
    exact hFound
  new k new hFound := by
    rw [List.getElem?_append] at hFound
    split at hFound
    · exact h.new k new hFound
    · rw [List.mem_singleton.mp (List.mem_of_getElem? hFound)]
      exact .inr hNew

theorem Prolongs.release {olds news : List Booking} (h : Prolongs quotient history olds news) (index : Nat)
    (claimed : Bool) : Prolongs quotient history olds (news.modify index (Booking.release claimed)) where
  old k old hOld := by
    obtain ⟨new, hFound, hEvolves⟩ := h.old k old hOld
    rw [List.getElem?_modify, hFound]
    by_cases hHere : index = k
    · exact ⟨new.release claimed, by simp [hHere], hEvolves.trans (evolves_release claimed)⟩
    · exact ⟨new, by simp [hHere], hEvolves⟩
  new k new hFound := by
    rw [List.getElem?_modify] at hFound
    obtain ⟨before, hBefore, rfl⟩ := Option.map_eq_some_iff.mp hFound
    have hEvolves : Evolves before (if index = k then before.release claimed else before) := by
      split
      · exact evolves_release claimed
      · exact .refl before
    rcases h.new k before hBefore with ⟨old, hOld, hOlder⟩ | hNew
    · exact .inl ⟨old, hOld, hOlder.trans hEvolves⟩
    · rw [hEvolves.destinationID, hEvolves.interval]
      exact .inr hNew

theorem prolongs_of_run (history : List Label) (h : LabelledRun.Run (Step quotient) desk later desk') :
    Prolongs quotient history (bookings quotient history) (bookings quotient (later ++ history)) ∧
      desk.clock ≤ desk'.clock := by
  induction h with
  | refl => exact ⟨⟨fun _ old hOld => ⟨old, hOld, .refl old⟩, fun _ new hNew => .inl ⟨new, hNew, .refl new⟩⟩, le_rfl⟩
  | @next later desk' desk'' label _ hStep ih =>
    cases hStep with
    | @tryAcquire now destination reply _ hClock _ =>
      refine ⟨?_, ih.2.trans hClock⟩
      rw [List.cons_append, bookings]
      split
      · refine ih.1.grant fun version hVersion => ?_
        exact versionInterval_le (List.mem_cons_of_mem _ (mem_observed_append hVersion))
      · exact ih.1
    | @release index _ _ claimed => exact ⟨ih.1.release index claimed, ih.2⟩

theorem Sound.length_permits {pairs : List (Permit × Booking)} (h : Sound quotient history desk pairs) :
    desk.permits.length = (bookings quotient history).length := by
  rw [h.permits, h.booked, List.length_map, List.length_map]

theorem getElem?_bookings_tryAcquire {granted : Bool} {k : Nat}
    (h : (bookings quotient (.tryAcquire now destination granted :: history))[k]? = some booking) :
    (bookings quotient history)[k]? = some booking ∨
      (bookings quotient history).length ≤ k ∧ booking.released = none ∧
        versionInterval quotient destination ≤ booking.interval := by
  rw [bookings] at h
  split at h
  · rw [List.getElem?_append] at h
    split at h
    · exact .inl h
    · rename_i hBehind
      rw [List.mem_singleton.mp (List.mem_of_getElem? h)]
      exact .inr ⟨not_lt.mp hBehind, rfl, versionInterval_le List.mem_cons_self⟩
  · exact .inl h

theorem getElem?_bookings_of_some (now : GoTime) (destination : DestinationVersion) (granted : Bool) {k : Nat}
    (h : (bookings quotient history)[k]? = some booking) :
    (bookings quotient (.tryAcquire now destination granted :: history))[k]? = some booking := by
  rw [bookings]
  split
  · rw [List.getElem?_append_left (List.getElem?_eq_some_iff.mp h).1]
    exact h
  · exact h

theorem Settled.heeded (h : Run quotient first history desk) (hFirst : zeroTime ≤ first) {granted : Bool}
    (hStep : Step quotient desk (.tryAcquire now destination granted) desk')
    (hSettled : Settled quotient history now destination) :
    Heeded quotient (.tryAcquire now destination granted :: history) desk' destination.destinationID
      (versionInterval quotient destination) := by
  intro later desk'' hLater t version hClock hID hGranted booking hNewest
  have hRun : Run quotient first (later ++ .tryAcquire now destination granted :: history) desk'' :=
    (LabelledRun.Run.next h hStep).trans hLater
  obtain ⟨pairs, hSound⟩ := hRun.sound hFirst
  obtain ⟨k, hFound, hOwn, hKept, hBehind⟩ := hNewest
  have hDue := (hSound.due_iff hClock).mp (tryAcquire_isSome_iff.mp hGranted).2 booking (List.mem_of_getElem? hFound)
    (hOwn.trans hID.symm) hKept
  obtain ⟨hProlongs, hLate⟩ := prolongs_of_run (.tryAcquire now destination granted :: history) hLater
  -- a booking with the interval in force is kept apart by the limiter itself
  have hLong (hInterval : versionInterval quotient destination ≤ booking.interval) :
      booking.grantedAt + versionInterval quotient destination ≤ t :=
    (Int.add_le_add_left hInterval _).trans hDue
  rcases hProlongs.new k booking hFound with ⟨old, hOld, hEvolves⟩ | hNew
  · rcases getElem?_bookings_tryAcquire hOld with hBefore | ⟨_, _, hInterval⟩
    · have hExposed : Exposed destination.destinationID (bookings quotient history) old := by
        refine ⟨k, hBefore, hEvolves.destinationID.symm.trans hOwn, hEvolves.kept hKept, ?_⟩
        intro j other hj hOther hSame hStays
        obtain ⟨last, hLast, hOtherEvolves⟩ := hProlongs.old j other
          (getElem?_bookings_of_some now destination granted hOther)
        refine hBehind j last hj hLast (hOtherEvolves.destinationID.trans hSame) ?_
        simp [Booking.kept, hOtherEvolves.released (by simp [hStays]), hStays]
      rcases hSettled old hExposed with hInterval | hPast
      · exact hLong (hEvolves.interval ▸ hInterval)
      · have hNow : now ≤ desk'.clock := by
          cases hStep
          exact le_rfl
        rw [hEvolves.grantedAt]
        exact hPast.trans ((hNow.trans hLate).trans hClock)
    · exact hLong (hEvolves.interval ▸ hInterval)
  · refine hLong (hNew destination ?_)
    rw [hOwn, observed_cons]
    simp [Label.versionOf]

/-! ## The permit that comes too early -/

/-- The first `n` permits can be released one after the other, each with the outcome that is chosen for it. -/
theorem exists_releases (history : List Label) (claimed : Nat → Bool) {n : Nat} (hLength : n ≤ desk.permits.length) :
    ∃ later desk', LabelledRun.Run (Step quotient) desk later desk' ∧ desk'.clock = desk.clock ∧
      desk'.permits.length = desk.permits.length ∧
      ∀ k, (bookings quotient (later ++ history))[k]? = (bookings quotient history)[k]?.map fun booking =>
        if k < n then booking.release (claimed k) else booking := by
  induction n with
  | zero => exact ⟨[], desk, .refl, rfl, rfl, fun k => by simp⟩
  | succ n ih =>
    obtain ⟨later, desk', hRun, hClock, hPermits, hBookings⟩ := ih (Nat.le_of_succ_le hLength)
    have hBound : n < desk'.permits.length := hPermits ▸ hLength
    refine ⟨.release n (claimed n) :: later, _, hRun.next (.release (List.getElem?_eq_getElem hBound) rfl), hClock,
      (List.length_set ..).trans hPermits, fun k => ?_⟩
    rw [List.cons_append, bookings, List.getElem?_modify, hBookings, Option.map_eq_map, Option.map_map]
    refine congrArg (Option.map · _) (funext fun booking => ?_)
    by_cases hHere : n = k
    · simp [hHere]
    · have hLess : k < n + 1 ↔ k < n := by
        omega
      simp [hHere, hLess]

theorem one_le_effectiveConcurrency (destination : DestinationVersion) : 1 ≤ effectiveConcurrency destination := by
  unfold effectiveConcurrency
  split <;> omega

theorem one_le_smallestConcurrency : 1 ≤ smallestConcurrency destination history := by
  unfold smallestConcurrency
  induction observed destination.destinationID history with
  | nil => exact one_le_effectiveConcurrency destination
  | cons version rest ih => exact le_min (one_le_effectiveConcurrency version) ih

theorem Sound.reservedUntil_le {pairs : List (Permit × Booking)} (h : Sound quotient history desk pairs)
    {i j : Nat} (hij : i < j) (hOld : (bookings quotient history)[i]? = some old)
    (hNew : (bookings quotient history)[j]? = some new) (hSame : new.destinationID = old.destinationID)
    (hKept : old.kept) : old.reservedUntil ≤ desk.clock := by
  rw [h.booked, List.getElem?_map] at hOld hNew
  obtain ⟨a, ha, rfl⟩ := Option.map_eq_some_iff.mp hOld
  obtain ⟨b, hb, rfl⟩ := Option.map_eq_some_iff.mp hNew
  obtain ⟨hi, rfl⟩ := List.getElem?_eq_some_iff.mp ha
  obtain ⟨hj, rfl⟩ := List.getElem?_eq_some_iff.mp hb
  exact List.pairwise_iff_getElem.mp h.passed i j hi hj hij hSame hKept

theorem Booking.released_release (claimed : Bool) : (booking.release claimed).released ≠ none := by
  cases hReleased : booking.released <;> simp [Booking.release, hReleased]

theorem Booking.kept_release_true : (booking.release true).kept ↔ booking.kept := by
  cases hReleased : booking.released <;> simp [Booking.release, Booking.kept, hReleased]

theorem Booking.not_kept_release_false (h : booking.released ≠ some true) : ¬(booking.release false).kept := by
  rcases hReleased : booking.released with _ | _ | _
  · simp [Booking.release, Booking.kept, hReleased]
  · simp [Booking.release, Booking.kept, hReleased]
  · exact absurd hReleased h

/-- The permits behind an exposed booking can be rolled back and all others released. Then the booking is the newest,
and what else is kept for the destination is past. -/
theorem exists_rollback {id : String} (h : Run quotient first history desk) (hFirst : zeroTime ≤ first)
    (hExposed : Exposed id (bookings quotient history) booking) :
    ∃ later desk', LabelledRun.Run (Step quotient) desk later desk' ∧ desk'.clock = desk.clock ∧
      unreleased id (bookings quotient (later ++ history)) = 0 ∧
      Newest id (bookings quotient (later ++ history)) (booking.release true) ∧
      ∀ last ∈ bookings quotient (later ++ history), last.destinationID = id → last.kept →
        last.reservedUntil ≤ max desk.clock booking.reservedUntil := by
  obtain ⟨k, hFound, hOwn, hKept, hBehind⟩ := hExposed
  obtain ⟨pairs, hSound⟩ := h.sound hFirst
  obtain ⟨later, desk', hRun, hClock, _, hReleases⟩ :=
    exists_releases history (fun i => decide (i ≤ k)) (le_refl desk.permits.length)
  have hFinal {i : Nat} {last : Booking} (hLast : (bookings quotient (later ++ history))[i]? = some last) :
      ∃ before, (bookings quotient history)[i]? = some before ∧ last = before.release (decide (i ≤ k)) := by
    rw [hReleases] at hLast
    obtain ⟨before, hBefore, rfl⟩ := Option.map_eq_some_iff.mp hLast
    refine ⟨before, hBefore, if_pos ?_⟩
    rw [hSound.length_permits]
    exact (List.getElem?_eq_some_iff.mp hBefore).1
  have hBackedOut {i : Nat} {last : Booking} (hi : k < i)
      (hLast : (bookings quotient (later ++ history))[i]? = some last) (hSame : last.destinationID = id) :
      ¬last.kept := by
    obtain ⟨before, hBefore, rfl⟩ := hFinal hLast
    rw [decide_eq_false (not_le.mpr hi)]
    exact Booking.not_kept_release_false (hBehind i before hi hBefore hSame)
  refine ⟨later, desk', hRun, hClock, ?_, ⟨k, ?_, hOwn, Booking.kept_release_true.mpr hKept, ?_⟩, ?_⟩
  · refine List.countP_eq_zero.mpr fun last hLast => ?_
    obtain ⟨i, hi⟩ := List.mem_iff_getElem?.mp hLast
    obtain ⟨before, _, rfl⟩ := hFinal hi
    simp [Booking.released_release]
  · rw [hReleases, hFound, Option.map_some, if_pos, decide_eq_true le_rfl]
    rw [hSound.length_permits]
    exact (List.getElem?_eq_some_iff.mp hFound).1
  · intro j last hj hLast hSame
    exact hBackedOut hj hLast hSame
  · intro last hLast hSame hLastKept
    obtain ⟨i, hi⟩ := List.mem_iff_getElem?.mp hLast
    rcases lt_trichotomy i k with hLess | rfl | hMore
    · obtain ⟨before, hBefore, rfl⟩ := hFinal hi
      rw [decide_eq_true hLess.le, Booking.kept_release_true] at hLastKept
      exact (hSound.reservedUntil_le hLess hBefore hFound (hOwn.trans hSame.symm) hLastKept).trans (le_max_left _ _)
    · obtain ⟨before, hBefore, rfl⟩ := hFinal hi
      cases hBefore.symm.trans hFound
      exact le_max_right _ _
    · exact absurd hLastKept (hBackedOut hMore hi hSame)

theorem Exposed.tryAcquire {granted : Bool}
    (h : Exposed destination.destinationID (bookings quotient history) booking) :
    Exposed destination.destinationID (bookings quotient (.tryAcquire now destination granted :: history)) booking := by
  obtain ⟨k, hFound, hOwn, hKept, hBehind⟩ := h
  refine ⟨k, getElem?_bookings_of_some now destination granted hFound, hOwn, hKept, fun j other hj hOther hSame => ?_⟩
  rcases getElem?_bookings_tryAcquire hOther with hOld | ⟨_, hNew, _⟩
  · exact hBehind j other hj hOld hSame
  · simp [hNew]

/-- If the permits behind an exposed booking are rolled back, the next request is admitted as soon as the booking's own
interval has passed. -/
theorem Heeded.settled (h : Run quotient first history desk) (hFirst : zeroTime ≤ first) {granted : Bool}
    (hStep : Step quotient desk (.tryAcquire now destination granted) desk')
    (hHeeded : Heeded quotient (.tryAcquire now destination granted :: history) desk' destination.destinationID
      (versionInterval quotient destination)) : Settled quotient history now destination := by
  intro booking hExposed
  by_contra hNot
  obtain ⟨hLonger, hRecent⟩ := not_or.mp hNot
  have hAsked : Run quotient first (.tryAcquire now destination granted :: history) desk' := h.next hStep
  have hClock : desk'.clock = now := by
    cases hStep
    rfl
  obtain ⟨later, desk'', hRun, hSameClock, hNone, hNewest, hPast⟩ := exists_rollback hAsked hFirst hExposed.tryAcquire
  rw [hClock] at hSameClock hPast
  obtain ⟨pairs, hSound⟩ := Run.sound (hAsked.trans hRun) hFirst
  have hLater : desk''.clock ≤ max now booking.reservedUntil := hSameClock.trans_le (le_max_left _ _)
  have hGranted : (desk''.limiter.tryAcquire quotient (max now booking.reservedUntil) destination).1.isSome = true := by
    refine tryAcquire_isSome_iff.mpr ⟨hSound.room_iff.mpr ?_, (hSound.due_iff hLater).mpr hPast⟩
    rw [hNone]
    exact one_le_smallestConcurrency
  have hEarly : booking.grantedAt + versionInterval quotient destination ≤ max now booking.reservedUntil :=
    hHeeded later desk'' hRun _ destination hLater rfl hGranted (booking.release true) hNewest
  rcases le_max_iff.mp hEarly with hOver | hReserved
  · exact hRecent hOver
  · exact hLonger (Int.le_of_add_le_add_left hReserved)

/-- An observed interval is kept from then on, whatever the callers do, if and only if no exposed booking is both
younger than the interval and made with a shorter one. -/
theorem tightened_rate_exact (h : Run quotient first history desk) (hFirst : zeroTime ≤ first) {granted : Bool}
    (hStep : Step quotient desk (.tryAcquire now destination granted) desk') :
    Heeded quotient (.tryAcquire now destination granted :: history) desk' destination.destinationID
        (versionInterval quotient destination) ↔
      Settled quotient history now destination :=
  ⟨Heeded.settled h hFirst hStep, Settled.heeded h hFirst hStep⟩

theorem step_tryAcquire (desk : Desk) (now : GoTime) (destination : DestinationVersion) (hClock : desk.clock ≤ now) :
    Step quotient desk (.tryAcquire now destination (desk.limiter.tryAcquire quotient now destination).1.isSome)
      ⟨(desk.limiter.tryAcquire quotient now destination).2,
        desk.permits ++ (desk.limiter.tryAcquire quotient now destination).1.toList, now⟩ :=
  .tryAcquire hClock rfl

namespace Sample

/-- The quotient for rates that divide a second. -/
def wholeQuotient (rate : Rat) : Duration := 1000000000 / rate.num

/-- A version that allows one request in a second, after one that allowed ten. -/
def strict : DestinationVersion := { ReliableNotifier.Sample.destination with version := 2, ratePerSecond := 1 }

/-- A permit under the first version. -/
def oneOut : Desk :=
  ⟨(Limiter.new.tryAcquire wholeQuotient 8000 ReliableNotifier.Sample.destination).2,
    (Limiter.new.tryAcquire wholeQuotient 8000 ReliableNotifier.Sample.destination).1.toList, 8000⟩

theorem run_oneOut : Run wholeQuotient 8000 [.tryAcquire 8000 ReliableNotifier.Sample.destination true] oneOut :=
  LabelledRun.Run.refl.next
    (step_tryAcquire ⟨.new, [], 8000⟩ 8000 ReliableNotifier.Sample.destination le_rfl)

end Sample

/-- The stricter version is observed a second after the last permit, so every later permit heeds it. -/
theorem tightened_rate_exact_settled :
    ∃ (history : List Label) (desk : Desk), Run Sample.wholeQuotient 8000 history desk ∧
      Sample.strict ∈ observed "orders" history ∧ Heeded Sample.wholeQuotient history desk "orders" 1000000000 := by
  have hStep := @step_tryAcquire Sample.wholeQuotient Sample.oneOut 1000008000 Sample.strict (by decide)
  refine ⟨_, _, Sample.run_oneOut.next hStep, List.mem_of_getElem? (i := 0) rfl,
    (tightened_rate_exact Sample.run_oneOut (by decide) hStep).mpr ?_⟩
  rintro booking ⟨k, hFound, _⟩
  have hOnly : booking = ⟨"orders", 8000, 100000000, none⟩ := List.mem_singleton.mp (List.mem_of_getElem? hFound)
  rw [hOnly]
  exact .inr (by decide +kernel)

/-- The stricter version is observed and refused, and granted a tenth of a second after the last permit. -/
theorem tightened_rate_ignored :
    ∃ (history : List Label) (desk : Desk), Run Sample.wholeQuotient 8000 history desk ∧
      Sample.strict ∈ observed "orders" history ∧ desk.clock ≤ 100008000 ∧
      (desk.limiter.tryAcquire Sample.wholeQuotient 100008000 Sample.strict).1.isSome = true ∧
      ∃ booking, Newest "orders" (bookings Sample.wholeQuotient history) booking ∧
        100008000 < booking.grantedAt + versionInterval Sample.wholeQuotient Sample.strict := by
  have h := Sample.run_oneOut.next (step_tryAcquire Sample.oneOut 9000 Sample.strict (by decide))
  have hBookings : bookings Sample.wholeQuotient [.tryAcquire 9000 Sample.strict false,
      .tryAcquire 8000 ReliableNotifier.Sample.destination true] = [⟨"orders", 8000, 100000000, none⟩] := by
    decide +kernel
  refine ⟨_, _, h, List.mem_of_getElem? (i := 0) rfl, by decide, by decide +kernel,
    ⟨"orders", 8000, 100000000, none⟩,
    ⟨0, congrArg (·[0]?) hBookings, rfl, by decide, fun j other hj hOther => ?_⟩, by decide +kernel⟩
  have hBound := (List.getElem?_eq_some_iff.mp ((congrArg (·[j]?) hBookings).symm.trans hOther)).1
  rw [List.length_singleton] at hBound
  omega

end ReliableNotifier.Bookings
