import ReliableNotifier.Lifecycle.Events
import ReliableNotifier.System.Execution

/-! # Publications of outbox rows

A publisher marks a row only while the row still carries the token of its own claim.
Tokens are never reused, so the row then holds what the publisher read when it
claimed it, and the signal the broker confirmed since is the row's own.
-/

namespace ReliableNotifier

open Checked RowTable

variable {setting : Setting} {history : List Label} {w w' : System} {s s' : Shared} {label : Label} {r : Readings}

/-- Apart from a claim, an operation can only take a token away. -/
theorem EventMove.token {op : Op} {row : DeliveryRow} {event event' : OutboxEventRow} {token : UUID}
    (h : EventMove r row op event event')
    (hOp : ∀ owner leaseDuration limit locked token, op ≠ .claimOutbox owner leaseDuration limit locked token)
    (hToken : event'.leaseToken = some token) :
    event.leaseToken = some token ∧ event'.id = event.id ∧ event'.signal = event.signal := by
  cases h with
  | keep => exact ⟨hToken, rfl, rfl⟩
  | claim => exact absurd rfl (hOp _ _ _ _ _)
  | mark | release => cases hToken
  | observe => exact ⟨hToken, rfl, rfl⟩
  | reset _ _ _ _ hLease =>
    rw [show event.leaseToken = some token from hToken] at hLease
    cases hLease

theorem Store.Step.claimOutbox_events {s t : Store} {owner : String} {leaseDuration : Duration} {limit : Int}
    {locked : UUID → Bool} {token : UUID}
    (h : Step s (.commit r (.claimOutbox owner leaseDuration limit locked token)) t) :
    t.db.outboxEvents = updateWhere
      (fun row => (outboxCandidates r limit locked s.db).any fun candidate => candidate.id = row.id)
      (OutboxEventRow.claim r owner token leaseDuration) s.db.outboxEvents := by
  obtain ⟨⟨reply, final⟩, hClaim, hFinal⟩ := map_ok_iff.mp h.applied.1
  obtain ⟨_, hUpdate, _⟩ := claimOutbox_ok hClaim
  rw [← hFinal]
  exact congrArg Database.outboxEvents (Database.updateEvents_ok hUpdate).2

namespace Label

/-- The rows a committed claim handed out, whether or not the reply arrived. -/
def grants : Label → List OutboxEvent
  | commit _ r (.claimOutbox owner _ limit locked token) before =>
    (before.outboxEvents.filter fun row =>
      (outboxCandidates r limit locked before).any fun candidate => candidate.id = row.id).map
        (OutboxEventRow.load owner token)
  | _ => []

def outboxToken : Label → Option UUID
  | commit _ _ (.claimOutbox _ _ _ _ token) _ => some token
  | _ => none

/-- The claim with the given token, and what happened since. -/
def claimOf (token : UUID) (history : List Label) : Option Label :=
  history.find? fun label => label.outboxToken = some token

def since (token : UUID) (history : List Label) : List Label :=
  history.takeWhile fun label => label.outboxToken ≠ some token

theorem claimOf_cons_of_ne {token : UUID} (h : label.outboxToken ≠ some token) :
    claimOf token (label :: history) = claimOf token history :=
  List.find?_cons_of_neg (by simpa using h)

theorem since_cons_of_ne {token : UUID} (h : label.outboxToken ≠ some token) :
    since token (label :: history) = label :: since token history :=
  List.takeWhile_cons_of_pos (by simpa using h)

theorem split_at_claim {token : UUID} {claim : Label} (h : claimOf token history = some claim) :
    ∃ earlier, history = since token history ++ claim :: earlier := by
  induction history with
  | nil => cases h
  | cons label history ih =>
    by_cases hHere : label.outboxToken = some token
    · obtain rfl : label = claim := by simpa [claimOf, hHere] using h
      exact ⟨history, by simp [since, hHere]⟩
    · obtain ⟨earlier, hSplit⟩ := ih (claimOf_cons_of_ne hHere ▸ h)
      refine ⟨earlier, ?_⟩
      rw [since_cons_of_ne hHere, List.cons_append, ← hSplit]

end Label

namespace Process

/-- The claimed events a process still works on. -/
def held : Process → List OutboxEvent
  | publisher cycle => cycle.events
  | _ => []

/-- The event whose signal was confirmed and that is to be marked next. -/
def toMark : Process → Option OutboxEvent
  | publisher (.marking _ event _) => some event
  | _ => none

theorem held_publish (published : Nat) (events : List OutboxEvent) :
    held (.publisher (.publish published events)) ⊆ events ∧
      toMark (.publisher (.publish published events)) = none := by
  cases events <;> exact ⟨List.Subset.refl _, rfl⟩

theorem held_releaseRemaining (published : Nat) (events : List OutboxEvent) :
    held (.publisher (.releaseRemaining published events)) ⊆ events ∧
      toMark (.publisher (.releaseRemaining published events)) = none := by
  cases events <;> exact ⟨List.Subset.refl _, rfl⟩

theorem held_afterMark (published : Nat) (event : OutboxEvent) (rest : List OutboxEvent)
    (reply : Except StoreError Unit) :
    held (.publisher (.afterMark published event rest reply)) ⊆ event :: rest ∧
      toMark (.publisher (.afterMark published event rest reply)) = none := by
  cases reply with
  | error _ =>
    exact held_releaseRemaining published (event :: rest)
  | ok _ =>
    obtain ⟨hHeld, hMark⟩ := held_publish (published + 1) rest
    exact ⟨List.Subset.trans hHeld (List.subset_cons_self _ _), hMark⟩

end Process

/-- The steps of a process, as far as claims, publications and marks of outbox rows go. -/
inductive Act.Publication (i : Nat) (before : Database) : Process → Label → Process → Prop
  | claimed {r : Readings} {x x' : Process} {owner : String} {leaseDuration : Duration} {limit : Int}
      {locked : UUID → Bool} {token : UUID}
      (hHeld : x'.held ⊆
        Label.grants (.commit (some i) r (.claimOutbox owner leaseDuration limit locked token) before))
      (hMark : x'.toMark = none) :
      Publication i before x (.commit (some i) r (.claimOutbox owner leaseDuration limit locked token) before) x'
  | confirmed {published : Nat} {event : OutboxEvent} {rest : List OutboxEvent} :
      Publication i before (.publisher (.publishing published event rest)) (.publish i event.signal)
        (.publisher (.marking published event rest))
  | other {x x' : Process} {label : Label} (hToken : label.outboxToken = none) (hHeld : x'.held ⊆ x.held)
      (hMark : x'.toMark = none)
      (hMarks : ∀ actor r event before, label = .commit actor r (.markOutboxPublished event) before →
        actor = some i ∧ x.toMark = some event) :
      Publication i before x label x'

/-- A step of a process that is no publisher and does not become one. -/
theorem Act.Publication.elsewhere {i : Nat} {before : Database} {x x' : Process} (hToken : label.outboxToken = none)
    (hHeld : x'.held = []) (hMark : x'.toMark = none)
    (hMarks : ∀ actor r event before, label ≠ .commit actor r (.markOutboxPublished event) before) :
    Act.Publication i before x label x' :=
  .other hToken (hHeld ▸ List.nil_subset _) hMark fun _ _ _ _ h => absurd h (hMarks _ _ _ _)

theorem Act.Publication.mark {i : Nat} {before db : Database} {x x' : Process} {actor : Option Nat}
    {event : OutboxEvent}
    (h : Act.Publication i before x (.commit actor r (.markOutboxPublished event) db) x') :
    actor = some i ∧ x.toMark = some event := by
  cases h with
  | other _ _ _ hMarks => exact hMarks _ _ _ _ rfl

/-- What a process holds, it held before or is handed out by the step. -/
theorem Act.Publication.granted {i : Nat} {before : Database} {x x' : Process} {event : OutboxEvent}
    (h : Act.Publication i before x label x') (hEvent : event ∈ x'.held) : event ∈ label.grants ∨ event ∈ x.held := by
  cases h with
  | claimed hHeld _ => exact .inl (hHeld hEvent)
  | confirmed => exact .inr hEvent
  | other _ hHeld _ _ => exact .inr (hHeld hEvent)

theorem Served.unmarked {β : Type} {s t : Store} {op : Op} {answer : Readings → Except StoreError β}
    {reply : Except StoreError β} {action : Store.Action} {actor : Option Nat} {before : Database}
    (h : Served s op answer reply action t)
    (hToken : ∀ actor r before, (Label.commit actor r op before).outboxToken = none)
    (hMark : ∀ event, op ≠ .markOutboxPublished event) :
    (Label.of actor before action).outboxToken = none ∧
      ∀ actor' r event db, Label.of actor before action ≠ .commit actor' r (.markOutboxPublished event) db := by
  obtain ⟨_, rfl | ⟨r, rfl⟩⟩ := h.action
  · exact ⟨rfl, fun _ _ _ _ h => by cases h⟩
  · refine ⟨hToken _ _ _, fun _ _ event _ h => ?_⟩
    cases h
    exact hMark event rfl

theorem Act.publication {i : Nat} {x x' : Process} (h : Act setting i s x label s' x') :
    Act.Publication i s.store.db x label x' := by
  cases h with
  | receive | check | acquire | send | defer | undeferred | ack | nack | crash =>
    exact .elsewhere rfl rfl rfl fun _ _ _ _ h => by cases h
  | observe hServed | claim hServed | complete hServed =>
    obtain ⟨hToken, hMarks⟩ := hServed.unmarked (fun _ _ _ => rfl) (fun _ h => by cases h)
    exact .elsewhere hToken rfl rfl hMarks
  | claimOutbox hServed =>
    cases hServed with
    | @done r t events hStep hAnswer =>
      obtain ⟨⟨reply, final⟩, hClaim, rfl⟩ := map_ok_iff.mp hAnswer
      obtain ⟨_, _, rfl⟩ := claimOutbox_ok hClaim
      obtain ⟨hHeld, hMark⟩ := Process.held_publish 0 _
      exact .claimed hHeld hMark
    | lost => exact .claimed (List.nil_subset _) rfl
    | refused | down => exact .elsewhere rfl rfl rfl fun _ _ _ _ h => by cases h
  | publish => exact .confirmed
  | @unpublished published event rest _ =>
    obtain ⟨hHeld, hMark⟩ := Process.held_releaseRemaining published (event :: rest)
    exact .other rfl hHeld hMark fun _ _ _ _ h => by cases h
  | @mark published event rest reply _ _ hServed =>
    obtain ⟨hHeld, hMark⟩ := Process.held_afterMark published event rest reply
    obtain ⟨_, rfl | ⟨r, rfl⟩⟩ := hServed.action
    · exact .other rfl hHeld hMark fun _ _ _ _ h => by cases h
    · refine .other rfl hHeld hMark fun _ _ _ _ h => ?_
      cases h
      exact ⟨rfl, rfl⟩
  | @release published event rest _ _ _ hServed =>
    obtain ⟨hHeld, hMark⟩ := Process.held_releaseRemaining published rest
    obtain ⟨hToken, hMarks⟩ := hServed.unmarked (fun _ _ _ => rfl) (fun _ h => by cases h)
    refine .other hToken (List.Subset.trans hHeld (List.subset_cons_self _ _)) hMark ?_
    exact fun _ _ _ _ h => absurd h (hMarks _ _ _ _)

namespace System

/-- The claims made so far drew their tokens from the store. -/
def TokensIssued (history : List Label) (s : Store) : Prop :=
  ∀ label ∈ history, ∀ token, label.outboxToken = some token → token ∈ s.issued

/-- The row carries the token of the most recent claim on it, and holds what that claim handed out. -/
structure Current (history : List Label) (event : OutboxEventRow) (token : UUID) : Prop where
  claimed : ∃ claim, Label.claimOf token history = some claim ∧
    ∀ held ∈ claim.grants, held.id = event.id → held.signal = event.signal
  latest : ∀ label ∈ Label.since token history, ∀ held ∈ label.grants, held.id ≠ event.id

def RowsCurrent (history : List Label) (db : Database) : Prop :=
  ∀ event ∈ db.outboxEvents, ∀ token, event.leaseToken = some token → Current history event token

/-- What process `i` works on it claimed itself, and what it marks next was confirmed since. -/
structure Working (i : Nat) (history : List Label) (x : Process) : Prop where
  claimed : ∀ held ∈ x.held, ∃ claim, Label.claimOf held.leaseToken history = some claim ∧
    claim.actor = some i ∧ held ∈ claim.grants
  confirmed : ∀ held, x.toMark = some held →
    held ∈ x.held ∧ .publish i held.signal ∈ Label.since held.leaseToken history

variable {i : Nat} {x x' : Process} {token : UUID}

theorem mem_of_claimOf {claim : Label} (h : Label.claimOf token history = some claim) :
    claim ∈ history ∧ claim.outboxToken = some token :=
  ⟨List.mem_of_find?_eq_some h, by simpa using List.find?_some h⟩

/-- A new claim has a token that no claim in the history has. -/
theorem TokensIssued.ne_of_fresh (hTokens : TokensIssued history s.store) {claim : Label}
    (hFresh : ∀ token, label.outboxToken = some token → token ∉ s.store.issued)
    (hClaim : Label.claimOf token history = some claim) : label.outboxToken ≠ some token := by
  intro hSame
  obtain ⟨hMem, hToken⟩ := mem_of_claimOf hClaim
  exact hFresh token hSame (hTokens claim hMem token hToken)

/-- Process `i` made the claim that handed out the event. -/
def HandedTo (i : Nat) (history : List Label) (event : OutboxEvent) : Prop :=
  ∃ claim, Label.claimOf event.leaseToken history = some claim ∧ claim.actor = some i ∧ event ∈ claim.grants

theorem HandedTo.ne {event : OutboxEvent} (h : HandedTo i history event) (hTokens : TokensIssued history s.store)
    (hFresh : ∀ token, label.outboxToken = some token → token ∉ s.store.issued) :
    label.outboxToken ≠ some event.leaseToken := by
  obtain ⟨claim, hClaim, _⟩ := h
  exact hTokens.ne_of_fresh hFresh hClaim

theorem HandedTo.next {event : OutboxEvent} (h : HandedTo i history event)
    (hNe : label.outboxToken ≠ some event.leaseToken) : HandedTo i (label :: history) event := by
  obtain ⟨claim, hClaim, hRest⟩ := h
  exact ⟨claim, by rwa [Label.claimOf_cons_of_ne hNe], hRest⟩

/-- What a process holds after a step it held before, or it made the claim that is the step. -/
theorem handed_of_publication {event : OutboxEvent} {before : Database} (h : Act.Publication i before x label x')
    (hEvent : event ∈ x'.held) : event ∈ x.held ∨ HandedTo i (label :: history) event := by
  cases h with
  | claimed hHeld _ =>
    refine .inr ⟨_, List.find?_cons_of_pos ?_, rfl, hHeld hEvent⟩
    obtain ⟨row, _, rfl⟩ := List.mem_map.mp (hHeld hEvent)
    simp [Label.outboxToken, OutboxEventRow.load]
  | confirmed => exact .inl hEvent
  | other _ hHeld _ _ => exact .inl (hHeld hEvent)

theorem Working.next (h : Working i history x) (hTokens : TokensIssued history s.store)
    (hFresh : ∀ token, label.outboxToken = some token → token ∉ s.store.issued) :
    Working i (label :: history) x := by
  have hNe (held : OutboxEvent) (hHeld : held ∈ x.held) : label.outboxToken ≠ some held.leaseToken :=
    HandedTo.ne (h.claimed held hHeld) hTokens hFresh
  constructor
  · intro held hHeld
    exact HandedTo.next (h.claimed held hHeld) (hNe held hHeld)
  · intro held hMark
    obtain ⟨hHeld, hConfirmed⟩ := h.confirmed held hMark
    rw [Label.since_cons_of_ne (hNe held hHeld)]
    exact ⟨hHeld, List.mem_cons_of_mem _ hConfirmed⟩

theorem Current.next {event : OutboxEventRow} (h : Current history event token)
    (hTokens : TokensIssued history s.store)
    (hFresh : ∀ token, label.outboxToken = some token → token ∉ s.store.issued)
    (hOther : ∀ held ∈ label.grants, held.id ≠ event.id) : Current (label :: history) event token := by
  obtain ⟨claim, hClaim, hSignal⟩ := h.claimed
  have hNe := hTokens.ne_of_fresh hFresh hClaim
  constructor
  · exact ⟨claim, by rwa [Label.claimOf_cons_of_ne hNe], hSignal⟩
  · rw [Label.since_cons_of_ne hNe]
    exact List.forall_mem_cons.mpr ⟨hOther, h.latest⟩

theorem drawn_of_advances (h : s.Advances s' label) (hToken : label.outboxToken = some token) :
    token ∉ s.store.issued ∧ token ∈ s'.store.issued := by
  unfold Label.outboxToken at hToken
  split at hToken
  · cases hToken
    cases h with
    | commit hStep => exact hStep.drawn (List.mem_singleton_self _)
    | keep hLabel _ => exact absurd rfl (hLabel _ _ _ _)
  · cases hToken

theorem TokensIssued.next (hTokens : TokensIssued history s.store) (h : s.Advances s' label) :
    TokensIssued (label :: history) s'.store := by
  intro other hOther token hToken
  rcases List.mem_cons.mp hOther with rfl | hOld
  · exact (drawn_of_advances h hToken).2
  · obtain ⟨_, hStore⟩ := h.step
    exact hStore.issued_subset (hTokens other hOld token hToken)

theorem Label.grants_eq_nil (h : label.outboxToken = none) : label.grants = [] := by
  unfold Label.outboxToken at h
  split at h
  · cases h
  · unfold Label.grants
    split
    · rename_i hLabel
      exact absurd rfl (hLabel _ _ _ _ _ _ _ _)
    · rfl

/-- A claim moves the rows it hands out to its own token and leaves the others alone. -/
theorem leased_of_claim {actor : Option Nat} {owner : String} {leaseDuration : Duration} {limit : Int}
    {locked : UUID → Bool} {token' : UUID} {event' : OutboxEventRow} (hDb : Integrity s.store.db)
    (hStep : Store.Step s.store (.commit r (.claimOutbox owner leaseDuration limit locked token)) s'.store)
    (hLabel : label = .commit actor r (.claimOutbox owner leaseDuration limit locked token) s.store.db)
    (hEvent' : event' ∈ s'.store.db.outboxEvents) (hToken : event'.leaseToken = some token') :
    (label.outboxToken = some token' ∧ ∀ held ∈ label.grants, held.id = event'.id → held.signal = event'.signal) ∨
    event' ∈ s.store.db.outboxEvents ∧ ∀ held ∈ label.grants, held.id ≠ event'.id := by
  subst hLabel
  rw [hStep.claimOutbox_events, mem_updateWhere] at hEvent'
  obtain ⟨event, hEvent, rfl⟩ := hEvent'
  split at hToken
  · rename_i hChosen
    rw [if_pos hChosen]
    refine .inl ⟨hToken, fun held hHeld hID => ?_⟩
    obtain ⟨row, hRow, rfl⟩ := List.mem_map.mp hHeld
    obtain rfl : row = event := List.inj_on_of_nodup_map hDb.eventIDs (List.mem_of_mem_filter hRow) hEvent hID
    rfl
  · rename_i hNot
    rw [if_neg hNot]
    refine .inr ⟨hEvent, fun held hHeld hID => hNot ?_⟩
    obtain ⟨row, hRow, rfl⟩ := List.mem_map.mp hHeld
    have hChosen := (List.mem_filter.mp hRow).2
    rwa [show row.id = event.id from hID] at hChosen

/-- A row has its token from a claim that hands it out in this step, or had it before. -/
theorem leased_of_advances {event' : OutboxEventRow} (hDb : Integrity s.store.db) (h : s.Advances s' label)
    (hEvent' : event' ∈ s'.store.db.outboxEvents) (hToken : event'.leaseToken = some token) :
    (label.outboxToken = some token ∧ ∀ held ∈ label.grants, held.id = event'.id → held.signal = event'.signal) ∨
    ∃ event ∈ s.store.db.outboxEvents, event.leaseToken = some token ∧ event'.id = event.id ∧
      event'.signal = event.signal ∧ ∀ held ∈ label.grants, held.id ≠ event.id := by
  have hKept (hOld : event' ∈ s.store.db.outboxEvents) (hOther : ∀ held ∈ label.grants, held.id ≠ event'.id) :
      ∃ event ∈ s.store.db.outboxEvents, event.leaseToken = some token ∧ event'.id = event.id ∧
        event'.signal = event.signal ∧ ∀ held ∈ label.grants, held.id ≠ event.id :=
    ⟨event', hOld, hToken, rfl, rfl, hOther⟩
  rcases Option.eq_none_or_eq_some label.outboxToken with hLabel | ⟨claimed, hLabel⟩
  · have hOther (event : OutboxEventRow) : ∀ held ∈ label.grants, held.id ≠ event.id := by
      rw [Label.grants_eq_nil hLabel]
      exact fun _ hHeld => absurd hHeld List.not_mem_nil
    cases h with
    | keep _ hStep => exact .inr (hKept (hStep.waited.1 ▸ hEvent') (hOther event'))
    | commit hStep =>
      rcases hStep.event_origin hDb hEvent' with hOld | ⟨_, _, _, event, hAction, hEvent, _, hMove⟩ | hNew
      · exact .inr (hKept hOld (hOther event'))
      · cases hAction
        obtain ⟨hBefore, hID, hSignal⟩ := hMove.token (fun _ _ _ _ _ h => by cases h; cases hLabel) hToken
        exact .inr ⟨event, hEvent, hBefore, hID, hSignal, hOther event⟩
      · rw [hNew.2.2.1] at hToken
        cases hToken
  · unfold Label.outboxToken at hLabel
    split at hLabel
    · cases h with
      | commit hStep => exact (leased_of_claim hDb hStep rfl hEvent' hToken).imp_right fun h => hKept h.1 h.2
      | keep hKeep _ => exact absurd rfl (hKeep _ _ _ _)
    · cases hLabel

theorem RowsCurrent.next (hDb : Integrity s.store.db) (hTokens : TokensIssued history s.store)
    (hRows : RowsCurrent history s.store.db) (h : s.Advances s' label) :
    RowsCurrent (label :: history) s'.store.db := by
  have hFresh (token : UUID) (hToken : label.outboxToken = some token) := (drawn_of_advances h hToken).1
  intro event' hEvent' token hToken
  rcases leased_of_advances hDb h hEvent' hToken with
    ⟨hHere, hSignals⟩ | ⟨event, hEvent, hBefore, hID, hSignal, hOther⟩
  · exact ⟨⟨label, List.find?_cons_of_pos (by simp [hHere]), hSignals⟩, by simp [Label.since, hHere]⟩
  · obtain ⟨⟨claim, hClaim, hGranted⟩, hLatest⟩ := (hRows event hEvent token hBefore).next hTokens hFresh hOther
    exact ⟨⟨claim, hClaim, by rw [hID, hSignal]; exact hGranted⟩, by rwa [hID]⟩

theorem Working.act (h : Working i history x) (hTokens : TokensIssued history s.store)
    (hFresh : ∀ token, label.outboxToken = some token → token ∉ s.store.issued)
    (hStep : Act.Publication i s.store.db x label x') : Working i (label :: history) x' := by
  have hNext : Working i (label :: history) x := h.next hTokens hFresh
  refine ⟨fun held hHeld => (handed_of_publication hStep hHeld).elim (hNext.claimed held) id, fun held hMark => ?_⟩
  cases hStep with
  | claimed _ hNone | other _ _ hNone _ =>
    rw [hNone] at hMark
    cases hMark
  | confirmed =>
    obtain rfl := Option.some.inj hMark
    refine ⟨List.mem_cons_self, ?_⟩
    rw [Label.since_cons_of_ne (by simp [Label.outboxToken])]
    exact List.mem_cons_self

theorem Run.publication (h : Run setting history w) :
    (TokensIssued history w.shared.store ∧ RowsCurrent history w.shared.store.db) ∧
      ∀ i, Working i history (w.procs i) := by
  refine Run.invariant (G := fun history s => TokensIssued history s.store ∧ RowsCurrent history s.store.db)
    (L := fun i history _ x => Working i history x) ?_ ?_ ?_ ?_ h
  · intro t
    exact ⟨fun _ h => absurd h List.not_mem_nil, fun _ h => absurd h List.not_mem_nil⟩
  · intro i t
    exact ⟨fun _ h => absurd h List.not_mem_nil, fun _ h => by cases h⟩
  · intro history w label s hRun hG hStep
    refine ⟨⟨hG.1.next hStep.advances, hG.2.next hRun.reachable.integrity hG.1 hStep.advances⟩, fun i x hWork => ?_⟩
    exact hWork.next hG.1 fun _ h => (drawn_of_advances hStep.advances h).1
  · intro i history w label s x hRun hG hWork hStep
    have hFresh (token : UUID) (h : label.outboxToken = some token) := (drawn_of_advances hStep.advances h).1
    refine ⟨⟨hG.1.next hStep.advances, hG.2.next hRun.reachable.integrity hG.1 hStep.advances⟩,
      hWork.act hG.1 hFresh hStep.publication, fun j y _ hOther => hOther.next hG.1 hFresh⟩

/-- Only a publisher that is to mark an event marks it. -/
theorem Step.mark_actor {actor : Option Nat} {held : OutboxEvent} {before : Database}
    (h : Step setting w (.commit actor r (.markOutboxPublished held) before) w') :
    ∃ i, actor = some i ∧ (w.procs i).toMark = some held := by
  cases h with
  | env h =>
    cases h with
    | commit hExternal _ => exact hExternal.elim
  | act i h =>
    exact ⟨i, h.publication.mark⟩

/-- The lease a publisher got with a claim was taken over: a later claim handed out the same row. -/
def TakenOver (history : List Label) (held : OutboxEvent) : Prop :=
  ∃ label ∈ Label.since held.leaseToken history, ∃ other ∈ label.grants, other.id = held.id

theorem Run.lease_ne (h : Run setting history w) {held : OutboxEvent} (hTaken : TakenOver history held)
    {event : OutboxEventRow} (hEvent : event ∈ w.shared.store.db.outboxEvents) (hID : event.id = held.id) :
    event.leaseToken ≠ some held.leaseToken := by
  intro hToken
  obtain ⟨label, hLabel, other, hOther, hSame⟩ := hTaken
  exact (h.publication.1.2 event hEvent _ hToken).latest label hLabel other hOther (hSame.trans hID.symm)

theorem Run.not_held (h : Run setting history w) {held : OutboxEvent} (hTaken : TakenOver history held)
    {event : OutboxEventRow} (hEvent : event ∈ w.shared.store.db.outboxEvents) : event.held held ≠ true := by
  intro hHeld
  obtain ⟨hID, _, _, hToken⟩ := OutboxEventRow.held_iff.mp hHeld
  exact h.lease_ne hTaken hEvent hID hToken

theorem Run.mark_refused (h : Run setting history w) {held : OutboxEvent} {actor : Option Nat} {before : Database}
    (hTaken : TakenOver history held) :
    ¬Step setting w (.commit actor r (.markOutboxPublished held) before) w' := by
  intro hStep
  cases hStep.advances with
  | commit hStore =>
    have hCount := (markOutboxPublished_ok hStore.applied.1).2
    rw [List.countP_eq_zero.mpr] at hCount
    · cases hCount
    · intro event hEvent hMatch
      exact h.not_held hTaken hEvent (Bool.and_eq_true_iff.mp hMatch).1
  | keep hLabel _ => exact hLabel _ _ _ _ rfl

theorem Run.release_harmless (h : Run setting history w) {held : OutboxEvent} {actor : Option Nat}
    {before : Database} (hTaken : TakenOver history held)
    (hStep : Step setting w (.commit actor r (.releaseOutbox held) before) w') :
    w'.shared.store.db = w.shared.store.db := by
  cases hStep.advances with
  | commit hStore =>
    obtain ⟨_, hFinal⟩ := Database.updateEvents_ok (releaseOutbox_ok hStore.applied.1)
    rw [updateWhere_of_forall_not fun event hEvent => h.not_held hTaken hEvent] at hFinal
    exact hFinal
  | keep hLabel _ => exact absurd rfl (hLabel _ _ _ _)

/-- `label` marks `event` for the publisher with the most recent claim on it, and the broker has confirmed
the signal of the row since that claim. -/
def MarkedByHolder (history : List Label) (label : Label) (event : OutboxEventRow) : Prop :=
  ∃ i r held before later claim earlier,
    label = .commit (some i) r (.markOutboxPublished held) before ∧
    history = later ++ claim :: earlier ∧
    claim.actor = some i ∧ held ∈ claim.grants ∧ held.id = event.id ∧
    (∀ other ∈ later, ∀ granted ∈ other.grants, granted.id ≠ event.id) ∧
    .publish i event.signal ∈ later

theorem Run.marked_by_holder (h : Run setting history w) {actor : Option Nat} {held : OutboxEvent}
    {before : Database} {event : OutboxEventRow}
    (hStep : Step setting w (.commit actor r (.markOutboxPublished held) before) w')
    (hEvent : event ∈ w.shared.store.db.outboxEvents) (hHeld : event.held held = true) :
    MarkedByHolder history (.commit actor r (.markOutboxPublished held) before) event := by
  obtain ⟨i, rfl, hMark⟩ := hStep.mark_actor
  obtain ⟨⟨_, hRows⟩, hWorking⟩ := h.publication
  obtain ⟨hID, _, _, hToken⟩ := OutboxEventRow.held_iff.mp hHeld
  obtain ⟨hWork, hConfirmed⟩ := (hWorking i).confirmed held hMark
  obtain ⟨claim, hClaim, hActor, hGranted⟩ := (hWorking i).claimed held hWork
  -- the row carries the token of this very claim, so the claim is the latest on the row
  obtain ⟨⟨claim', hClaim', hSignals⟩, hLatest⟩ := hRows event hEvent _ hToken
  obtain rfl : claim = claim' := Option.some.inj (hClaim.symm.trans hClaim')
  obtain ⟨earlier, hSplit⟩ := Label.split_at_claim hClaim
  rw [hSignals held hGranted hID.symm] at hConfirmed
  exact ⟨i, r, held, before, _, claim, earlier, rfl, hSplit, hActor, hGranted, hID.symm, hLatest, hConfirmed⟩

/-- A step that sets `published_at` is a mark by the holder of the most recent claim, with the row's own
signal confirmed since. After a takeover the former holder neither marks nor releases anything, and
a published row has no lease. -/
theorem publication_fenced (h : Run setting history w) :
    (∀ label w' event event', Step setting w label w' → event ∈ w.shared.store.db.outboxEvents →
      event' ∈ w'.shared.store.db.outboxEvents → event'.id = event.id → event.publishedAt = none →
      event'.publishedAt ≠ none → MarkedByHolder history label event ∧ event'.signal = event.signal) ∧
    (∀ held, TakenOver history held → ∀ actor r before w',
      ¬Step setting w (.commit actor r (.markOutboxPublished held) before) w' ∧
      (Step setting w (.commit actor r (.releaseOutbox held) before) w' →
        w'.shared.store.db = w.shared.store.db)) ∧
    ∀ event ∈ w.shared.store.db.outboxEvents, event.publishedAt ≠ none → event.Unleased := by
  refine ⟨?_, ?_, fun event hEvent hPublished => h.reachable.published_unleased hEvent hPublished⟩
  · intro label w' event event' hStep hEvent hEvent' hID hBefore hAfter
    have hUnique {other : OutboxEventRow} (hOther : other ∈ w.shared.store.db.outboxEvents)
        (hSame : other.id = event.id) : other = event :=
      List.inj_on_of_nodup_map h.reachable.integrity.eventIDs hOther hEvent hSame
    have hNew (hOld : event' ∈ w.shared.store.db.outboxEvents) : False :=
      hAfter (hUnique hOld hID ▸ hBefore)
    cases hStep.advances with
    | keep _ hStore => exact (hNew (hStore.waited.1 ▸ hEvent')).elim
    | commit hStore =>
      rcases hStore.event_origin h.reachable.integrity hEvent' with
        hOld | ⟨_, _, _, other, hAction, hOther, _, hMove⟩ | hFresh
      · exact (hNew hOld).elim
      · cases hAction
        obtain rfl := hUnique hOther ((congrArg Prod.fst hMove.identity_eq).symm.trans hID)
        obtain ⟨held, rfl, hHeld⟩ := hMove.published hBefore hAfter
        refine ⟨h.marked_by_holder hStep hEvent hHeld, ?_⟩
        cases hMove <;> rfl
      · exact absurd hFresh.1 hAfter
  · intro held hTaken actor r before w'
    exact ⟨h.mark_refused hTaken, h.release_harmless hTaken⟩

/-- The first publisher stalls after its publish until its lease is over; a second one claims the row,
publishes and marks it. -/
theorem publication_fenced_takeover :
    ∃ (history : List Label) (w w' : System) (label : Label) (event event' : OutboxEventRow) (held : OutboxEvent),
      Run closedSetting history w ∧ Step closedSetting w label w' ∧ event ∈ w.shared.store.db.outboxEvents ∧
      event' ∈ w'.shared.store.db.outboxEvents ∧ event'.id = event.id ∧
      (w.procs 0).toMark = some held ∧ TakenOver history held ∧ held.id = event.id ∧
      event.publishedAt = none ∧ event'.publishedAt ≠ none ∧ MarkedByHolder history label event ∧
      ∀ r before, ¬Step closedSetting w (.commit (some 0) r (.markOutboxPublished held) before) w' := by
  have hPlay : ((start 0).play [] (Sample.claimedScript.take 4 ++
      [.claimOutbox 2 40000000 "other" 30000000000 10 105, .publish 2])).any (fun run =>
        (run.2.execute (.mark 2 40000001)).any fun next =>
        run.2.shared.store.db.outboxEvents.any fun event =>
        next.2.shared.store.db.outboxEvents.any fun event' =>
        (run.2.procs 0).toMark.any fun held =>
          event'.id = event.id && held.id = event.id && event.publishedAt = none && event'.publishedAt ≠ none &&
          (Label.since held.leaseToken run.1).any fun label => label.grants.any fun other => other.id = held.id) =
      true := by
    decide +kernel
  obtain ⟨⟨history, w⟩, hRun, hFacts⟩ := (Option.any_eq_true _ _).mp hPlay
  obtain ⟨⟨label, w'⟩, hNext, hFacts⟩ := (Option.any_eq_true _ _).mp hFacts
  obtain ⟨event, hEvent, hFacts⟩ := List.any_eq_true.mp hFacts
  obtain ⟨event', hEvent', hFacts⟩ := List.any_eq_true.mp hFacts
  obtain ⟨held, hMark, hFacts⟩ := (Option.any_eq_true _ _).mp hFacts
  simp only [Bool.and_eq_true, decide_eq_true_eq, List.any_eq_true] at hFacts
  obtain ⟨⟨⟨⟨hSame, hID⟩, hBefore⟩, hAfter⟩, hTaken⟩ := hFacts
  have h : Run closedSetting history w := run_of_play ⟨0, .refl⟩ hRun
  obtain ⟨hMarked, hFenced, _⟩ := publication_fenced h
  have hStep := step_of_execute hNext
  exact ⟨history, w, w', label, event, event', held, h, hStep, hEvent, hEvent', hSame, hMark, hTaken, hID, hBefore,
    hAfter, (hMarked label w' event event' hStep hEvent hEvent' hSame hBefore hAfter).1,
    fun r before => (hFenced held hTaken (some 0) r before w').1⟩

end System

end ReliableNotifier
