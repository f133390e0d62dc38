import ReliableNotifier.Lifecycle.Constraints
import ReliableNotifier.System.Publication

/-! # What a publisher cycle leaves behind

The journal of a publisher holds the calls of `RunOnce` in their order, each with its reply
and a call of the store with what became of it there. As long as no other claim hands out
the row of a claimed event, only the calls of the cycle itself and the watchdog touch it.
-/

namespace ReliableNotifier

open Checked RowTable Interleaving

namespace Cycle

inductive Entry where
  | claim (reply : Except StoreError (List OutboxEvent))
  | publish (event : OutboxEvent) (confirmed : Bool)
  | mark (event : OutboxEvent) (reply : Except StoreError Unit) (action : Store.Action) (before after : Database)
  | release (event : OutboxEvent) (reply : Except StoreError Unit) (action : Store.Action)
      (before after : Database)

/-- The steps of a process, with the call of `RunOnce` that a step is. -/
inductive Records (setting : Setting) (i : Nat) : Shared → Process → Label → Shared → Process → List Entry → Prop
  | claim {s : Shared} {owner : String} {leaseDuration : Duration} {limit : Int} {locked : UUID → Bool}
      {token : UUID} {reply : Except StoreError (List OutboxEvent)} {action : Store.Action} {t : Store}
      (hServed : Served s.store (.claimOutbox owner leaseDuration limit locked token)
        (fun r => Prod.fst <$> claimOutbox r owner leaseDuration limit locked token s.store.db) reply action t) :
      Records setting i s .idle (.of (some i) s.store.db action) { s with store := t }
        (.publisher (.afterClaimOutbox reply)) [.claim reply]
  | publish {s : Shared} {published : Nat} {event : OutboxEvent} {rest : List OutboxEvent} :
      Records setting i s (.publisher (.publishing published event rest)) (.publish i event.signal)
        { s with signals := event.signal :: s.signals } (.publisher (.afterPublish published event rest true))
        [.publish event true]
  | unpublished {s : Shared} {published : Nat} {event : OutboxEvent} {rest : List OutboxEvent}
      {signals : List Signal} (hSignals : signals = s.signals ∨ signals = event.signal :: s.signals) :
      Records setting i s (.publisher (.publishing published event rest)) .quiet { s with signals := signals }
        (.publisher (.afterPublish published event rest false)) [.publish event false]
  | mark {s : Shared} {published : Nat} {event : OutboxEvent} {rest : List OutboxEvent}
      {reply : Except StoreError Unit} {action : Store.Action} {t : Store}
      (hServed : Served s.store (.markOutboxPublished event)
        (Op.answer (.markOutboxPublished event) s.store.db) reply action t) :
      Records setting i s (.publisher (.marking published event rest)) (.of (some i) s.store.db action)
        { s with store := t } (.publisher (.afterMark published event rest reply))
        [.mark event reply action s.store.db t.db]
  | release {s : Shared} {published : Nat} {event : OutboxEvent} {rest : List OutboxEvent}
      {reply : Except StoreError Unit} {action : Store.Action} {t : Store}
      (hServed : Served s.store (.releaseOutbox event)
        (Op.answer (.releaseOutbox event) s.store.db) reply action t) :
      Records setting i s (.publisher (.releasing published event rest)) (.of (some i) s.store.db action)
        { s with store := t } (.publisher (.afterRelease published rest))
        [.release event reply action s.store.db t.db]
  | consume {s s' : Shared} {x : Process} {label : Label} {stage : Stage}
      (h : Act setting i s x label s' (.consumer stage)) : Records setting i s x label s' (.consumer stage) []
  | crash {s : Shared} {x : Process} : Records setting i s x .quiet s .stopped []

/-- The journal of process `i` over a run of the system. -/
abbrev Journal (setting : Setting) (i : Nat) : System → List Label → System → List Entry → Prop :=
  Interleaving.Journal (Surroundings setting) (Act setting) (Records setting i) i

/-- Each event was published with success and then marked with success, one after the other. -/
inductive Marked : List OutboxEvent → List Entry → Prop
  | nil : Marked [] []
  | concat {events : List OutboxEvent} {event : OutboxEvent} {entries : List Entry} {action : Store.Action}
      {before after : Database} (h : Marked events entries) :
      Marked (events ++ [event]) (entries ++ [.publish event true, .mark event (.ok ()) action before after])

/-- The call at which the cycle broke off. -/
inductive Failed (event : OutboxEvent) : List Entry → Prop
  | unpublished : Failed event [.publish event false]
  | unmarked {err : StoreError} {action : Store.Action} {before after : Database} :
      Failed event [.publish event true, .mark event (.error err) action before after]

inductive Released : List OutboxEvent → List Entry → Prop
  | nil : Released [] []
  | concat {events : List OutboxEvent} {event : OutboxEvent} {entries : List Entry}
      {reply : Except StoreError Unit} {action : Store.Action} {before after : Database}
      (h : Released events entries) :
      Released (events ++ [event]) (entries ++ [.release event reply action before after])

/-- The entries of a process, by where it stands. -/
inductive Logged : Process → List Entry → Prop
  | idle : Logged .idle []
  | consumer (stage : Stage) : Logged (.consumer stage) []
  | stopped (entries : List Entry) : Logged .stopped entries
  | unclaimed (err : StoreError) : Logged (.publisher (.returned 0 true)) [.claim (.error err)]
  | publishing {done rest : List OutboxEvent} {event : OutboxEvent} {marks : List Entry} (hMarks : Marked done marks) :
      Logged (.publisher (.publishing done.length event rest)) (.claim (.ok (done ++ event :: rest)) :: marks)
  | marking {done rest : List OutboxEvent} {event : OutboxEvent} {marks : List Entry} (hMarks : Marked done marks) :
      Logged (.publisher (.marking done.length event rest))
        (.claim (.ok (done ++ event :: rest)) :: (marks ++ [.publish event true]))
  | releasing {done released rest : List OutboxEvent} {event next : OutboxEvent} {marks failure releases : List Entry}
      (hMarks : Marked done marks) (hFailure : Failed event failure) (hReleases : Released released releases)
      (hFirst : (released ++ next :: rest).head? = some event) :
      Logged (.publisher (.releasing done.length next rest))
        (.claim (.ok (done ++ (released ++ next :: rest))) :: (marks ++ (failure ++ releases)))
  | returned {done : List OutboxEvent} {marks : List Entry} (hMarks : Marked done marks) :
      Logged (.publisher (.returned done.length false)) (.claim (.ok done) :: marks)
  | failed {done rest : List OutboxEvent} {event : OutboxEvent} {marks failure releases : List Entry}
      (hMarks : Marked done marks) (hFailure : Failed event failure) (hReleases : Released (event :: rest) releases) :
      Logged (.publisher (.returned done.length true))
        (.claim (.ok (done ++ event :: rest)) :: (marks ++ (failure ++ releases)))

end Cycle

variable {setting : Setting} {history : List Label} {w : System} {s s' : Shared} {label : Label} {i : Nat}
  {x x' : Process}

namespace Cycle

variable {entries more : List Entry} {event : OutboxEvent}

theorem Records.act (h : Records setting i s x label s' x' more) : Act setting i s x label s' x' := by
  cases h with
  | claim hServed => exact .claimOutbox hServed
  | publish => exact .publish
  | unpublished hSignals => exact .unpublished hSignals
  | mark hServed => exact .mark hServed
  | release hServed => exact .release hServed
  | consume h => exact h
  | crash => exact .crash

theorem logged_publish {done : List OutboxEvent} {marks : List Entry} (hMarks : Marked done marks)
    (rest : List OutboxEvent) :
    Logged (.publisher (.publish done.length rest)) (.claim (.ok (done ++ rest)) :: marks) := by
  cases rest with
  | nil =>
    rw [List.append_nil]
    exact .returned hMarks
  | cons event rest => exact .publishing hMarks

theorem logged_releaseRemaining {done released : List OutboxEvent} {marks failure releases : List Entry}
    (rest : List OutboxEvent) (hMarks : Marked done marks) (hFailure : Failed event failure)
    (hReleases : Released released releases)
    (hFirst : (released ++ rest).head? = some event) :
    Logged (.publisher (.releaseRemaining done.length rest))
      (.claim (.ok (done ++ (released ++ rest))) :: (marks ++ (failure ++ releases))) := by
  cases rest with
  | nil =>
    rw [List.append_nil] at hFirst ⊢
    obtain ⟨tail, rfl⟩ := List.head?_eq_some_iff.mp hFirst
    exact .failed hMarks hFailure hReleases
  | cons next rest => exact .releasing hMarks hFailure hReleases hFirst

theorem Logged.step (h : Logged x entries) (hStep : Records setting i s x label s' x' more) :
    Logged x' (entries ++ more) := by
  cases hStep with
  | @claim _ _ _ _ _ reply =>
    cases h
    cases reply with
    | error err => exact .unclaimed err
    | ok events => exact logged_publish .nil events
  | publish =>
    cases h with
    | publishing hMarks => exact .marking hMarks
  | @unpublished _ event rest =>
    cases h with
    | publishing hMarks =>
      exact logged_releaseRemaining (event :: rest) hMarks .unpublished .nil rfl
  | @mark _ event rest reply action t =>
    cases h with
    | @marking done _ _ marks hMarks =>
      cases reply with
      | error err =>
        have hFailure : Failed event [.publish event true, .mark event (.error err) action s.store.db t.db] := .unmarked
        have hLogged := logged_releaseRemaining (event :: rest) hMarks hFailure .nil rfl
        simpa [afterMark] using hLogged
      | ok =>
        have hNext : Marked (done ++ [event])
            (marks ++ [.publish event true, .mark event (.ok ()) action s.store.db t.db]) := .concat hMarks
        have hLogged := logged_publish hNext rest
        simpa [afterMark] using hLogged
  | @release _ next rest reply action t =>
    cases h with
    | @releasing done released _ event _ marks failure releases hMarks hFailure hReleases hFirst =>
      have hNext : Released (released ++ [next]) (releases ++ [.release next reply action s.store.db t.db]) :=
        .concat hReleases
      have hLogged := logged_releaseRemaining rest hMarks hFailure hNext (by simpa using hFirst)
      simpa [afterRelease] using hLogged
  | consume hAct =>
    cases hAct with
    | receive =>
      cases h
      exact .consumer _
    | check | observe | acquire | claim | send | complete | defer | undeferred | ack | nack =>
      cases h
      exact .consumer _
  | crash => exact .stopped _

end Cycle

/-! ## The rows of a batch -/

/-- What one step does to a row it does not hand out. -/
inductive RowStep (s : Shared) (label : Label) (row row' : OutboxEventRow) : Prop
  | same (hSame : row' = row)
  | moved {actor : Option Nat} {r : Readings} {op : Op} {delivery : DeliveryRow}
      (hLabel : label = .commit actor r op s.store.db) (hMove : EventMove r delivery op row row')
      (hClaim : ∀ owner leaseDuration limit locked token, op ≠ .claimOutbox owner leaseDuration limit locked token)

theorem Shared.Advances.row_follows (hDb : Integrity s.store.db) (h : s.Advances s' label) {row' : OutboxEventRow}
    (hRow' : row' ∈ s'.store.db.outboxEvents) (hIssued : row'.id ∈ s.store.issued)
    (hGrants : ∀ held ∈ label.grants, held.id ≠ row'.id) :
    ∃ row ∈ s.store.db.outboxEvents, row.id = row'.id ∧ RowStep s label row row' := by
  cases h with
  | keep _ hStep => exact ⟨row', hStep.waited.1 ▸ hRow', rfl, .same rfl⟩
  | @commit actor r op hStep =>
    obtain ⟨row, hRow, hID, hSame | ⟨_, _, delivery, hAction, hMove⟩⟩ := hStep.event_follows hDb hRow' hIssued
    · exact ⟨row, hRow, hID, .same hSame⟩
    · cases hAction
      cases op with
      | claimOutbox owner leaseDuration limit locked token =>
        rw [hStep.claimOutbox_events, mem_updateWhere] at hRow'
        obtain ⟨old, hOld, hNew⟩ := hRow'
        split at hNew
        · rename_i hChosen
          subst hNew
          exact absurd rfl (hGrants _ (List.mem_map.mpr ⟨old, List.mem_filter.mpr ⟨hOld, hChosen⟩, rfl⟩))
        · exact ⟨row', hNew ▸ hOld, rfl, .same rfl⟩
      | _ => exact ⟨row, hRow, hID, .moved rfl hMove fun _ _ _ _ _ h => by cases h⟩

namespace System

variable {event : OutboxEvent}

theorem not_takenOver_of_cons (hNe : label.outboxToken ≠ some event.leaseToken)
    (h : ¬TakenOver (label :: history) event) :
    ¬TakenOver history event ∧ ∀ held ∈ label.grants, held.id ≠ event.id := by
  unfold TakenOver at h
  rw [Label.since_cons_of_ne hNe] at h
  constructor
  · rintro ⟨other, hOther, hTaken⟩
    exact h ⟨other, List.mem_cons_of_mem _ hOther, hTaken⟩
  · intro held hHeld hSame
    exact h ⟨label, List.mem_cons_self, held, hHeld, hSame⟩

end System

namespace Cycle

open ReliableNotifier.System

variable {entries more : List Entry} {event : OutboxEvent} {row row' : OutboxEventRow} {now now' : Time} {r : Readings}

/-- What may have become of the row of a claimed event that no other claim has handed out since. -/
inductive Tended (now : Time) (entries : List Entry) (event : OutboxEvent) (row : OutboxEventRow) : Prop
  | held (hHeld : row.held event = true) (hAvailable : row.availableAt ≤ now)
      (hUnanswered : ∀ reply action before after, .release event reply action before after ∈ entries →
        reply = .error .unavailable)
  | free (hFree : row.Untouched) (hAvailable : row.availableAt ≤ now)
  | published (hPublished : row.publishedAt ≠ none)
      (hMark : ∃ reply r op before after, .mark event reply (.commit r op) before after ∈ entries)

theorem Tended.append (h : Tended now entries event row) (more : List Entry) (hNow : now ≤ now')
    (hMore : row.held event = true → ∀ reply action before after, .release event reply action before after ∈ more →
      reply = .error .unavailable) : Tended now' (entries ++ more) event row := by
  cases h with
  | held hHeld hAvailable hUnanswered =>
    refine .held hHeld (hAvailable.trans hNow) fun reply action before after hEntry => ?_
    rcases List.mem_append.mp hEntry with hOld | hNew
    · exact hUnanswered _ _ _ _ hOld
    · exact hMore hHeld _ _ _ _ hNew
  | free hFree hAvailable => exact .free hFree (hAvailable.trans hNow)
  | published hPublished hMark =>
    obtain ⟨reply, r, op, before, after, hMark⟩ := hMark
    exact .published hPublished ⟨reply, r, op, before, after, List.mem_append_left _ hMark⟩

/-- The row still has the lease of the claim, if it has one at all. -/
theorem Tended.held_of_held {other : OutboxEvent} (h : Tended now entries event row) (hHeld : row.held other = true) :
    row.held event = true ∧ row.availableAt ≤ now := by
  obtain ⟨_, hUnpublished, hOwner, _⟩ := OutboxEventRow.held_iff.mp hHeld
  cases h with
  | held hOurs hAvailable => exact ⟨hOurs, hAvailable⟩
  | free hFree =>
    rw [hFree.2.1] at hOwner
    cases hOwner
  | published hPublished => exact absurd hUnpublished hPublished

theorem unleased_of_complete (hComplete : row.leaseIsComplete = true) (hToken : row.leaseToken = none) :
    row.Unleased := by
  simp only [OutboxEventRow.leaseIsComplete, hToken, Option.isNone_none, Option.isSome_none, Bool.and_true,
    Bool.and_false, Bool.false_and, Bool.or_false, Bool.and_eq_true, Option.isNone_iff_eq_none] at hComplete
  exact ⟨hComplete.1, hToken, hComplete.2⟩

/-- An operation other than a claim keeps the row tended, if it does not use the lease of the claim. -/
theorem Tended.move {op : Op} {delivery : DeliveryRow} (h : Tended now entries event row)
    (hMove : EventMove r delivery op row row') (hNow : now ≤ now') (hFinish : r.finish ≤ now')
    (hComplete : row.leaseIsComplete = true)
    (hClaim : ∀ owner leaseDuration limit locked token, op ≠ .claimOutbox owner leaseDuration limit locked token)
    (hForeign : ∀ other, op = .markOutboxPublished other ∨ op = .releaseOutbox other →
      row.held event = true → row.held other ≠ true) : Tended now' entries event row' := by
  cases hMove with
  | claim => exact absurd rfl (hClaim _ _ _ _ _)
  | mark hHeld => exact absurd hHeld (hForeign _ (.inl rfl) (h.held_of_held hHeld).1)
  | release hHeld => exact absurd hHeld (hForeign _ (.inr rfl) (h.held_of_held hHeld).1)
  | keep => simpa using h.append [] hNow fun _ _ _ _ _ hNil => absurd hNil List.not_mem_nil
  | observe =>
    cases h with
    | held hHeld hAvailable hUnanswered => exact .held hHeld (hAvailable.trans hNow) hUnanswered
    | free hFree hAvailable => exact .free hFree (hAvailable.trans hNow)
    | published hPublished hMark => exact .published hPublished hMark
  | reset _ _ _ _ hLease =>
    exact .free ⟨rfl, unleased_of_complete hComplete hLease⟩ ((r.write_le_finish _ _).trans hFinish)

end Cycle

/-! ## The calls of the cycle -/

theorem Served.mark_events {event : OutboxEvent} {reply : Except StoreError Unit} {action : Store.Action} {t : Store}
    (h : Served s.store (.markOutboxPublished event)
      (Op.answer (.markOutboxPublished event) s.store.db) reply action t) :
    (action = .wait ∧ t.db = s.store.db ∧ reply ≠ .ok ()) ∨ ∃ r, action = .commit r (.markOutboxPublished event) ∧
      t.db.outboxEvents = updateWhere (fun row => row.held event && row.leaseUntil.any (r.scan row.id 0 < ·))
        (OutboxEventRow.markPublished r) s.store.db.outboxEvents ∧
      ∃ row ∈ s.store.db.outboxEvents, (row.held event && row.leaseUntil.any (r.scan row.id 0 < ·)) = true := by
  have hCommit {r : Readings} (hStep : Store.Step s.store (.commit r (.markOutboxPublished event)) t) := by
    obtain ⟨hUpdate, hCount⟩ := markOutboxPublished_ok hStep.applied.1
    have hSome := List.countP_pos_iff.mp (hCount ▸ Nat.one_pos)
    exact And.intro (congrArg Database.outboxEvents (Database.updateEvents_ok hUpdate).2) hSome
  cases h with
  | done hStep => exact .inr ⟨_, rfl, hCommit hStep⟩
  | lost hStep => exact .inr ⟨_, rfl, hCommit hStep⟩
  | refused => exact .inl ⟨rfl, rfl, nofun⟩
  | down => exact .inl ⟨rfl, rfl, nofun⟩

theorem Served.release_events {event : OutboxEvent} {reply : Except StoreError Unit} {action : Store.Action} {t : Store}
    (h : Served s.store (.releaseOutbox event) (Op.answer (.releaseOutbox event) s.store.db) reply action t) :
    (t.db = s.store.db ∨
      t.db.outboxEvents = updateWhere (·.held event) OutboxEventRow.release s.store.db.outboxEvents) ∧
    (reply = .error .unavailable ∨ ∀ row ∈ t.db.outboxEvents, row.held event ≠ true) := by
  have hCommit {r : Readings} (hStep : Store.Step s.store (.commit r (.releaseOutbox event)) t) :
      t.db.outboxEvents = updateWhere (·.held event) OutboxEventRow.release s.store.db.outboxEvents :=
    congrArg Database.outboxEvents (Database.updateEvents_ok (releaseOutbox_ok hStep.applied.1)).2
  cases h with
  | done hStep =>
    refine ⟨.inr (hCommit hStep), .inr fun row hRow => ?_⟩
    rw [hCommit hStep, mem_updateWhere] at hRow
    obtain ⟨old, _, rfl⟩ := hRow
    split
    · intro hHeld
      cases (OutboxEventRow.held_iff.mp hHeld).2.2.1
    · assumption
  | lost hStep => exact ⟨.inr (hCommit hStep), .inl rfl⟩
  | refused _ hAnswer =>
    refine ⟨.inl rfl, .inr ?_⟩
    cases hApply : (Op.releaseOutbox event).apply ‹Readings› s.store.db with
    | error err => exact releaseOutbox_error hApply
    | ok db =>
      rw [Op.answer, hApply] at hAnswer
      cases hAnswer
  | down => exact ⟨.inl rfl, .inl rfl⟩

namespace Cycle

open ReliableNotifier.System

variable {entries more : List Entry} {event : OutboxEvent}

/-- The rows with another lease than that of the event are as they were. -/
def Spares (event : OutboxEvent) (before after : Database) : Prop :=
  ∀ row ∈ before.outboxEvents, row.leaseToken ≠ some event.leaseToken → row ∈ after.outboxEvents

def Entry.Sound : Entry → Prop
  | mark event reply _ before after =>
    (reply = .ok () → ∃ row ∈ before.outboxEvents, row.held event = true ∧
      ∃ r, row.markPublished r ∈ after.outboxEvents) ∧ Spares event before after
  | release event _ _ before after => Spares event before after
  | _ => True

theorem spares_updateWhere {p : OutboxEventRow → Bool} {f : OutboxEventRow → OutboxEventRow} {before after : Database}
    (hAfter : after.outboxEvents = updateWhere p f before.outboxEvents)
    (hHeld : ∀ row, p row = true → row.held event = true) : Spares event before after := by
  intro row hRow hToken
  rw [hAfter, mem_updateWhere]
  refine ⟨row, hRow, if_neg fun hp => hToken ?_⟩
  exact (OutboxEventRow.held_iff.mp (hHeld row hp)).2.2.2

theorem Records.sound (h : Records setting i s x label s' x' more) : ∀ entry ∈ more, entry.Sound := by
  intro entry hEntry
  cases h with
  | claim | publish | unpublished =>
    rw [List.mem_singleton.mp hEntry]
    trivial
  | mark hServed =>
    rw [List.mem_singleton.mp hEntry]
    rcases hServed.mark_events with ⟨_, hDb, hReply⟩ | ⟨r, _, hEvents, row, hRow, hMatch⟩
    · exact ⟨fun hOk => absurd hOk hReply, fun row hRow _ => hDb ▸ hRow⟩
    · refine ⟨fun _ => ⟨row, hRow, (Bool.and_eq_true_iff.mp hMatch).1, r, ?_⟩,
        spares_updateWhere hEvents fun row hRow => (Bool.and_eq_true_iff.mp hRow).1⟩
      rw [hEvents, mem_updateWhere]
      exact ⟨row, hRow, if_pos hMatch⟩
  | release hServed =>
    rw [List.mem_singleton.mp hEntry]
    rcases hServed.release_events.1 with hDb | hEvents
    · exact fun row hRow _ => hDb ▸ hRow
    · exact spares_updateWhere hEvents fun _ hRow => hRow
  | consume | crash => cases hEntry

/-- An event of the batch that process `i` claimed. -/
structure Claimed (i : Nat) (history : List Label) (s : Store) (entries : List Entry) (event : OutboxEvent) : Prop where
  handed : HandedTo i history event
  issued : event.id ∈ s.issued
  present : (∃ row ∈ s.db.outboxEvents, row.id = event.id) ∨
    ∃ actor r op before, .commit actor r op before ∈ Label.since event.leaseToken history ∧ op.isRetention = true
  tended : ¬TakenOver history event → ∀ row ∈ s.db.outboxEvents, row.id = event.id → Tended s.now entries event row
  taken : TakenOver history event → ∀ row ∈ s.db.outboxEvents, row.id = event.id →
    row.leaseToken ≠ some event.leaseToken

theorem Claimed.next (h : Claimed i history s.store entries event) (hDb : Integrity s.store.db)
    (hTokens : TokensIssued history s.store) (hStep : s.Advances s' label)
    (hRows : ∀ row row', row ∈ s.store.db.outboxEvents → row.id = event.id → row' ∈ s'.store.db.outboxEvents →
      Tended s.store.now entries event row → RowStep s label row row' →
      Tended s'.store.now (entries ++ more) event row') :
    Claimed i (label :: history) s'.store (entries ++ more) event := by
  have hNe := h.handed.ne hTokens fun _ hToken => (drawn_of_advances hStep hToken).1
  obtain ⟨action, hStore⟩ := hStep.step
  refine ⟨h.handed.next hNe, hStore.issued_subset h.issued, ?_, fun hTaken row' hRow' hID => ?_,
    fun hTaken row' hRow' hID hToken => ?_⟩
  · rw [Label.since_cons_of_ne hNe]
    rcases h.present with ⟨row, hRow, hSame⟩ | ⟨actor, r, op, before, hLabel, hRetention⟩
    · cases hStep with
      | keep _ hWait => exact .inl ⟨row, hWait.waited.1 ▸ hRow, hSame⟩
      | @commit actor r op hCommit =>
        rcases hCommit.event_stays hDb hRow with ⟨row', hRow', hID, _⟩ | ⟨_, _, hAction, hRetention, _⟩
        · exact .inl ⟨row', hRow', hID.trans hSame⟩
        · cases hAction
          exact .inr ⟨actor, r, op, _, List.mem_cons_self, hRetention⟩
    · exact .inr ⟨actor, r, op, before, List.mem_cons_of_mem _ hLabel, hRetention⟩
  · obtain ⟨hPrior, hGrants⟩ := not_takenOver_of_cons hNe hTaken
    obtain ⟨row, hRow, hSame, hRowStep⟩ := hStep.row_follows hDb hRow' (hID ▸ h.issued) (hID ▸ hGrants)
    exact hRows row row' hRow (hSame.trans hID) hRow' (h.tended hPrior row hRow (hSame.trans hID)) hRowStep
  · rcases leased_of_advances hDb hStep hRow' hToken with ⟨hHere, _⟩ | ⟨row, hRow, hBefore, hSame, _, hOther⟩
    · exact hNe hHere
    · obtain ⟨other, hLabel, held, hHeld, hHeldID⟩ := hTaken
      rw [Label.since_cons_of_ne hNe] at hLabel
      have hRowID := hSame.symm.trans hID
      rcases List.mem_cons.mp hLabel with rfl | hEarlier
      · exact hOther held hHeld (hHeldID.trans hRowID.symm)
      · exact h.taken ⟨other, hEarlier, held, hHeld, hHeldID⟩ row hRow hRowID hBefore

/-- A step that does not use the lease of the event. -/
theorem Claimed.step (h : Claimed i history s.store entries event) (hDb : Integrity s.store.db)
    (hTokens : TokensIssued history s.store) (hStep : s.Advances s' label)
    (hForeign : ∀ actor r op other before (row : OutboxEventRow), label = .commit actor r op before →
      op = .markOutboxPublished other ∨ op = .releaseOutbox other → row.held event = true → row.held other ≠ true)
    (hMore : ∀ reply action before after, .release event reply action before after ∉ more) :
    Claimed i (label :: history) s'.store (entries ++ more) event := by
  refine h.next hDb hTokens hStep fun row row' hRow hID hRow' hTended hRowStep => ?_
  obtain ⟨action, hStore⟩ := hStep.step
  have hAppend := hTended.append more le_rfl fun _ _ _ _ _ hEntry => absurd hEntry (hMore _ _ _ _)
  cases hRowStep with
  | same hSame =>
    subst hSame
    exact hTended.append more hStore.now_le fun _ _ _ _ _ hEntry => absurd hEntry (hMore _ _ _ _)
  | moved hLabel hMove hClaim =>
    subst hLabel
    cases hStep with
    | keep hLabel => exact absurd rfl (hLabel _ _ _ _)
    | commit hCommit =>
      exact hAppend.move hMove hCommit.now_le hCommit.applied.2.2.ge (hDb.eventLeases row hRow) hClaim
        fun other hOp => hForeign _ _ _ other _ row rfl hOp

section Calls

variable {held : OutboxEvent} {reply : Except StoreError Unit} {action : Store.Action} {t : Store}

/-- A call for another event of the batch does not use the lease of this one. -/
theorem not_held_of_ne {other : OutboxEvent} {row : OutboxEventRow} (hNe : event.id ≠ other.id)
    (hRow : row.held event = true) : row.held other ≠ true := by
  intro hOther
  exact hNe ((OutboxEventRow.held_iff.mp hRow).1.symm.trans (OutboxEventRow.held_iff.mp hOther).1)

theorem Claimed.mark (h : Claimed i history s.store entries event) (hDb : Integrity s.store.db)
    (hTokens : TokensIssued history s.store) (hSame : event.id = held.id → event = held)
    (hServed : Served s.store (.markOutboxPublished held)
      (Op.answer (.markOutboxPublished held) s.store.db) reply action t) :
    Claimed i (.of (some i) s.store.db action :: history) t
      (entries ++ [.mark held reply action s.store.db t.db]) event := by
  have hStep : s.Advances { s with store := t } (.of (some i) s.store.db action) := hServed.advances
  have hOther (reply' action' before after) :
      .release event reply' action' before after ∉ [Entry.mark held reply action s.store.db t.db] := by
    intro hEntry
    cases List.mem_singleton.mp hEntry
  by_cases hEq : event = held
  · subst hEq
    refine h.next hDb hTokens hStep fun row row' _ _ _ hTended hRowStep => ?_
    have hKept := hTended.append _ hServed.action.1.now_le fun _ _ _ _ _ hEntry => absurd hEntry (hOther _ _ _ _)
    cases hRowStep with
    | same hSame =>
      subst hSame
      exact hKept
    | @moved _ r _ _ hLabel hMove =>
      obtain ⟨_, rfl | ⟨_, rfl⟩⟩ := hServed.action
      · cases hLabel
      · cases hLabel
        cases hMove with
        | keep => exact hKept
        | mark => exact .published nofun ⟨reply, r, _, _, _, List.mem_append_right _ (List.mem_singleton_self _)⟩
  · refine h.step hDb hTokens hStep (fun actor r op other before row hLabel hOp => ?_) hOther
    obtain ⟨_, rfl | ⟨r, rfl⟩⟩ := hServed.action
    · cases hLabel
    · cases hLabel
      rcases hOp with hOp | hOp
      · cases hOp
        exact not_held_of_ne fun hID => hEq (hSame hID)
      · cases hOp

theorem Claimed.release (h : Claimed i history s.store entries event) (hDb : Integrity s.store.db)
    (hTokens : TokensIssued history s.store) (hSame : event.id = held.id → event = held)
    (hServed : Served s.store (.releaseOutbox held)
      (Op.answer (.releaseOutbox held) s.store.db) reply action t) :
    Claimed i (.of (some i) s.store.db action :: history) t
      (entries ++ [.release held reply action s.store.db t.db]) event := by
  have hStep : s.Advances { s with store := t } (.of (some i) s.store.db action) := hServed.advances
  by_cases hEq : event = held
  · subst hEq
    refine h.next hDb hTokens hStep fun row row' _ _ hRow' hTended hRowStep => ?_
    -- a row that still has the lease is one whose release was not answered
    have hKept (hRow : row ∈ t.db.outboxEvents) :
        Tended t.now (entries ++ [.release event reply action s.store.db t.db]) event row := by
      refine hTended.append _ hServed.action.1.now_le fun hHeld _ _ _ _ hEntry => ?_
      cases List.mem_singleton.mp hEntry
      exact hServed.release_events.2.resolve_right fun hNone => hNone row hRow hHeld
    cases hRowStep with
    | same hSame =>
      subst hSame
      exact hKept hRow'
    | moved hLabel hMove =>
      obtain ⟨_, rfl | ⟨r, rfl⟩⟩ := hServed.action
      · cases hLabel
      · cases hLabel
        cases hMove with
        | keep => exact hKept hRow'
        | release hHeld =>
          refine .free ⟨(OutboxEventRow.held_iff.mp hHeld).2.1, rfl, rfl, rfl⟩ ?_
          exact (hTended.held_of_held hHeld).2.trans hServed.action.1.now_le
  · refine h.step hDb hTokens hStep (fun actor r op other before row hLabel hOp => ?_) fun _ _ _ _ hEntry => ?_
    · obtain ⟨_, rfl | ⟨r, rfl⟩⟩ := hServed.action
      · cases hLabel
      · cases hLabel
        rcases hOp with hOp | hOp
        · cases hOp
        · cases hOp
          exact not_held_of_ne fun hID => hEq (hSame hID)
    · cases List.mem_singleton.mp hEntry
      exact hEq rfl

theorem claimed_batch {owner : String} {leaseDuration : Duration} {limit : Int} {locked : UUID → Bool} {token : UUID}
    {events : List OutboxEvent} (hDb : Integrity s.store.db)
    (hIDs : ∀ row ∈ s.store.db.outboxEvents, row.id ∈ s.store.issued)
    (hServed : Served s.store (.claimOutbox owner leaseDuration limit locked token)
      (fun r => Prod.fst <$> claimOutbox r owner leaseDuration limit locked token s.store.db) (.ok events) action t) :
    (events.map OutboxEvent.id).Nodup ∧ ∀ event ∈ events,
      Claimed i (.of (some i) s.store.db action :: history) t [.claim (.ok events)] event := by
  cases hServed with
  | @done r _ _ hStep hAnswer =>
    obtain ⟨⟨reply, final⟩, hClaim, hReply⟩ := map_ok_iff.mp hAnswer
    obtain ⟨_, _, hEvents⟩ := claimOutbox_ok hClaim
    obtain rfl : reply = events := hReply
    subst hEvents
    constructor
    · rw [List.map_map]
      exact hDb.eventIDs.sublist (List.filter_sublist.map _)
    · intro event hEvent
      obtain ⟨row, hRow, rfl⟩ := List.mem_map.mp hEvent
      obtain ⟨hRow, hChosen⟩ := List.mem_filter.mp hRow
      obtain ⟨hUnpublished, hAvailable, _⟩ :=
        OutboxEventRow.claimable_iff.mp (hDb.claimable_of_chosen hRow hChosen)
      have hNow : r.finish = t.now := hStep.applied.2.2.symm
      refine ⟨⟨_, List.find?_cons_of_pos (by simp [Label.of, Label.outboxToken, OutboxEventRow.load]), rfl, hEvent⟩,
        hStep.issued_subset (hIDs row hRow), .inl ?_, ?_, ?_⟩
      · refine ⟨row.claim r owner token leaseDuration, ?_, rfl⟩
        rw [hStep.claimOutbox_events, mem_updateWhere]
        exact ⟨row, hRow, if_pos hChosen⟩
      · intro _ row' hRow' hID
        rw [hStep.claimOutbox_events, mem_updateWhere] at hRow'
        obtain ⟨other, hOther, rfl⟩ := hRow'
        obtain rfl : other = row := by
          refine List.inj_on_of_nodup_map hDb.eventIDs hOther hRow (Eq.trans ?_ hID)
          split <;> rfl
        rw [if_pos hChosen]
        refine .held (OutboxEventRow.held_iff.mpr ⟨rfl, hUnpublished, rfl, rfl⟩) ?_ fun _ _ _ _ hEntry => ?_
        · exact hAvailable.trans (hNow ▸ r.scan_le_finish _ _)
        · cases List.mem_singleton.mp hEntry
      · rintro ⟨_, hLabel, _⟩
        simp [Label.since, Label.of, Label.outboxToken, OutboxEventRow.load] at hLabel

end Calls

end Cycle

/-! ## Whole runs -/

namespace System

/-- A system to start from: its tables satisfy their constraints, and the identifiers of the events and the tokens
of the claims that processes are at work on count as drawn. -/
structure Ready (first : System) : Prop where
  integrity : Integrity first.shared.store.db
  eventIDs : ∀ row ∈ first.shared.store.db.outboxEvents, row.id ∈ first.shared.store.issued
  tokens : ∀ j, ∀ held ∈ (first.procs j).held, held.leaseToken ∈ first.shared.store.issued

/-- What is known of the identifiers and tokens along a run from `first`. -/
structure Accounted (first : System) (history : List Label) (s : Store) : Prop where
  integrity : Integrity s.db
  eventIDs : ∀ row ∈ s.db.outboxEvents, row.id ∈ s.issued
  issued : first.shared.store.issued ⊆ s.issued
  tokens : TokensIssued history s
  fresh : ∀ label ∈ history, ∀ token, label.outboxToken = some token → token ∉ first.shared.store.issued

variable {first : System}

theorem Accounted.next (h : Accounted first history s.store) (hStep : s.Advances s' label) :
    Accounted first (label :: history) s'.store := by
  obtain ⟨action, hStore⟩ := hStep.step
  refine ⟨hStore.integrity h.integrity, ?_, List.Subset.trans h.issued hStore.issued_subset, h.tokens.next hStep, ?_⟩
  · intro row' hRow'
    cases action with
    | wait =>
      rw [hStore.waited.1] at hRow'
      exact hStore.issued_subset (h.eventIDs row' hRow')
    | commit r op =>
      rcases Op.event_ids hStore.applied.1 hRow' with ⟨row, hRow, hID⟩ | hDrawn
      · exact hID ▸ hStore.issued_subset (h.eventIDs row hRow)
      · exact (hStore.drawn hDrawn).2
  · intro other hOther token hToken hOld
    rcases List.mem_cons.mp hOther with rfl | hEarlier
    · exact (drawn_of_advances hStep hToken).1 (h.issued hOld)
    · exact h.fresh other hEarlier token hToken hOld

end System

namespace Cycle

open ReliableNotifier.System

variable {first : System} {entries more : List Entry} {event : OutboxEvent}

theorem Logged.held_subset {events : List OutboxEvent} (h : Logged x (.claim (.ok events) :: entries)) :
    x.held ⊆ events := by
  cases h with
  | stopped | returned | failed => exact List.nil_subset _
  | publishing | marking => exact List.subset_append_right _ _
  | releasing => exact List.Subset.trans (List.subset_append_right _ _) (List.subset_append_right _ _)

structure Stands (i : Nat) (history : List Label) (s : Shared) (x : Process) (entries : List Entry) : Prop where
  logged : Logged x entries
  sound : ∀ entry ∈ entries, entry.Sound
  batch : ∀ events rest, entries = .claim (.ok events) :: rest →
    (events.map OutboxEvent.id).Nodup ∧ ∀ event ∈ events, Claimed i history s.store entries event

theorem Stands.foreign (h : Stands i history w.shared x entries) (hAccounted : Accounted first history w.shared.store)
    (hStep : w.shared.Advances s' label)
    (hForeign : ∀ event, HandedTo i history event → ∀ actor r op other before (row : OutboxEventRow),
      label = .commit actor r op before → op = .markOutboxPublished other ∨ op = .releaseOutbox other →
      row.held event = true → row.held other ≠ true) : Stands i (label :: history) s' x entries := by
  refine ⟨h.logged, h.sound, fun events rest hEntries => ⟨(h.batch events rest hEntries).1, fun event hEvent => ?_⟩⟩
  have hClaimed := (h.batch events rest hEntries).2 event hEvent
  simpa using hClaimed.step hAccounted.integrity hAccounted.tokens hStep (hForeign event hClaimed.handed)
    (fun _ _ _ _ => List.not_mem_nil)

theorem Stands.own (h : Stands i history w.shared (w.procs i) entries)
    (hAccounted : Accounted first history w.shared.store)
    (hStep : Records setting i w.shared (w.procs i) label s' x' more) :
    Stands i (label :: history) s' x' (entries ++ more) := by
  have hDb := hAccounted.integrity
  have hTokens := hAccounted.tokens
  have hLogged := h.logged.step hStep
  have hSound (entry : Entry) (hEntry : entry ∈ entries ++ more) : entry.Sound :=
    (List.mem_append.mp hEntry).elim (h.sound entry) (hStep.sound entry)
  refine ⟨hLogged, hSound, fun events rest hEntries => ?_⟩
  have hAdvances := hStep.act.advances
  generalize w.procs i = x at h hStep
  cases entries with
  | nil =>
    cases hStep with
    | claim hServed =>
      cases hEntries
      exact claimed_batch hDb hAccounted.eventIDs hServed
    | publish | unpublished | mark | release | consume | crash => cases hEntries
  | cons entry old =>
    obtain ⟨rfl, rfl⟩ := List.cons.inj hEntries
    obtain ⟨hNodup, hClaimed⟩ := h.batch events old rfl
    refine ⟨hNodup, fun event hEvent => ?_⟩
    have hHeld := h.logged.held_subset
    have hSame {held : OutboxEvent} (hHeld : held ∈ events) (hID : event.id = held.id) : event = held :=
      List.inj_on_of_nodup_map hNodup hEvent hHeld hID
    cases hStep with
    | claim => cases h.logged
    | publish | unpublished =>
      refine (hClaimed event hEvent).step hDb hTokens hAdvances (fun _ _ _ _ _ _ hLabel => by cases hLabel) ?_
      intro _ _ _ _ hEntry
      cases List.mem_singleton.mp hEntry
    | mark hServed => exact (hClaimed event hEvent).mark hDb hTokens (hSame (hHeld List.mem_cons_self)) hServed
    | release hServed => exact (hClaimed event hEvent).release hDb hTokens (hSame (hHeld List.mem_cons_self)) hServed
    | consume => cases hLogged
    | crash =>
      exact (hClaimed event hEvent).step hDb hTokens hAdvances (fun _ _ _ _ _ _ hLabel => by cases hLabel)
        fun _ _ _ _ => List.not_mem_nil

theorem Marked.mem_of_mark {events : List OutboxEvent} {reply : Except StoreError Unit} {action : Store.Action}
    {before after : Database} (h : Marked events entries) (hEntry : .mark event reply action before after ∈ entries) :
    event ∈ events := by
  induction h with
  | nil => cases hEntry
  | concat _ ih =>
    rcases List.mem_append.mp hEntry with hOld | hNew
    · exact List.mem_append_left _ (ih hOld)
    · cases hNew with
      | tail _ hNew =>
        cases List.mem_singleton.mp hNew
        exact List.mem_append_right _ (List.mem_singleton_self _)

theorem Released.entry {events : List OutboxEvent} {entry : Entry} (h : Released events entries)
    (hEntry : entry ∈ entries) : ∃ event ∈ events, ∃ reply action before after,
      entry = .release event reply action before after := by
  induction h with
  | nil => cases hEntry
  | @concat _ event _ reply action before after _ ih =>
    rcases List.mem_append.mp hEntry with hOld | hNew
    · obtain ⟨other, hOther, hRest⟩ := ih hOld
      exact ⟨other, List.mem_append_left _ hOther, hRest⟩
    · exact ⟨event, List.mem_append_right _ (List.mem_singleton_self _), reply, action, before, after,
        List.mem_singleton.mp hNew⟩

theorem Failed.mark_error {first : OutboxEvent} {failure : List Entry} {reply : Except StoreError Unit}
    {action : Store.Action} {before after : Database} (h : Failed first failure)
    (hEntry : .mark event reply action before after ∈ failure) : ∃ err, reply = .error err := by
  cases h with
  | unpublished => cases List.mem_singleton.mp hEntry
  | unmarked =>
    cases hEntry with
    | tail _ hNew =>
      cases List.mem_singleton.mp hNew
      exact ⟨_, rfl⟩

/-- The calls of a cycle over a claimed batch that returned `k` and, if `failed`, an error. -/
structure Ran (batch : List OutboxEvent) (k : Nat) (failed : Bool) (marks failure releases : List Entry) : Prop where
  bounded : k ≤ batch.length
  marked : Marked (batch.take k) marks
  finished : failed = false → k = batch.length ∧ failure = [] ∧ releases = []
  broken : failed = true → ∃ event rest, batch.drop k = event :: rest ∧ Failed event failure ∧
    Released (event :: rest) releases

/-- The row of a released event can be claimed at once, or is published because the mark that failed
had committed. -/
def Settled (now : Time) (failure : List Entry) (event : OutboxEvent) (row : OutboxEventRow) : Prop :=
  (row.Untouched ∧ ∀ r : Readings, now ≤ r.statement → row.claimable r = true) ∨
  (row.publishedAt ≠ none ∧ ∃ err r op before after, .mark event (.error err) (.commit r op) before after ∈ failure)

theorem Tended.settled {now : Time} {row : OutboxEventRow} {batch : List OutboxEvent} {k : Nat}
    {marks failure releases : List Entry} (hRan : Ran batch k true marks failure releases)
    (hNodup : (batch.map OutboxEvent.id).Nodup) {reply : Except StoreError Unit} {action : Store.Action}
    {before after : Database} (hRelease : .release event reply action before after ∈ releases)
    (hReply : reply ≠ .error .unavailable)
    (h : Tended now (.claim (.ok batch) :: (marks ++ (failure ++ releases))) event row) :
    Settled now failure event row := by
  cases h with
  | held _ _ hUnanswered =>
    refine absurd (hUnanswered reply action before after ?_) hReply
    exact List.mem_cons_of_mem _ (List.mem_append_right _ (List.mem_append_right _ hRelease))
  | free hFree hAvailable =>
    refine .inl ⟨hFree, fun r hClock => OutboxEventRow.claimable_iff.mpr ⟨hFree.1, ?_, .inl hFree.2.2.2⟩⟩
    exact hAvailable.trans (hClock.trans (r.statement_le_scan _ _))
  | published hPublished hMark =>
    obtain ⟨first, rest, hDrop, hFailed, hReleased⟩ := hRan.broken rfl
    obtain ⟨reply', r, op, before', after', hMark⟩ := hMark
    have hLate : event ∈ batch.drop k := by
      obtain ⟨other, hOther, _, _, _, _, hEntry⟩ := hReleased.entry hRelease
      cases hEntry
      exact hDrop ▸ hOther
    -- the events of the batch differ, so the mark is not one of those that came before the failure
    have hEarly : event ∉ batch.take k := by
      intro hEarly
      rw [← List.take_append_drop k batch, List.map_append] at hNodup
      exact List.disjoint_of_nodup_append hNodup (List.mem_map_of_mem hEarly) (List.mem_map_of_mem hLate)
    refine .inr ⟨hPublished, ?_⟩
    cases hMark with
    | tail _ hMark =>
      rcases List.mem_append.mp hMark with hMark | hMark
      · exact absurd (hRan.marked.mem_of_mark hMark) hEarly
      rcases List.mem_append.mp hMark with hMark | hMark
      · obtain ⟨err, rfl⟩ := hFailed.mark_error hMark
        exact ⟨err, r, op, before', after', hMark⟩
      · obtain ⟨_, _, _, _, _, _, hEntry⟩ := hReleased.entry hMark
        cases hEntry

end Cycle

namespace System

open ReliableNotifier.Cycle

end System

end ReliableNotifier
