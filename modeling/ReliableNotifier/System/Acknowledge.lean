import ReliableNotifier.System.Claims
import ReliableNotifier.System.Signals

/-! # Acknowledging signals

A consumer acknowledges on `ErrDeliveryNotClaimable`, on a committed or a lost result,
and after a confirmed deferral. Since signals in flight are never early, the first
three happen only for a signal that no claim can use any more.
-/

namespace ReliableNotifier

open Checked

variable {setting : Setting} {history : List Label} {w w' : System} {s s' : Shared} {label : Label} {i : Nat}
  {x x' : Process}

namespace Store

variable {s t : Store} {action : Action} {signal : Signal} {r : Readings}

/-- No claim for the signal can succeed any more. -/
def Dead (s : Store) (signal : Signal) : Prop :=
  ∀ row, (s.db.dossier signal.deliveryID).row = some row →
    signal.generation < row.generation ∨
    row.generation = signal.generation ∧ row.status ≠ .pending ∨
    row.retryDeadline ≤ s.now

theorem Dead.step (hs : s.Reachable) (hLaunched : s.Launched signal) (hDead : s.Dead signal)
    (h : Step s action t) : t.Dead signal := by
  intro row' hRow'
  obtain ⟨row, hRow, hKind⟩ := h.row_origin hs hLaunched.1 hRow'
  have hBound := (hLaunched.2 row hRow).1
  rcases hKind with rfl | ⟨_, _, hLeft | hRenewed⟩
  · exact (hDead row' hRow).imp_right (.imp_right fun hPast => hPast.trans h.now_le)
  · rcases hBound.lt_or_eq with hAbove | hSame
    · exact .inl (hLeft.generation ▸ hAbove)
    · exact .inr (.inl ⟨hLeft.generation.trans hSame.symm, hLeft.status⟩)
  · exact .inl (hRenewed.generation ▸ Nat.lt_succ_of_le hBound)

theorem Dead.later (hs : s.Reachable) (hLaunched : s.Launched signal) (hDead : s.Dead signal)
    (h : s.Later t) : t.Dead signal := by
  refine (Later.invariant (I := fun t => t.Launched signal ∧ t.Dead signal) hs ⟨hLaunched, hDead⟩ ?_ h).2
  rintro u action v hu ⟨hLaunched, hDead⟩ hStep
  exact ⟨hLaunched.step hu hStep, hDead.step hu hLaunched hStep⟩

/-- A launched signal for which no row is due is dead, and not merely early. -/
theorem Launched.dead (hs : s.Reachable) (hLaunched : s.Launched signal) (hClock : s.now ≤ r.statement)
    (hRefused : ∀ row ∈ s.db.deliveries, row.due r row.id signal.deliveryID signal.generation ≠ true) :
    Dead { s with now := r.finish } signal := by
  intro row hRow
  obtain ⟨hBound, hDue⟩ := hLaunched.2 row hRow
  obtain ⟨hMem, hID⟩ := hs.integrity.dossier_row_iff.mp hRow
  rcases hBound.lt_or_eq with hAbove | hSame
  · exact .inl hAbove
  · by_cases hPending : row.status = .pending
    · have hOpen : row.nextAttemptAt ≤ r.scan row.id 0 :=
        (hDue hSame.symm hPending).trans (hClock.trans (r.statement_le_scan _ _))
      have hClosed : ¬r.scan row.id 1 < row.retryDeadline := fun hInside =>
        hRefused row hMem (DeliveryRow.due_iff.mpr ⟨hID, hSame.symm, hPending, hOpen, hInside⟩)
      exact .inr (.inr ((not_lt.mp hClosed).trans (r.scan_le_finish _ _)))
    · exact .inr (.inl ⟨hSame.symm, hPending⟩)

theorem dead_of_passed (signal : Signal) (h : Passed (.pending, signal.generation) signal.deliveryID s) :
    s.Dead signal := by
  intro row hRow
  have hAbove := h.2 _ (phase_of_row hRow)
  rw [height, height, Prod.Lex.toLex_lt_toLex] at hAbove
  rcases hAbove with hAbove | ⟨hSame, hRank⟩
  · exact .inl hAbove
  · refine .inr (.inl ⟨hSame.symm, fun hPending => ?_⟩)
    simp [hPending] at hRank

end Store

/-- What process `i` may rely on where it acknowledges or is bound to. -/
def Process.Settling (i : Nat) (history : List Label) (s : Store) : Process → Prop
  | .consumer (.sending signal _ _) => s.Dead signal
  | .consumer (.completing signal _ _) => s.Dead signal
  | .consumer (.acking signal) => s.Dead signal ∨ .defer i signal ∈ history
  | .consumer (.nacking (some _) requeue) => requeue = true
  | _ => True

namespace Stage

variable {signal : Signal} {s : Store}

theorem settling_failed (err : StoreError) :
    Process.Settling i history s (.consumer (afterProcess signal false (some err))) :=
  rfl

theorem settling_done (hDead : s.Dead signal) :
    Process.Settling i history s (.consumer (afterProcess signal true none)) :=
  .inl hDead

theorem settling_afterEligible {reply : Except StoreError DestinationVersion}
    (hRefused : reply = .error .deliveryNotClaimable → s.Dead signal) :
    Process.Settling i history s (.consumer (afterEligible signal reply)) := by
  unfold afterEligible
  split
  · exact settling_done (hRefused rfl)
  · exact settling_failed _
  · trivial

theorem settling_afterObserve (destination : DestinationVersion) (reply : Except StoreError Unit) :
    Process.Settling i history s (.consumer (afterObserve signal destination reply)) := by
  cases reply
  · exact settling_failed _
  · trivial

theorem settling_afterClaim {reply : Except StoreError (Delivery × DestinationVersion)}
    (hRefused : reply = .error .deliveryNotClaimable → s.Dead signal)
    (hClaimed : ∀ claimed, reply = .ok claimed → s.Dead signal) :
    Process.Settling i history s (.consumer (afterClaim signal reply)) := by
  unfold afterClaim
  split
  · exact settling_done (hRefused rfl)
  · exact settling_failed _
  · exact hClaimed _ rfl

theorem settling_afterComplete (hDead : s.Dead signal) (reply : Except StoreError Unit) :
    Process.Settling i history s (.consumer (afterComplete signal reply)) := by
  unfold afterComplete
  split
  · exact settling_done hDead
  · exact settling_failed _
  · exact settling_done hDead

end Stage

theorem Process.Settling.step {s t : Store} {action : Store.Action} (hs : s.Reachable)
    (hLaunched : ∀ signal ∈ x.signals, s.Launched signal) (h : x.Settling i history s)
    (hStep : Store.Step s action t) : x.Settling i (label :: history) t := by
  have hDead {signal : Signal} (hHeld : signal ∈ x.signals) (hDead : s.Dead signal) : t.Dead signal :=
    hDead.step hs (hLaunched signal hHeld) hStep
  unfold Settling at h ⊢
  split
  · exact hDead (List.mem_singleton_self _) h
  · exact hDead (List.mem_singleton_self _) h
  · exact h.imp (hDead (List.mem_singleton_self _)) (List.mem_cons_of_mem _)
  · exact h
  · trivial

theorem Act.settling (hs : s.store.Reachable) (hLaunched : ∀ signal ∈ x.signals, s.store.Launched signal)
    (h : x.Settling i history s.store) (hStep : Act setting i s x label s' x') :
    x'.Settling i (label :: history) s'.store := by
  cases hStep with
  | @receive message => cases message <;> trivial
  | @check signal r reply hClock hReply =>
    refine Stage.settling_afterEligible fun hRefused => ?_
    rcases hReply with rfl | rfl
    · exact (hLaunched signal (List.mem_singleton_self _)).dead hs hClock (eligibleDestination_refused hRefused)
    · cases hRefused
  | observe => exact Stage.settling_afterObserve _ _
  | acquire granted => cases granted <;> trivial
  | @claim signal _ _ _ _ _ _ hServed =>
    cases hServed with
    | done hStore _ =>
      have hDead := Store.dead_of_passed signal (hStore.claim_passes hs).2
      exact Stage.settling_afterClaim (fun h => by cases h) fun _ _ => hDead
    | lost | down => exact Stage.settling_afterClaim (fun h => by cases h) fun _ h => by cases h
    | refused hClock hAnswer =>
      refine Stage.settling_afterClaim (fun hRefused => ?_) fun _ h => by cases h
      cases hRefused
      exact (hLaunched signal (List.mem_singleton_self _)).dead hs hClock
        (claimDelivery_refused (map_error_iff.mp hAnswer))
  | send => exact h
  | @complete signal _ _ _ reply _ _ hServed =>
    exact Stage.settling_afterComplete
      (Store.Dead.step hs (hLaunched signal (List.mem_singleton_self _)) h hServed.action.1) reply
  | defer => exact .inr List.mem_cons_self
  | undeferred => exact rfl
  | ack | nack | claimOutbox | publish | unpublished | mark | release | crash => trivial

theorem System.Run.settling (hForeign : ∀ signal, ¬setting.foreign signal) (h : Run setting history w) (i : Nat) :
    (w.procs i).Settling i history w.shared.store := by
  refine (Run.invariant (G := fun _ _ => True)
    (L := fun i history s x => (∀ signal ∈ x.signals, s.store.Launched signal) ∧ x.Settling i history s.store)
    (fun _ => trivial) (fun _ _ => ⟨fun _ h => (by cases h), trivial⟩) ?_ ?_ h).2 i |>.2
  · intro history w label s hRun _ hStep
    obtain ⟨_, hStore⟩ := hStep.advances.step
    refine ⟨trivial, fun i x hL => ⟨fun signal hSignal => ?_, hL.2.step hRun.reachable hL.1 hStore⟩⟩
    exact (hL.1 signal hSignal).step hRun.reachable hStore
  · intro i history w label s x hRun _ hL hStep
    obtain ⟨_, hStore⟩ := hStep.advances.step
    refine ⟨trivial, ⟨fun signal hSignal => ?_, hStep.settling hRun.reachable hL.1 hL.2⟩, fun j y _ hOther =>
      ⟨fun signal hSignal => (hOther.1 signal hSignal).step hRun.reachable hStore,
        hOther.2.step hRun.reachable hOther.1 hStore⟩⟩
    have hNext : Run setting (label :: history) ⟨s, Function.update w.procs i x⟩ := hRun.next (.act i hStep)
    exact (hNext.launched hForeign).2 i signal (by simpa using hSignal)

/-- A step that neither takes a message nor settles one. -/
def Label.Internal : Label → Prop
  | receive _ _ => False
  | ack _ _ => False
  | nack _ _ _ => False
  | _ => True

/-- The steps of a process, as far as its message goes. -/
inductive Act.Handling (i : Nat) : Process → Label → Process → Prop
  | received (message : Option Signal) :
      Handling i .idle (.receive i message) (.consumer (.receive message))
  | going {stage stage' : Stage} {label : Label} {signal : Signal} (hMessage : stage.message = some signal)
      (hMessage' : stage'.message = some signal) (hLabel : label.Internal) :
      Handling i (.consumer stage) label (.consumer stage')
  | acked (signal : Signal) : Handling i (.consumer (.acking signal)) (.ack i signal) (.consumer .finished)
  | nacked (signal : Option Signal) (requeue : Bool) :
      Handling i (.consumer (.nacking signal requeue)) (.nack i signal requeue) (.consumer .finished)
  | other {x x' : Process} {label : Label} (hProcess : ∀ stage, x' ≠ .consumer stage) (hIdle : x' ≠ .idle)
      (hLabel : label.Internal) : Handling i x label x'

theorem Label.internal_of (actor : Option Nat) (before : Database) (action : Store.Action) :
    (Label.of actor before action).Internal := by
  cases action <;> trivial

theorem Act.handling (h : Act setting i s x label s' x') : Act.Handling i x label x' := by
  cases h with
  | receive => exact .received _
  | check => exact .going rfl (Stage.message_afterEligible _ _) trivial
  | observe => exact .going rfl (Stage.message_afterObserve _ _ _) (Label.internal_of _ _ _)
  | acquire => exact .going rfl (Stage.message_afterAcquire _ _) trivial
  | claim => exact .going rfl (Stage.message_afterClaim _ _) (Label.internal_of _ _ _)
  | send => exact .going rfl rfl trivial
  | complete => exact .going rfl (Stage.message_afterComplete _ _) (Label.internal_of _ _ _)
  | defer | undeferred => exact .going rfl (Stage.message_afterDefer _ _) trivial
  | ack => exact .acked _
  | nack => exact .nacked _ _
  | claimOutbox | mark | release =>
    exact .other (fun _ h => by cases h) (fun h => by cases h) (Label.internal_of _ _ _)
  | publish | unpublished | crash =>
    exact .other (fun _ h => by cases h) (fun h => by cases h) trivial

theorem Label.Internal.ne_receive {message : Option Signal} (h : label.Internal) : label ≠ .receive i message := by
  rintro rfl
  exact h

theorem Act.Handling.not_received {j : Nat} {message : Option Signal} (hj : j ≠ i)
    (h : Act.Handling i x label x') : label ≠ .receive j message := by
  cases h with
  | received => exact fun h => hj (by cases h; rfl)
  | going _ _ hLabel => exact hLabel.ne_receive
  | acked | nacked => exact fun h => by cases h
  | other _ _ hLabel => exact hLabel.ne_receive

theorem Act.Handling.ack {j : Nat} {signal : Signal} (h : Act.Handling j x (.ack i signal) x') :
    j = i ∧ x = .consumer (.acking signal) := by
  cases h with
  | acked => exact ⟨rfl, rfl⟩
  | going _ _ hLabel => exact hLabel.elim
  | other _ _ hLabel => exact hLabel.elim

theorem Act.Handling.nack {j : Nat} {signal : Option Signal} {requeue : Bool}
    (h : Act.Handling j x (.nack i signal requeue) x') : j = i ∧ x = .consumer (.nacking signal requeue) := by
  cases h with
  | nacked => exact ⟨rfl, rfl⟩
  | going _ _ hLabel => exact hLabel.elim
  | other _ _ hLabel => exact hLabel.elim

/-- A message is what the stage is about or, in the end, settled. -/
def Stage.Accounts (i : Nat) (history : List Label) (message : Option Signal) : Stage → Prop
  | .finished => ∀ signal, message = some signal → .ack i signal ∈ history ∨ .nack i (some signal) true ∈ history
  | stage => message = stage.message

theorem Stage.accounts_iff {stage : Stage} {signal : Signal} {message : Option Signal}
    (hMessage : stage.message = some signal) : stage.Accounts i history message ↔ message = some signal := by
  rw [← hMessage]
  cases stage with
  | finished => cases hMessage
  | _ => exact Iff.rfl

theorem Stage.Accounts.next {stage : Stage} {message : Option Signal} (h : stage.Accounts i history message) :
    stage.Accounts i (label :: history) message := by
  cases stage with
  | finished => exact fun signal hMessage => (h signal hMessage).imp (List.mem_cons_of_mem _) (List.mem_cons_of_mem _)
  | _ => exact h

/-- A process handles the one message it received. -/
def Process.Handled (i : Nat) (history : List Label) : Process → Prop
  | .idle => ∀ message, .receive i message ∉ history
  | .consumer stage => ∀ message, .receive i message ∈ history → stage.Accounts i history message
  | _ => True

theorem Process.Handled.next (h : x.Handled i history) (hLabel : ∀ message, label ≠ .receive i message) :
    x.Handled i (label :: history) := by
  have hOld {message : Option Signal} (hMem : .receive i message ∈ label :: history) :
      .receive i message ∈ history :=
    (List.mem_cons.mp hMem).resolve_left fun hSame => hLabel message hSame.symm
  unfold Handled at h ⊢
  split
  · exact fun message hMem => h message (hOld hMem)
  · exact fun message hMem => (h message (hOld hMem)).next
  · trivial

theorem Act.Handling.handled {s : Store} (h : x.Handled i history) (hSettling : x.Settling i history s)
    (hStep : Act.Handling i x label x') :
    x'.Handled i (label :: history) := by
  cases hStep with
  | received message =>
    have hOnly (other : Option Signal) (hMem : .receive i other ∈ Label.receive i message :: history) :
        other = message := by
      rcases List.mem_cons.mp hMem with hSame | hOld
      · cases hSame
        rfl
      · exact absurd hOld (h other)
    intro other hMem
    cases message <;> exact hOnly other hMem
  | going hMessage hMessage' hLabel =>
    intro message hMem
    have hNext := Process.Handled.next h (fun _ => hLabel.ne_receive) message hMem
    exact (Stage.accounts_iff hMessage').mpr ((Stage.accounts_iff hMessage).mp hNext)
  | acked signal =>
    intro message hMem other hOther
    have hSame : message = some signal := h _ ((List.mem_cons.mp hMem).resolve_left fun h => by cases h)
    obtain rfl := Option.some.inj (hSame.symm.trans hOther)
    exact .inl List.mem_cons_self
  | nacked signal requeue =>
    intro message hMem other hOther
    have hSame : message = signal := h _ ((List.mem_cons.mp hMem).resolve_left fun h => by cases h)
    obtain rfl : signal = some other := hSame.symm.trans hOther
    rw [show requeue = true from hSettling]
    exact .inr List.mem_cons_self
  | other hProcess hIdle _ =>
    unfold Process.Handled
    split
    · exact absurd rfl hIdle
    · exact absurd rfl (hProcess _)
    · trivial

namespace System

theorem Run.handled (hForeign : ∀ signal, ¬setting.foreign signal) (h : Run setting history w) (i : Nat) :
    (w.procs i).Handled i history := by
  refine (Run.invariant (G := fun _ _ => True) (L := fun i history _ x => x.Handled i history)
    (fun _ => trivial) (fun _ _ _ h => by cases h) ?_ ?_ h).2 i
  · intro history w label s _ _ hStep
    refine ⟨trivial, fun i x hL => hL.next fun _ hLabel => ?_⟩
    cases hStep <;> cases hLabel
  · intro i history w label s x hRun _ hL hStep
    refine ⟨trivial, hStep.handling.handled hL (hRun.settling hForeign i), fun j y hj hOther => ?_⟩
    exact hOther.next fun message => hStep.handling.not_received hj

theorem Step.ack_stage {signal : Signal} (h : Step setting w (.ack i signal) w') :
    w.procs i = .consumer (.acking signal) := by
  cases h with
  | env h => cases h
  | act j h =>
    obtain ⟨rfl, hStage⟩ := h.handling.ack
    exact hStage

theorem Step.nack_stage {signal : Option Signal} {requeue : Bool}
    (h : Step setting w (.nack i signal requeue) w') : w.procs i = .consumer (.nacking signal requeue) := by
  cases h with
  | env h => cases h
  | act j h =>
    obtain ⟨rfl, hStage⟩ := h.handling.nack
    exact hStage

/-- A dead signal stays dead. A message is acknowledged only if its signal is dead or was deferred with a
confirm before, and every other message that decodes is put back. No signal in flight is early. -/
theorem ack_safety (hForeign : ∀ signal, ¬setting.foreign signal) (h : Run setting history w) :
    (∀ signal ∈ w.shared.signals, w.shared.store.Dead signal →
      ∀ w', Later setting w w' → w'.shared.store.Dead signal) ∧
    (∀ i signal w', Step setting w (.ack i signal) w' →
      w.shared.store.Dead signal ∨ .defer i signal ∈ history) ∧
    (∀ i signal requeue w', Step setting w (.nack i (some signal) requeue) w' → requeue = true) ∧
    (∀ i signal, w.procs i = .consumer .finished → .receive i (some signal) ∈ history →
      .ack i signal ∈ history ∨ .nack i (some signal) true ∈ history) ∧
    ∀ signal ∈ w.shared.signals, ∀ row, (w.shared.store.db.dossier signal.deliveryID).row = some row →
      row.generation = signal.generation → row.status = .pending → row.nextAttemptAt ≤ w.shared.store.now := by
  refine ⟨?_, ?_, ?_, ?_, ?_⟩
  · intro signal hSignal hDead w' hLater
    exact hDead.later h.reachable ((h.launched hForeign).1 signal hSignal) hLater.store
  · intro i signal w' hStep
    have hSettling := h.settling hForeign i
    rw [hStep.ack_stage] at hSettling
    exact hSettling
  · intro i signal requeue w' hStep
    have hSettling := h.settling hForeign i
    rw [hStep.nack_stage] at hSettling
    exact hSettling
  · intro i signal hFinished hReceived
    have hHandled := h.handled hForeign i
    rw [hFinished] at hHandled
    exact hHandled (some signal) hReceived signal rfl
  · intro signal hSignal row hRow
    exact (((h.launched hForeign).1 signal hSignal).2 row hRow).2

/-- The worker delivers and acknowledges; the signal stays in the broker as a duplicate, and stays dead. -/
theorem ack_safety_delivered :
    ∃ (history : List Label) (w w' : System), Run closedSetting history w ∧
      Step closedSetting w (.ack 1 ⟨100, 0, 102⟩) w' ∧ .defer 1 ⟨100, 0, 102⟩ ∉ history ∧
      ⟨100, 0, 102⟩ ∈ w.shared.signals ∧ w'.shared.store.Dead ⟨100, 0, 102⟩ := by
  have hPlay : ((start 0).play [] (Sample.claimedScript ++
      [.send 1 8000 9000 ⟨200, ""⟩ none, .complete 1 9 105])).any (fun run =>
        (run.2.execute (.ack 1)).any fun next =>
          (match next.1 with | .ack 1 ⟨100, 0, 102⟩ => true | _ => false) &&
          ⟨100, 0, 102⟩ ∈ run.2.shared.signals &&
          run.1.all fun label => match label with | .defer _ _ => false | _ => true) = true := by
    decide +kernel
  obtain ⟨⟨history, w⟩, hRun, hFacts⟩ := (Option.any_eq_true _ _).mp hPlay
  obtain ⟨⟨label, w'⟩, hNext, hFacts⟩ := (Option.any_eq_true _ _).mp hFacts
  simp only [Bool.and_eq_true, decide_eq_true_eq] at hFacts
  obtain ⟨⟨hLabel, hSignal⟩, hUndeferred⟩ := hFacts
  have hStep := step_of_execute hNext
  split at hLabel
  · have h : Run closedSetting history w := run_of_play ⟨0, .refl⟩ hRun
    have hNone : Label.defer 1 ⟨100, 0, 102⟩ ∉ history := fun hMem => by
      cases List.all_eq_true.mp hUndeferred _ hMem
    obtain ⟨hStays, hAck, _⟩ := ack_safety (fun _ h => h) h
    have hDead := (hAck 1 _ w' hStep).resolve_right hNone
    exact ⟨history, w, w', h, hStep, hNone, hSignal, hStays _ hSignal hDead w' (LabelledRun.Reachable.refl.next hStep)⟩
  · cases hLabel

end System

end ReliableNotifier
