import ReliableNotifier.System.Publication

/-! # Signals in flight

A signal that some process or the broker holds was handed out with a claimed event, so
its generation had begun and was due. Later steps only move the delivery further on.
-/

namespace ReliableNotifier

open Checked RowTable

variable {setting : Setting} {history : List Label} {w w' : System} {s s' : Shared} {label : Label} {i : Nat}
  {x x' : Process}

namespace Stage

/-- The message that is being handled, where it decodes. -/
def message : Stage → Option Signal
  | checking signal => some signal
  | observing signal _ => some signal
  | acquiring signal _ => some signal
  | claiming signal => some signal
  | sending signal _ _ => some signal
  | completing signal _ _ => some signal
  | deferring signal => some signal
  | acking signal => some signal
  | nacking signal _ => signal
  | finished => none

variable (signal : Signal)

@[simp] theorem message_receive (message : Option Signal) : (receive message).message = message := by
  cases message <;> rfl

@[simp] theorem message_afterProcess (ack : Bool) (err : Option StoreError) :
    (afterProcess signal ack err).message = some signal := by
  unfold afterProcess
  split
  · rfl
  · split <;> rfl

@[simp] theorem message_afterEligible (reply : Except StoreError DestinationVersion) :
    (afterEligible signal reply).message = some signal := by
  unfold afterEligible
  split <;> first | exact message_afterProcess signal _ _ | rfl

@[simp] theorem message_afterObserve (destination : DestinationVersion) (reply : Except StoreError Unit) :
    (afterObserve signal destination reply).message = some signal := by
  unfold afterObserve
  split <;> first | exact message_afterProcess signal _ _ | rfl

@[simp] theorem message_afterAcquire (granted : Bool) : (afterAcquire signal granted).message = some signal := by
  unfold afterAcquire
  split <;> first | exact message_afterProcess signal _ _ | rfl

@[simp] theorem message_afterClaim (reply : Except StoreError (Delivery × DestinationVersion)) :
    (afterClaim signal reply).message = some signal := by
  unfold afterClaim
  split <;> first | exact message_afterProcess signal _ _ | rfl

@[simp] theorem message_afterComplete (reply : Except StoreError Unit) :
    (afterComplete signal reply).message = some signal := by
  unfold afterComplete
  split <;> simp

@[simp] theorem message_afterDefer (deferred : Bool) : (afterDefer signal deferred).message = some signal := by
  unfold afterDefer
  split <;> rfl

end Stage

/-- The signals a process holds. -/
def Process.signals : Process → List Signal
  | .consumer stage => stage.message.toList
  | .publisher cycle => cycle.events.map OutboxEvent.signal
  | _ => []

namespace Store

variable {s t : Store} {action : Action} {signal : Signal}

/-- The generation of the signal has begun, and was due while it lasts. -/
def Launched (s : Store) (signal : Signal) : Prop :=
  signal.deliveryID ∈ s.issued ∧ ∀ row, (s.db.dossier signal.deliveryID).row = some row →
    signal.generation ≤ row.generation ∧
      (row.generation = signal.generation → row.status = .pending → row.nextAttemptAt ≤ s.now)

theorem Step.launched (hs : s.Reachable) (h : Step s action t) (hIssued : signal.deliveryID ∈ s.issued)
    (hRow : ∀ row, (s.db.dossier signal.deliveryID).row = some row → signal.generation ≤ row.generation ∧
      (row.generation = signal.generation → row.status = .pending → row.nextAttemptAt ≤ t.now)) :
    t.Launched signal := by
  refine ⟨h.issued_subset hIssued, fun row' hRow' => ?_⟩
  obtain ⟨row, hBefore, hKind⟩ := h.row_origin hs hIssued hRow'
  have hBound := (hRow row hBefore).1
  rcases hKind with rfl | ⟨_, _, hLeft | hRenewed⟩
  · exact hRow row' hBefore
  · exact ⟨hLeft.generation ▸ hBound, fun _ hPending => absurd hPending hLeft.status⟩
  · have hNext := hRenewed.generation
    exact ⟨by omega, fun hSame => by omega⟩

theorem Launched.step (hs : s.Reachable) (hLaunched : s.Launched signal) (h : Step s action t) :
    t.Launched signal :=
  h.launched hs hLaunched.1 fun row hRow =>
    (hLaunched.2 row hRow).imp_right fun hDue hSame hPending => (hDue hSame hPending).trans h.now_le

/-- What a claim hands out is launched. -/
theorem Step.granted_launched {r : Readings} {actor : Option Nat} {owner : String} {leaseDuration : Duration}
    {limit : Int} {locked : UUID → Bool} {token : UUID} {held : OutboxEvent} (hs : s.Reachable)
    (h : Step s (.commit r (.claimOutbox owner leaseDuration limit locked token)) t)
    (hHeld : held ∈ Label.grants (.commit actor r (.claimOutbox owner leaseDuration limit locked token) s.db)) :
    t.Launched held.signal := by
  obtain ⟨event, hChosen, rfl⟩ := List.mem_map.mp hHeld
  obtain ⟨hEvent, hAny⟩ := List.mem_filter.mp hChosen
  obtain ⟨candidate, hCandidate, hSame⟩ := List.any_eq_true.mp hAny
  obtain ⟨hMem, hMatch⟩ := mem_of_mem_batch _ hCandidate
  obtain rfl : candidate = event :=
    List.inj_on_of_nodup_map hs.integrity.eventIDs hMem hEvent (of_decide_eq_true hSame)
  obtain ⟨_, hAvailable, _⟩ := OutboxEventRow.claimable_iff.mp (Bool.and_eq_true_iff.mp hMatch).1
  obtain ⟨row, hRow, hOwner⟩ := hs.integrity.eventOwners candidate hEvent
  have hFound := hs.integrity.dossier_row_iff.mpr ⟨hRow, hOwner⟩
  have hOwned : candidate ∈ (s.db.dossier candidate.deliveryID).events := (mem_owned _).mpr ⟨hEvent, rfl⟩
  have hPaced := hs.paced candidate.deliveryID
  refine h.launched hs (hs.issued_of_phase (phase_of_row hFound)) fun row' hRow' => ?_
  refine ⟨hPaced.bounded row' hRow' candidate hOwned, fun hGeneration hPending => ?_⟩
  calc row'.nextAttemptAt ≤ candidate.availableAt :=
        hPaced.available row' hRow' hPending candidate hOwned hGeneration.symm
    _ ≤ r.scan candidate.id 0 := hAvailable
    _ ≤ t.now := h.applied.2.2 ▸ r.scan_le_finish _ _

end Store

/-- Where the signals in the broker and in the process that acts come from. -/
structure Act.Carries (setting : Setting) (s s' : Shared) (x x' : Process) (label : Label) : Prop where
  broker : ∀ signal ∈ s'.signals, signal ∈ s.signals ∨ signal ∈ x.signals
  process : ∀ signal ∈ x'.signals, signal ∈ x.signals ∨ signal ∈ s.signals ∨ setting.foreign signal ∨
    ∃ held ∈ label.grants, held.signal = signal

/-- A step that leaves the broker alone and goes on with what the process holds. -/
theorem Act.Carries.keep (hSignals : s'.signals = s.signals) (hSubset : x'.signals ⊆ x.signals) :
    Act.Carries setting s s' x x' label :=
  ⟨fun _ h => .inl (hSignals ▸ h), fun _ h => .inl (hSubset h)⟩

theorem Process.signals_of_held {cycle : Cycle} {events : List OutboxEvent}
    (h : held (.publisher cycle) ⊆ events) : signals (.publisher cycle) ⊆ events.map OutboxEvent.signal :=
  List.map_subset _ h

theorem Process.signals_of_message {stage stage' : Stage} {signal : Signal} (h : stage.message = some signal)
    (h' : stage'.message = some signal) : signals (.consumer stage') ⊆ signals (.consumer stage) := by
  simp only [signals, h, h', List.Subset.refl]

theorem Act.carries (h : Act setting i s x label s' x') : Act.Carries setting s s' x x' label := by
  cases h with
  | @receive message hMessage =>
    refine ⟨fun _ h => .inl h, fun signal hSignal => ?_⟩
    have hSame : message = some signal := by simpa [Process.signals] using hSignal
    exact .inr ((hMessage signal hSame).imp_right .inl)
  | check => exact .keep rfl (Process.signals_of_message rfl (Stage.message_afterEligible _ _))
  | observe => exact .keep rfl (Process.signals_of_message rfl (Stage.message_afterObserve _ _ _))
  | acquire => exact .keep rfl (Process.signals_of_message rfl (Stage.message_afterAcquire _ _))
  | claim => exact .keep rfl (Process.signals_of_message rfl (Stage.message_afterClaim _ _))
  | send => exact .keep rfl (Process.signals_of_message rfl rfl)
  | complete => exact .keep rfl (Process.signals_of_message rfl (Stage.message_afterComplete _ _))
  | ack | nack | crash => exact .keep rfl (List.nil_subset _)
  | @defer signal =>
    have hHeld : Process.signals (.consumer (.afterDefer signal true)) ⊆
        Process.signals (.consumer (.deferring signal)) :=
      Process.signals_of_message rfl (Stage.message_afterDefer signal true)
    refine ⟨fun other hOther => ?_, fun _ h => .inl (hHeld h)⟩
    exact (List.mem_cons.mp hOther).elim (fun h => .inr (List.mem_singleton.mpr h)) .inl
  | @undeferred signal signals hSignals =>
    have hHeld : Process.signals (.consumer (.afterDefer signal false)) ⊆
        Process.signals (.consumer (.deferring signal)) :=
      Process.signals_of_message rfl (Stage.message_afterDefer signal false)
    refine ⟨fun other hOther => ?_, fun _ h => .inl (hHeld h)⟩
    rcases hSignals with rfl | rfl
    · exact .inl hOther
    · exact (List.mem_cons.mp hOther).elim (fun h => .inr (List.mem_singleton.mpr h)) .inl
  | claimOutbox hServed =>
    refine ⟨fun _ h => .inl h, fun signal hSignal => .inr (.inr (.inr ?_))⟩
    obtain ⟨held, hHeld, rfl⟩ := List.mem_map.mp hSignal
    have hStep : Act setting i s .idle _ _ _ := .claimOutbox hServed
    exact ⟨held, (hStep.publication.granted hHeld).resolve_right List.not_mem_nil, rfl⟩
  | @publish published event rest =>
    refine ⟨fun other hOther => ?_, fun _ h => .inl h⟩
    exact (List.mem_cons.mp hOther).elim (fun h => .inr (h ▸ List.mem_cons_self)) .inl
  | @unpublished published event rest signals hSignals =>
    have hHeld := Process.signals_of_held (Process.held_releaseRemaining published (event :: rest)).1
    refine ⟨fun other hOther => ?_, fun _ h => .inl (hHeld h)⟩
    rcases hSignals with rfl | rfl
    · exact .inl hOther
    · exact (List.mem_cons.mp hOther).elim (fun h => .inr (h ▸ List.mem_cons_self)) .inl
  | @mark published event rest reply =>
    exact .keep rfl (Process.signals_of_held (Process.held_afterMark published event rest reply).1)
  | @release published event rest =>
    refine .keep rfl ?_
    exact List.Subset.trans (Process.signals_of_held (Process.held_releaseRemaining published rest).1)
      (List.subset_cons_self _ _)

theorem Label.grants_step (h : s.Advances s' label) {held : OutboxEvent} (hs : s.store.Reachable)
    (hHeld : held ∈ label.grants) : s'.store.Launched held.signal := by
  cases h with
  | keep hLabel _ =>
    unfold Label.grants at hHeld
    split at hHeld
    · exact absurd rfl (hLabel _ _ _ _)
    · cases hHeld
  | @commit actor r op hStep =>
    cases op with
    | claimOutbox => exact hStep.granted_launched hs hHeld
    | _ => cases hHeld

/-- If nobody else puts signals into the queue, every signal in flight is launched. -/
theorem System.Run.launched (hForeign : ∀ signal, ¬setting.foreign signal) (h : Run setting history w) :
    (∀ signal ∈ w.shared.signals, w.shared.store.Launched signal) ∧
      ∀ i, ∀ signal ∈ (w.procs i).signals, w.shared.store.Launched signal := by
  refine Run.invariant (G := fun _ s => ∀ signal ∈ s.signals, s.store.Launched signal)
    (L := fun _ _ s x => ∀ signal ∈ x.signals, s.store.Launched signal) ?_ ?_ ?_ ?_ h
  · intro t signal hSignal
    cases hSignal
  · intro i t signal hSignal
    cases hSignal
  · intro history w label s hRun hG hStep
    obtain ⟨_, hStore⟩ := hStep.advances.step
    refine ⟨fun signal hSignal => ?_, fun i x hL signal hSignal => (hL signal hSignal).step hRun.reachable hStore⟩
    have hSame : s.signals = w.shared.signals := by cases hStep <;> rfl
    exact (hG signal (hSame ▸ hSignal)).step hRun.reachable hStore
  · intro i history w label s x hRun hG hL hStep
    obtain ⟨_, hStore⟩ := hStep.advances.step
    obtain ⟨hBroker, hProcess⟩ := hStep.carries
    refine ⟨fun signal hSignal => ?_, fun signal hSignal => ?_,
      fun j y _ hOther signal hSignal => (hOther signal hSignal).step hRun.reachable hStore⟩
    · rcases hBroker signal hSignal with hOld | hHeld
      · exact (hG signal hOld).step hRun.reachable hStore
      · exact (hL signal hHeld).step hRun.reachable hStore
    · rcases hProcess signal hSignal with hHeld | hOld | hOther | ⟨held, hGranted, rfl⟩
      · exact (hL signal hHeld).step hRun.reachable hStore
      · exact (hG signal hOld).step hRun.reachable hStore
      · exact absurd hOther (hForeign signal)
      · exact Label.grants_step hStep.advances hRun.reachable hGranted

end ReliableNotifier
