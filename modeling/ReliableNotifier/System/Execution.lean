import ReliableNotifier.System.Model

/-! # Computed runs of the system

A script of commands drives one possible run: the store answers at once and at a
standing clock, and the broker and the sender return what the script says.
Every computed run is a run of the system, so concrete schedules can be evaluated.
-/

namespace ReliableNotifier

open Checked Interleaving

/-- All signals come from the publishers or from a deferral, and all submissions from the API. -/
def closedSetting : Setting := ⟨fun _ => False, Submission.FromAPI⟩

instance (submission : Submission) : Decidable submission.FromAPI := inferInstanceAs (Decidable (_ ∧ _))

def Op.external : Op → Bool
  | submit _ submission _ _ _ => submission.FromAPI
  | bootstrap _ _ | scheduleDueRetries _ _ _ _ | recoverExpiredDeliveries _ _ _ _ _
  | reconcileStalledSignals _ _ _ _ | replay _ _ _ _ _ _ _ | deleteExpiredTerminal _ _ _ _ => true
  | _ => false

theorem Op.external_iff {op : Op} : op.external = true ↔ op.External closedSetting := by
  cases op <;> simp [external, External, closedSetting]

namespace System

inductive Command where
  | commit (t : Time) (op : Op)
  | receive (i : Nat) (signal : Signal)
  | check (i : Nat) (t : Time)
  | observe (i : Nat) (t : Time)
  | acquire (i : Nat) (granted : Bool)
  | claim (i : Nat) (t : Time) (owner : String) (leaseDuration : Duration) (token : UUID)
  | send (i : Nat) (startedAt finishedAt : GoTime) (result : Result) (err : Option SendError)
  | complete (i : Nat) (t : Time) (attemptID : UUID)
  | ack (i : Nat)
  | claimOutbox (i : Nat) (t : Time) (owner : String) (leaseDuration : Duration) (limit : Int) (token : UUID)
  | publish (i : Nat)
  | unpublished (i : Nat)
  | mark (i : Nat) (t : Time)
  | release (i : Nat) (t : Time)

/-- Process `i` goes on to `x`. -/
def goOn (w : System) (i : Nat) (shared : Shared) (x : Process) : System := ⟨shared, Function.update w.procs i x⟩

/-- The store performs `op` at `t` for process `i`, which goes on with the answer. -/
def call {β : Type} (w : System) (i : Nat) (t : Time) (op : Op) (answer : Readings → Except StoreError β)
    (next : Except StoreError β → Process) : Option (Label × System) :=
  (w.shared.store.perform t op).bind fun store =>
    match answer (.instant t) with
    | .ok value => some (.commit (some i) (.instant t) op w.shared.store.db,
        w.goOn i { w.shared with store := store } (next (.ok value)))
    | .error _ => none

def execute (w : System) : Command → Option (Label × System)
  | .commit t op =>
    if op.external then (w.shared.store.perform t op).map fun store =>
      (.commit none (.instant t) op w.shared.store.db, { w with shared := { w.shared with store := store } })
    else none
  | .receive i signal => match w.procs i with
    | .idle => if signal ∈ w.shared.signals then
        some (.receive i (some signal), w.goOn i w.shared (.consumer (.receive (some signal))))
      else none
    | _ => none
  | .check i t => match w.procs i with
    | .consumer (.checking signal) => if w.shared.store.now ≤ t then
        some (.quiet, w.goOn i { w.shared with store := { w.shared.store with now := t } }
          (.consumer (.afterEligible signal
            (eligibleDestination (.instant t) signal.deliveryID signal.generation w.shared.store.db))))
      else none
    | _ => none
  | .observe i t => match w.procs i with
    | .consumer (.observing signal destination) =>
      w.call i t (.observeSignal signal.deliveryID signal.generation)
        (Op.answer (.observeSignal signal.deliveryID signal.generation) w.shared.store.db)
        fun reply => .consumer (.afterObserve signal destination reply)
    | _ => none
  | .acquire i granted => match w.procs i with
    | .consumer (.acquiring signal _) =>
      some (.quiet, w.goOn i w.shared (.consumer (.afterAcquire signal granted)))
    | _ => none
  | .claim i t owner leaseDuration token => match w.procs i with
    | .consumer (.claiming signal) =>
      w.call i t (.claimDelivery signal.deliveryID signal.generation owner leaseDuration token)
        (fun r => Prod.fst <$>
          claimDelivery r signal.deliveryID signal.generation owner leaseDuration token w.shared.store.db)
        fun reply => .consumer (.afterClaim signal reply)
    | _ => none
  | .send i startedAt finishedAt result err => match w.procs i with
    | .consumer (.sending signal task destination) =>
      let settled := settle (fun _ => none) (fun _ => 0) task destination startedAt finishedAt result err
      some (.send i task destination result err,
        w.goOn i w.shared (.consumer (.completing signal settled.1 settled.2)))
    | _ => none
  | .complete i t attemptID => match w.procs i with
    | .consumer (.completing signal completion attempt) =>
      w.call i t (.complete completion attempt attemptID)
        (Op.answer (.complete completion attempt attemptID) w.shared.store.db)
        fun reply => .consumer (.afterComplete signal reply)
    | _ => none
  | .ack i => match w.procs i with
    | .consumer (.acking signal) => some (.ack i signal, w.goOn i w.shared (.consumer .finished))
    | _ => none
  | .claimOutbox i t owner leaseDuration limit token => match w.procs i with
    | .idle =>
      w.call i t (.claimOutbox owner leaseDuration limit (fun _ => false) token)
        (fun r => Prod.fst <$>
          claimOutbox r owner leaseDuration limit (fun _ => false) token w.shared.store.db)
        fun reply => .publisher (.afterClaimOutbox reply)
    | _ => none
  | .publish i => match w.procs i with
    | .publisher (.publishing published event rest) =>
      some (.publish i event.signal, w.goOn i { w.shared with signals := event.signal :: w.shared.signals }
        (.publisher (.afterPublish published event rest true)))
    | _ => none
  | .unpublished i => match w.procs i with
    | .publisher (.publishing published event rest) =>
      some (.quiet, w.goOn i w.shared (.publisher (.afterPublish published event rest false)))
    | _ => none
  | .mark i t => match w.procs i with
    | .publisher (.marking published event rest) =>
      w.call i t (.markOutboxPublished event) (Op.answer (.markOutboxPublished event) w.shared.store.db)
        fun reply => .publisher (.afterMark published event rest reply)
    | _ => none
  | .release i t => match w.procs i with
    | .publisher (.releasing published event rest) =>
      w.call i t (.releaseOutbox event) (Op.answer (.releaseOutbox event) w.shared.store.db)
        fun _ => .publisher (.afterRelease published rest)
    | _ => none

/-- The labels of a script, newest first, and the system it ends in. -/
def play (history : List Label) (w : System) (script : List Command) : Option (List Label × System) :=
  LabelledRun.play execute history w script

variable {w w' : System} {label : Label}

theorem act_step {i : Nat} {shared : Shared} {x y : Process} (hHere : w.procs i = x)
    (h : Act closedSetting i w.shared x label shared y) : Step closedSetting w label (w.goOn i shared y) :=
  .act i (hHere ▸ h)

/-- A call that `Store.perform` can serve is one of the fates of that call. -/
theorem step_of_call {β : Type} {i : Nat} {t : Time} {op : Op} {answer : Readings → Except StoreError β}
    {next : Except StoreError β → Process} {x : Process} (h : w.call i t op answer next = some (label, w'))
    (hHere : w.procs i = x)
    (hAct : ∀ reply action store, Served w.shared.store op answer reply action store →
      Act closedSetting i w.shared x (.of (some i) w.shared.store.db action)
        { w.shared with store := store } (next reply)) :
    Step closedSetting w label w' := by
  obtain ⟨store, hStore, h⟩ := Option.bind_eq_some_iff.mp h
  split at h
  · rename_i value hAnswer
    cases h
    exact act_step hHere (hAct _ _ _ (.done (Store.step_of_perform hStore) hAnswer))
  · cases h

theorem step_of_execute {command : Command} (h : w.execute command = some (label, w')) :
    Step closedSetting w label w' := by
  cases command with
  | commit t op =>
    simp only [execute] at h
    split at h
    · rename_i hExternal
      obtain ⟨store, hStore, hPair⟩ := Option.map_eq_some_iff.mp h
      cases hPair
      exact .env (.commit (Op.external_iff.mp hExternal) (Store.step_of_perform hStore))
    · cases h
  | receive i signal =>
    simp only [execute] at h
    split at h
    · rename_i hHere
      split at h
      · rename_i hMem
        cases h
        exact act_step hHere (.receive fun other hOther => .inl (Option.some.inj hOther ▸ hMem))
      · cases h
    · cases h
  | check i t =>
    simp only [execute] at h
    split at h
    · rename_i signal hHere
      split at h
      · rename_i hClock
        cases h
        exact act_step hHere (.check (r := .instant t) hClock (.inl rfl))
      · cases h
    · cases h
  | observe i t =>
    simp only [execute] at h
    split at h
    · exact step_of_call h ‹_› fun _ _ _ hServed => .observe hServed
    · cases h
  | acquire i granted =>
    simp only [execute] at h
    split at h
    · cases h
      exact act_step ‹_› (.acquire granted)
    · cases h
  | claim i t owner leaseDuration token =>
    simp only [execute] at h
    split at h
    · exact step_of_call h ‹_› fun _ _ _ hServed => .claim hServed
    · cases h
  | send i startedAt finishedAt result err =>
    simp only [execute] at h
    split at h
    · cases h
      exact act_step ‹_› (.send (fun _ => none) (fun _ => 0) startedAt finishedAt result err)
    · cases h
  | complete i t attemptID =>
    simp only [execute] at h
    split at h
    · exact step_of_call h ‹_› fun _ _ _ hServed => .complete hServed
    · cases h
  | ack i =>
    simp only [execute] at h
    split at h
    · cases h
      exact act_step ‹_› .ack
    · cases h
  | claimOutbox i t owner leaseDuration limit token =>
    simp only [execute] at h
    split at h
    · exact step_of_call h ‹_› fun _ _ _ hServed => .claimOutbox hServed
    · cases h
  | publish i =>
    simp only [execute] at h
    split at h
    · cases h
      exact act_step ‹_› .publish
    · cases h
  | unpublished i =>
    simp only [execute] at h
    split at h
    · cases h
      exact act_step ‹_› (.unpublished (.inl rfl))
    · cases h
  | mark i t =>
    simp only [execute] at h
    split at h
    · exact step_of_call h ‹_› fun _ _ _ hServed => .mark hServed
    · cases h
  | release i t =>
    simp only [execute] at h
    split at h
    · exact step_of_call h ‹_› fun _ _ _ hServed => .release hServed
    · cases h

theorem run_of_play {history history' : List Label} {script : List Command} (hRun : Run closedSetting history w)
    (h : w.play history script = some (history', w')) : Run closedSetting history' w' :=
  let ⟨t, hFirst⟩ := hRun
  ⟨t, LabelledRun.run_of_play step_of_execute hFirst h⟩

theorem later_of_play {history : List Label} {script : List Command} (h : w.play [] script = some (history, w')) :
    Later closedSetting w w' :=
  ⟨history, LabelledRun.run_of_play step_of_execute .refl h⟩

end System

namespace Sample

/-- Accept, publish and hand out the signal, and bring the worker to its send. -/
def claimedScript : List System.Command :=
  [.commit 1 (.bootstrap 3 config), .commit 5 (.submit 10 submission 100 101 102),
   .claimOutbox 0 6 "publisher" 30000000000 10 103, .publish 0, .mark 0 7,
   .receive 1 ⟨100, 0, 102⟩, .check 1 8, .observe 1 8, .acquire 1 true, .claim 1 8 "worker" 90000000000 104]

end Sample

end ReliableNotifier
