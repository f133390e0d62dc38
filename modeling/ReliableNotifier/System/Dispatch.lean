import ReliableNotifier.Lifecycle.Window
import ReliableNotifier.System.Claims
import ReliableNotifier.System.Signals

/-! # The dispatch window over runs of the system

The windows of the store are carried over to signals and claims, and the retry
deadline is traced back to the acceptance or the replay that began its cycle.
-/

namespace ReliableNotifier

open RowTable

variable {setting : Setting} {history : List Label} {w w' : System} {s s' : Shared} {label : Label} {i : Nat}
  {x x' : Process} {r : Readings}

/-- Submissions come from the surroundings only. -/
def Label.Unsubmitted : Label → Prop
  | commit _ _ (.submit _ _ _ _ _) _ => False
  | _ => True

theorem Served.unsubmitted {β : Type} {s t : Store} {op : Op} {answer : Readings → Except StoreError β}
    {reply : Except StoreError β} {action : Store.Action} {actor : Option Nat} {before : Database}
    (h : Served s op answer reply action t) (hOp : ∀ actor r before, (Label.commit actor r op before).Unsubmitted) :
    (Label.of actor before action).Unsubmitted := by
  obtain ⟨_, rfl | ⟨r, rfl⟩⟩ := h.action
  · trivial
  · exact hOp actor r before

theorem Act.unsubmitted (h : Act setting i s x label s' x') : label.Unsubmitted := by
  cases h with
  | observe hServed | claim hServed | complete hServed | claimOutbox hServed | mark hServed | release hServed =>
    exact hServed.unsubmitted fun _ _ _ => trivial
  | receive | check | acquire | send | defer | undeferred | ack | nack | publish | unpublished | crash => trivial

theorem System.Step.admitted {actor : Option Nat} {backlogLimit : Int} {submission : Submission}
    {deliveryID outboxID traceID : UUID} {before : Database}
    (h : Step setting w (.commit actor r (.submit backlogLimit submission deliveryID outboxID traceID) before) w') :
    setting.admits submission := by
  cases h with
  | env h =>
    cases h with
    | commit hExternal _ => exact hExternal
  | act _ h => exact h.unsubmitted.elim

/-- The retry deadline ends a day that began with the acceptance or with the last replay. -/
structure Dossier.InCycle (d : Dossier) : Prop where
  audited : ∀ row, d.row = some row → ∀ audit ∈ d.audits, audit.toGeneration ≤ row.generation
  first : ∀ row, d.row = some row → d.audits = [] → row.retryDeadline = row.acceptedAt + microseconds day
  latest : ∀ row, d.row = some row → ∀ audit ∈ d.audits,
    (∀ other ∈ d.audits, other.toGeneration ≤ audit.toGeneration) →
      row.retryDeadline = audit.replayedAt + microseconds day

namespace Dossier

variable {op : Op} {d d' : Dossier}

/-- A move that leaves the audits, the deadline and the acceptance alone. -/
theorem InCycle.keep {row row' : DeliveryRow} {events events' : List OutboxEventRow}
    {attempts attempts' : List AttemptRow} {audits : List ReplayAuditRow}
    (h : InCycle ⟨some row, events, attempts, audits⟩)
    (hDeadline : row'.retryDeadline = row.retryDeadline) (hAccepted : row'.acceptedAt = row.acceptedAt)
    (hGeneration : row.generation ≤ row'.generation) : InCycle ⟨some row', events', attempts', audits⟩ := by
  refine ⟨?_, ?_, ?_⟩
  · rintro _ ⟨⟩ audit hAudit
    exact (h.audited row rfl audit hAudit).trans hGeneration
  · rintro _ ⟨⟩ hNone
    rw [hDeadline, hAccepted]
    exact h.first row rfl hNone
  · rintro _ ⟨⟩ audit hAudit hLatest
    rw [hDeadline]
    exact h.latest row rfl audit hAudit hLatest

theorem Move.inCycle (h : Move r op d d')
    (hFirst : ∀ backlogLimit submission deliveryID outboxID traceID,
      op = .submit backlogLimit submission deliveryID outboxID traceID → submission.FromAPI)
    (hCycle : d.InCycle) : d'.InCycle := by
  cases h with
  | @submit backlogLimit submission deliveryID outboxID traceID =>
    refine ⟨fun _ _ _ h => (by cases h), ?_, fun _ _ _ h => (by cases h)⟩
    rintro _ ⟨⟩ _
    simp only [Submission.row, (hFirst _ _ _ _ _ rfl).2, microseconds_add_day]
  | events | claim | expire | schedule => exact hCycle.keep rfl rfl le_rfl
  | @complete row _ _ _ completion =>
    refine hCycle.keep rfl rfl ?_
    simp only [DeliveryRow.complete]
    split <;> omega
  | recover | abandon =>
    refine hCycle.keep rfl rfl ?_
    simp only [DeliveryRow.recover]
    split <;> omega
  | @replay row events attempts audits replayedAt operatorID reason auditID outboxID traceID _ =>
    have hOld (audit : ReplayAuditRow) (hAudit : audit ∈ audits) := hCycle.audited row rfl audit hAudit
    refine ⟨?_, ?_, ?_⟩
    · rintro _ ⟨⟩ audit hAudit
      rcases List.mem_append.mp hAudit with hBefore | hNew
      · exact (hOld audit hBefore).trans (Nat.le_succ _)
      · exact (List.mem_singleton.mp hNew) ▸ le_rfl
    · rintro _ ⟨⟩ hNone
      simp at hNone
    · rintro _ ⟨⟩ audit hAudit hLatest
      rcases List.mem_append.mp hAudit with hBefore | hNew
      · -- an older audit is not the latest any more
        have hAbove := hLatest _ (List.mem_append_right _ (List.mem_singleton_self _))
        exact absurd (hOld audit hBefore) (Nat.not_le.mpr hAbove)
      · exact (List.mem_singleton.mp hNew) ▸ rfl
  | delete => exact ⟨fun _ h => (by cases h), fun _ h => (by cases h), fun _ h => (by cases h)⟩

end Dossier

namespace Store

variable {s t : Store} {id : UUID} {g : Nat} {a : Time}

/-- A signal in flight means that its generation has been due. -/
theorem Window.signal {signal : Signal} (hWindow : s.Window id g a) (hLaunched : s.Launched signal)
    (hID : signal.deliveryID = id) (hGeneration : signal.generation = g) : a ≤ s.now := by
  subst hID hGeneration
  rcases hWindow.2.inside with hStarted | ⟨row, hRow, hSame, hPending, _⟩
  · exact hStarted
  · exact hWindow.2.fixed row hRow hSame hPending ▸ (hLaunched.2 row hRow).2 hSame hPending

theorem Window.claim {owner : String} {leaseDuration : Duration} {token : UUID} (hs : s.Reachable)
    (hWindow : s.Window id g a) (h : Step s (.commit r (.claimDelivery id g owner leaseDuration token)) t) :
    ∃ row instant, (s.db.dossier id).row = some row ∧ row.nextAttemptAt = a ∧ s.now ≤ instant ∧
      instant ≤ t.now ∧ a ≤ instant ∧ instant < row.retryDeadline := by
  obtain ⟨row, hRow, hDue, _⟩ := h.claim_spec hs
  obtain ⟨_, hGeneration, hPending, hNext, hDeadline⟩ := DeliveryRow.due_iff.mp hDue
  have hFixed := hWindow.2.fixed row hRow hGeneration hPending
  obtain ⟨_, hClock, hNow⟩ := h.applied
  refine ⟨row, r.scan row.id 1, hRow, hFixed, hClock.trans (r.statement_le_scan _ _),
    hNow ▸ r.scan_le_finish _ _, ?_, hDeadline⟩
  exact hFixed ▸ hNext.trans (r.scan_mono _ (Nat.zero_le 1))

end Store

namespace System

variable {v u : System}

/-- The rule for an assertion on dossiers that every move keeps, when all submissions come from the API. -/
theorem Run.dossier_invariant {P : Dossier → Prop} (hFirst : P ⟨none, [], [], []⟩)
    (hMove : ∀ {r op d d'}, Dossier.Move r op d d' → (∀ backlogLimit submission deliveryID outboxID traceID,
      op = .submit backlogLimit submission deliveryID outboxID traceID → submission.FromAPI) → P d → P d')
    (hAdmits : ∀ submission, setting.admits submission → submission.FromAPI)
    (h : Run setting history w) (id : UUID) : P (w.shared.store.db.dossier id) := by
  obtain ⟨t, hRun⟩ := h
  induction hRun with
  | refl => exact hFirst
  | @next history v u label hPrior hStep ih =>
    cases Step.advances hStep with
    | keep _ hStore => exact hStore.waited.1 ▸ ih
    | commit hStore =>
      cases hStore.advance (Run.reachable ⟨t, hPrior⟩).integrity id with
      | stay _ _ hSame => exact hSame ▸ ih
      | move _ _ _ _ _ hMoves =>
        refine hMove hMoves (fun _ _ _ _ _ hOp => ?_) ih
        subst hOp
        exact hAdmits _ (Step.admitted hStep)

theorem Run.inCycle (hAdmits : ∀ submission, setting.admits submission → submission.FromAPI)
    (h : Run setting history w) (id : UUID) : (w.shared.store.db.dossier id).InCycle :=
  h.dossier_invariant ⟨fun _ h => (by cases h), fun _ h => (by cases h), fun _ h => (by cases h)⟩
    Dossier.Move.inCycle hAdmits id

theorem Step.window {id : UUID} {g : Nat} {a : Time}
    (hAdmits : ∀ submission, setting.admits submission → submission.FromAPI) (hs : v.shared.store.Reachable)
    (h : Step setting v label u)
    (hCreates : v.shared.store.Creates u.shared.store id g a) : u.shared.store.Window id g a := by
  cases h.advances with
  | keep _ hStore => exact hCreates.window hs hStore fun _ _ _ _ _ _ hAction => by cases hAction
  | commit hStore =>
    refine hCreates.window hs hStore fun _ _ _ _ _ _ hAction => ?_
    cases hAction
    exact hAdmits _ h.admitted

/-- From the step on that creates generation `g` with `next_attempt_at = a`: an event of a later generation
than the first exists only from `a` on, an event is available only from `a` on, also after it was reset, a
signal is in the broker only from `a` on, and a claim happens between `a` and the retry deadline. The
deadline is a day after the acceptance, or after the replay with the highest generation. -/
theorem dispatch_window (hForeign : ∀ signal, ¬setting.foreign signal)
    (hAdmits : ∀ submission, setting.admits submission → submission.FromAPI) (h : Run setting history v) :
    (∀ label u id g a w, Step setting v label u → v.shared.store.Creates u.shared.store id g a →
      Later setting u w →
      (0 < g → ∀ event ∈ (w.shared.store.db.dossier id).events, event.generation = g → a ≤ w.shared.store.now) ∧
      (∀ event ∈ (w.shared.store.db.dossier id).events, event.generation = g → a ≤ event.availableAt) ∧
      (∀ signal ∈ w.shared.signals, signal.deliveryID = id → signal.generation = g → a ≤ w.shared.store.now) ∧
      ∀ r owner leaseDuration token t,
        Store.Step w.shared.store (.commit r (.claimDelivery id g owner leaseDuration token)) t →
        ∃ row instant, (w.shared.store.db.dossier id).row = some row ∧ row.nextAttemptAt = a ∧
          w.shared.store.now ≤ instant ∧ instant ≤ t.now ∧ a ≤ instant ∧ instant < row.retryDeadline) ∧
    ∀ id row, (v.shared.store.db.dossier id).row = some row →
      ((v.shared.store.db.dossier id).audits = [] → row.retryDeadline = row.acceptedAt + microseconds day) ∧
      ∀ audit ∈ (v.shared.store.db.dossier id).audits,
        (∀ other ∈ (v.shared.store.db.dossier id).audits, other.toGeneration ≤ audit.toGeneration) →
          row.retryDeadline = audit.replayedAt + microseconds day := by
  constructor
  · intro label u id g a w hStep hCreates hLater
    obtain ⟨_, hRun⟩ := (h.next hStep).later hLater
    have hWindow := (hStep.window hAdmits h.reachable hCreates).later (h.next hStep).reachable hLater.store
    refine ⟨hWindow.2.emitted, hWindow.2.available, fun signal hSignal hID hGeneration => ?_,
      fun _ _ _ _ _ hClaim => hWindow.claim hRun.reachable hClaim⟩
    exact hWindow.signal ((hRun.launched hForeign).1 signal hSignal) hID hGeneration
  · intro id row hRow
    have hCycle := h.inCycle hAdmits id
    exact ⟨hCycle.first row hRow, hCycle.latest row hRow⟩

/-- A supplier asks for two seconds. The retry is scheduled a second late, and its signal is published then. -/
theorem dispatch_window_retry :
    ∃ (history : List Label) (v u w : System) (label : Label), Run closedSetting history v ∧
      Step closedSetting v label u ∧ v.shared.store.Creates u.shared.store 100 1 2000009 ∧
      Later closedSetting u w ∧ ⟨100, 1, 107⟩ ∈ w.shared.signals ∧ (2000009 : Time) ≤ w.shared.store.now := by
  have hPlay : ((start 0).play [] (Sample.claimedScript ++ [.send 1 8000 9000 ⟨503, "2"⟩ none])).any (fun run =>
        (run.2.execute (.complete 1 9 105)).any fun next =>
        ((run.2.shared.store.db.dossier 100).row.all fun row => row.generation ≠ 1) &&
        ((next.2.shared.store.db.dossier 100).row.any fun row =>
          row.generation = 1 && row.nextAttemptAt = 2000009) &&
        (next.2.play [] [.commit 3000000 (.scheduleDueRetries 10 (fun _ => false) (fun _ => 106) (fun _ => 107)),
          .claimOutbox 2 3000001 "publisher" 30000000000 10 108, .publish 2]).any fun final =>
            ⟨100, 1, 107⟩ ∈ final.2.shared.signals) = true := by
    decide +kernel
  obtain ⟨⟨history, v⟩, hRun, hFacts⟩ := (Option.any_eq_true _ _).mp hPlay
  obtain ⟨⟨label, u⟩, hNext, hFacts⟩ := (Option.any_eq_true _ _).mp hFacts
  simp only [Bool.and_eq_true] at hFacts
  obtain ⟨⟨hBefore, hAfter⟩, hFacts⟩ := hFacts
  obtain ⟨⟨_, w⟩, hMore, hSignal⟩ := (Option.any_eq_true _ _).mp hFacts
  obtain ⟨row, hRow, hCreated⟩ := (Option.any_eq_true _ _).mp hAfter
  have h : Run closedSetting history v := run_of_play ⟨0, .refl⟩ hRun
  have hStep := step_of_execute hNext
  have hCreates : v.shared.store.Creates u.shared.store 100 1 2000009 := by
    refine ⟨⟨row, hRow, by simpa using hCreated⟩, fun row hRow => ?_⟩
    rw [hRow] at hBefore
    simpa using hBefore
  have hWindow := (dispatch_window (fun _ h => h) (fun _ h => h) h).1 label u 100 1 2000009 w hStep hCreates
    (later_of_play hMore)
  exact ⟨history, v, u, w, label, h, hStep, hCreates, later_of_play hMore, of_decide_eq_true hSignal,
    hWindow.2.2.1 _ (of_decide_eq_true hSignal) rfl rfl⟩

end System

end ReliableNotifier
