import Mathlib.Data.List.Dedup
import Mathlib.Data.Rat.Defs
import Mathlib.Algebra.Order.Ring.Rat
import Mathlib.Tactic.Linarith
import ReliableNotifier.Api.Server
import ReliableNotifier.Lifecycle.Constraints
import ReliableNotifier.System.Execution

/-! # Operational metrics and alerts

`OperationalMetrics` reads the tables in two statements, each with a snapshot of its own.
The alerts compare what was read with fixed bounds, and the metrics endpoint shows it as
gauges. The totals by result class are counted anew from the attempts that are stored, so
they follow the committed results until retention takes some of them away.
-/

namespace ReliableNotifier

open Checked RowTable Interleaving LabelledRun

structure OperationalSnapshot where
  oldestPendingSeconds : Rat
  oldestOutboxSeconds : Rat
  expiredLeases : Nat
  permanentFailures : Nat
  resultClasses : List (String × Nat)

/-- `COALESCE(GREATEST(0, EXTRACT(EPOCH FROM now - oldest)), 0)`, with times in microseconds. -/
def ageSeconds (now : Time) : Option Time → Rat
  | none => 0
  | some oldest => max 0 ((now - oldest : Int) / 1000000)

namespace Database

variable (db : Database)

/-- The times that the oldest due pending delivery is taken from. -/
def duePending (r : Readings) : List Time :=
  (db.deliveries.filter fun row => row.status = .pending && row.nextAttemptAt ≤ r.scan row.id 0).map (·.nextAttemptAt)

def unpublished : List Time :=
  (db.outboxEvents.filter fun event => event.publishedAt = none).map (·.availableAt)

/-- `SELECT result_class, count(*) FROM delivery_attempts GROUP BY result_class`. -/
def resultClasses : List (String × Nat) :=
  (db.deliveryAttempts.map (·.resultClass.text)).dedup.map fun name =>
    (name, (db.deliveryAttempts.map (·.resultClass.text)).count name)

/-- `Store.OperationalMetrics`. The two ages are taken at instants of their own, and the attempts are
counted by a second statement. -/
def operationalMetrics (r : Readings) (pendingAt outboxAt : Time) (later : Database) : OperationalSnapshot where
  oldestPendingSeconds := ageSeconds pendingAt (db.duePending r).min?
  oldestOutboxSeconds := ageSeconds outboxAt db.unpublished.min?
  expiredLeases := db.deliveries.countP fun row =>
    row.status = .delivering && row.leaseUntil.any (· ≤ r.scan row.id 1)
  permanentFailures := db.deliveries.countP (·.status = .failedPermanent)
  resultClasses := later.resultClasses

end Database

/-- A line of the log, with its one attribute. -/
structure Warning where
  message : String
  key : String
  value : Rat
  deriving DecidableEq

def alertOperationalState (snapshot : OperationalSnapshot) : List Warning :=
  (if 60 ≤ snapshot.oldestPendingSeconds then
    [⟨"delivery backlog is aging", "oldest_pending_seconds", snapshot.oldestPendingSeconds⟩] else []) ++
  (if 60 ≤ snapshot.oldestOutboxSeconds then
    [⟨"Outbox publication is delayed", "oldest_outbox_seconds", snapshot.oldestOutboxSeconds⟩] else []) ++
  (if 0 < snapshot.expiredLeases then
    [⟨"expired Worker leases require reconciliation", "expired_leases", snapshot.expiredLeases⟩] else [])

/-- A sample of the metrics endpoint. The value of a gauge that is not a number is missing. -/
structure Gauge where
  name : String
  label : Option String
  value : Option Rat

/-- `newMetricsHandler`, up to the text format of the answer and the counters of the API. -/
def gauges (snapshot : OperationalSnapshot) (queueDepth : Option Int) : List Gauge :=
  [⟨"notifier_oldest_pending_seconds", none, some snapshot.oldestPendingSeconds⟩,
   ⟨"notifier_oldest_outbox_seconds", none, some snapshot.oldestOutboxSeconds⟩,
   ⟨"notifier_expired_leases", none, some snapshot.expiredLeases⟩,
   ⟨"notifier_queue_depth", none, queueDepth.map (↑)⟩,
   ⟨"notifier_rabbitmq_up", none, some (if queueDepth.isSome then 1 else 0)⟩,
   ⟨"notifier_permanent_failures", none, some snapshot.permanentFailures⟩] ++
  ["succeeded", "retryable_failure", "permanent_failure"].map fun name =>
    ⟨"notifier_delivery_results_total", some name, some ((snapshot.resultClasses.lookup name).getD 0 : Nat)⟩

/-! ## Alerts -/

/-- The age of the oldest of some times reaches a minute when one of them is a minute back. -/
theorem minute_le_ageSeconds {now : Int} {times : List Int} :
    60 ≤ ageSeconds now times.min? ↔ ∃ t ∈ times, t + 60000000 ≤ now := by
  have hMinute (t : Int) : 60 ≤ ageSeconds now (some t) ↔ t + 60000000 ≤ now := by
    have hZero : ¬(60 : Rat) ≤ 0 := by norm_num
    rw [ageSeconds, le_max_iff, or_iff_right hZero, le_div_iff₀ (by norm_num)]
    constructor
    · intro h
      have : (60000000 : Int) ≤ now - t := by exact_mod_cast h
      omega
    · intro h
      have : (60000000 : Int) ≤ now - t := by omega
      exact_mod_cast this
  cases hOldest : times.min? with
  | none =>
    rw [List.min?_eq_none_iff.mp hOldest]
    simp [ageSeconds]
  | some oldest =>
    obtain ⟨hMem, hLeast⟩ := List.min?_eq_some_iff.mp hOldest
    rw [hMinute]
    constructor
    · exact fun h => ⟨oldest, hMem, h⟩
    · rintro ⟨t, ht, hOld⟩
      have := hLeast t ht
      omega

/-- What deserves a warning at an instant. -/
inductive Concern (db : Database) (t : Time) : String → Prop
  | backlog {row : DeliveryRow} (hRow : row ∈ db.deliveries) (hPending : row.status = .pending)
      (hLate : row.nextAttemptAt + 60000000 ≤ t) : Concern db t "delivery backlog is aging"
  | outbox {event : OutboxEventRow} (hEvent : event ∈ db.outboxEvents) (hUnpublished : event.publishedAt = none)
      (hLate : event.availableAt + 60000000 ≤ t) : Concern db t "Outbox publication is delayed"
  | lease {row : DeliveryRow} {expiry : Time} (hRow : row ∈ db.deliveries) (hDelivering : row.status = .delivering)
      (hLease : row.leaseUntil = some expiry) (hLate : expiry ≤ t) :
      Concern db t "expired Worker leases require reconciliation"

theorem mem_messages {snapshot : OperationalSnapshot} {message : String} :
    message ∈ (alertOperationalState snapshot).map Warning.message ↔
      message = "delivery backlog is aging" ∧ 60 ≤ snapshot.oldestPendingSeconds ∨
      message = "Outbox publication is delayed" ∧ 60 ≤ snapshot.oldestOutboxSeconds ∨
      message = "expired Worker leases require reconciliation" ∧ 0 < snapshot.expiredLeases := by
  have hOne {p : Prop} [Decidable p] {warning : Warning} :
      message ∈ (if p then [warning] else []).map Warning.message ↔ message = warning.message ∧ p := by
    split <;> simp_all
  rw [alertOperationalState, List.map_append, List.map_append, List.mem_append, List.mem_append, hOne, hOne, hOne,
    or_assoc]

namespace Database

variable {db later : Database} {r : Readings} {pendingAt outboxAt : Time}

theorem minute_le_oldestPending :
    60 ≤ (db.operationalMetrics r pendingAt outboxAt later).oldestPendingSeconds ↔
      ∃ row ∈ db.deliveries, row.status = .pending ∧ row.nextAttemptAt ≤ r.scan row.id 0 ∧
        row.nextAttemptAt + 60000000 ≤ pendingAt := by
  rw [operationalMetrics, minute_le_ageSeconds]
  simp [duePending, and_assoc]

theorem minute_le_oldestOutbox :
    60 ≤ (db.operationalMetrics r pendingAt outboxAt later).oldestOutboxSeconds ↔
      ∃ event ∈ db.outboxEvents, event.publishedAt = none ∧ event.availableAt + 60000000 ≤ outboxAt := by
  rw [operationalMetrics, minute_le_ageSeconds]
  simp [unpublished, and_assoc]

theorem expiredLeases_pos :
    0 < (db.operationalMetrics r pendingAt outboxAt later).expiredLeases ↔
      ∃ row ∈ db.deliveries, row.status = .delivering ∧
        ∃ expiry, row.leaseUntil = some expiry ∧ expiry ≤ r.scan row.id 1 := by
  simp [operationalMetrics, List.countP_pos_iff, Option.any_eq_true]

end Database

/-- The warnings cover what was wrong when the statement began, and each is about something that is
wrong by its end. -/
theorem alerts_exact {db later : Database} {r : Readings} {pendingAt outboxAt : Time} {message : String}
    (hPendingAt : r.statement ≤ pendingAt ∧ pendingAt ≤ r.finish)
    (hOutboxAt : r.statement ≤ outboxAt ∧ outboxAt ≤ r.finish) :
    (Concern db r.statement message →
      message ∈ (alertOperationalState (db.operationalMetrics r pendingAt outboxAt later)).map Warning.message) ∧
    (message ∈ (alertOperationalState (db.operationalMetrics r pendingAt outboxAt later)).map Warning.message →
      Concern db r.finish message) := by
  rw [mem_messages, Database.minute_le_oldestPending, Database.minute_le_oldestOutbox, Database.expiredLeases_pos]
  constructor
  · intro hConcern
    cases hConcern with
    | @backlog row hRow hPending hLate =>
      have hDue : row.nextAttemptAt ≤ r.scan row.id 0 :=
        (Int.le_add_of_nonneg_right (by decide)).trans (hLate.trans (r.statement_le_scan row.id 0))
      exact .inl ⟨rfl, _, hRow, hPending, hDue, hLate.trans hPendingAt.1⟩
    | outbox hEvent hUnpublished hLate =>
      exact .inr (.inl ⟨rfl, _, hEvent, hUnpublished, hLate.trans hOutboxAt.1⟩)
    | lease hRow hDelivering hLease hLate =>
      exact .inr (.inr ⟨rfl, _, hRow, hDelivering, _, hLease, hLate.trans (r.statement_le_scan _ 1)⟩)
  · rintro (⟨rfl, _, hRow, hPending, _, hLate⟩ | ⟨rfl, _, hEvent, hUnpublished, hLate⟩ |
      ⟨rfl, _, hRow, hDelivering, _, hLease, hLate⟩)
    · exact .backlog hRow hPending (hLate.trans hPendingAt.2)
    · exact .outbox hEvent hUnpublished (hLate.trans hOutboxAt.2)
    · exact .lease hRow hDelivering hLease (hLate.trans (r.scan_le_finish _ 1))

/-- A delivery that has waited for a minute, read at an instant. -/
theorem alerts_exact_accepted :
    ∃ history w, System.Run closedSetting history w ∧
      Concern w.shared.store.db 60000005 "delivery backlog is aging" ∧
      "delivery backlog is aging" ∈ (alertOperationalState (w.shared.store.db.operationalMetrics
        (.instant 60000005) 60000005 60000005 w.shared.store.db)).map Warning.message := by
  have hPlay : ((System.start 0).play [] (Sample.claimedScript.take 2)).any (fun run =>
      run.2.shared.store.db.deliveries.any fun row => row.status = .pending &&
        row.nextAttemptAt + 60000000 ≤ 60000005) = true := by
    decide +kernel
  obtain ⟨⟨history, w⟩, hRun, hFacts⟩ := (Option.any_eq_true _ _).mp hPlay
  obtain ⟨row, hRow, hLate⟩ := List.any_eq_true.mp hFacts
  obtain ⟨hPending, hLate⟩ := Bool.and_eq_true_iff.mp hLate
  have hConcern : Concern w.shared.store.db 60000005 "delivery backlog is aging" :=
    .backlog hRow (of_decide_eq_true hPending) (of_decide_eq_true hLate)
  have hAt : (60000005 : Time) ≤ 60000005 ∧ (60000005 : Time) ≤ 60000005 := ⟨le_rfl, le_rfl⟩
  exact ⟨history, w, System.run_of_play ⟨0, .refl⟩ hRun, hConcern,
    (@alerts_exact _ _ (.instant 60000005) _ _ _ hAt hAt).1 hConcern⟩

/-! ## Results -/

/-- The classes of the attempts that an operation writes. -/
def Op.results (r : Readings) (db : Database) : Op → List ResultClass
  | complete completion _ _ => [completion.resultClass]
  | recoverExpiredDeliveries limit locked attemptIDs _ _ =>
    (recoveredDeliveries r limit locked db).map fun row => (row.recoveryAttempt r (attemptIDs row.id)).resultClass
  | _ => []

namespace Label

def results : Label → List ResultClass
  | commit _ r op before => op.results r before
  | _ => []

def isRetention : Label → Bool
  | commit _ _ op _ => op.isRetention
  | _ => false

/-- A success is recorded. -/
def succeeds : Label → Bool
  | commit _ _ (.complete .success _ _) _ => true
  | _ => false

/-- The supplier answers with a status that the destination version takes for a success. -/
def answered : Label → Bool
  | send _ _ destination result none => isSuccess result.statusCode destination.successStatuses
  | _ => false

end Label

namespace Database

variable {db db' : Database}

theorem updateDeliveries_attempts {p : DeliveryRow → Bool} {f : DeliveryRow → DeliveryRow}
    (h : db.updateDeliveries p f = .ok db') : db'.deliveryAttempts = db.deliveryAttempts := by
  obtain ⟨_, rfl⟩ := updateDeliveries_ok h
  rfl

theorem updateEvents_attempts {p : OutboxEventRow → Bool} {f : OutboxEventRow → OutboxEventRow}
    (h : db.updateEvents p f = .ok db') : db'.deliveryAttempts = db.deliveryAttempts := by
  obtain ⟨_, rfl⟩ := updateEvents_ok h
  rfl

theorem insertDelivery_attempts {row : DeliveryRow} (h : db.insertDelivery row = .ok db') :
    db'.deliveryAttempts = db.deliveryAttempts := by
  obtain ⟨_, _, _, _, rfl⟩ := insertDelivery_ok h
  rfl

theorem insertEvent_attempts {event : OutboxEventRow} (h : db.insertEvent event = .ok db') :
    db'.deliveryAttempts = db.deliveryAttempts := by
  obtain ⟨_, _, _, _, rfl⟩ := insertEvent_ok h
  rfl

theorem insertAudit_attempts {audit : ReplayAuditRow} (h : db.insertAudit audit = .ok db') :
    db'.deliveryAttempts = db.deliveryAttempts := by
  obtain ⟨_, _, rfl⟩ := insertAudit_ok h
  rfl

end Database

theorem Op.apply_results {r : Readings} {op : Op} {db db' : Database} (h : op.apply r db = .ok db')
    (hKeeps : op.isRetention = false) :
    db'.deliveryAttempts.map (·.resultClass) = db.deliveryAttempts.map (·.resultClass) ++ op.results r db := by
  have hSame (h : db'.deliveryAttempts = db.deliveryAttempts) :
      db'.deliveryAttempts.map (·.resultClass) = db.deliveryAttempts.map (·.resultClass) ++ [] := by
    rw [h, List.append_nil]
  cases op with
  | bootstrap apiKeyHash config => exact hSame (bootstrap_ok h).2.2.1
  | submit backlogLimit submission deliveryID outboxID traceID =>
    obtain ⟨⟨reply, final⟩, hSubmit, rfl⟩ := map_ok_iff.mp h
    rcases submit_ok hSubmit with ⟨_, _, _, _, rfl⟩ | ⟨_, _, _, hInsert⟩
    · exact hSame rfl
    · obtain ⟨middle, hDelivery, hEvent⟩ := insertSubmission_ok hInsert
      exact hSame ((Database.insertEvent_attempts hEvent).trans (Database.insertDelivery_attempts hDelivery))
  | claimOutbox owner leaseDuration limit locked token =>
    obtain ⟨⟨reply, final⟩, hClaim, rfl⟩ := map_ok_iff.mp h
    exact hSame (Database.updateEvents_attempts (claimOutbox_ok hClaim).2.1)
  | markOutboxPublished event => exact hSame (Database.updateEvents_attempts (markOutboxPublished_ok h).1)
  | releaseOutbox event => exact hSame (Database.updateEvents_attempts (releaseOutbox_ok h))
  | observeSignal deliveryID generation => exact hSame (Database.updateEvents_attempts h)
  | claimDelivery deliveryID generation owner leaseDuration token =>
    obtain ⟨⟨reply, final⟩, hClaim, rfl⟩ := map_ok_iff.mp h
    obtain ⟨_, _, hUpdate, _⟩ := claimDelivery_ok hClaim
    exact hSame (Database.updateDeliveries_attempts hUpdate)
  | complete completion result attemptID =>
    obtain ⟨completed, hUpdate, _, hInsert⟩ := completeResult_ok (Op.apply_complete h)
    obtain ⟨_, _, rfl⟩ := Database.insertAttempt_ok hInsert
    rw [List.map_append, Database.updateDeliveries_attempts hUpdate]
    rfl
  | scheduleDueRetries limit locked eventIDs traceIDs =>
    obtain ⟨expired, hUpdate, hInsert⟩ := scheduleDueRetries_ok h
    exact hSame ((Database.insertMissingEvents_attempts hInsert).trans (Database.updateDeliveries_attempts hUpdate))
  | recoverExpiredDeliveries limit locked attemptIDs eventIDs traceIDs =>
    obtain ⟨updated, recorded, hUpdate, hRecord, hInsert⟩ := recoverExpiredDeliveries_ok h
    rw [Database.insertMissingEvents_attempts hInsert, (Database.insertAttempts_ok hRecord).2, List.map_append,
      Database.updateDeliveries_attempts hUpdate, List.map_map]
    rfl
  | reconcileStalledSignals watchdog limit locked traceIDs =>
    exact hSame (Database.updateEvents_attempts (reconcileStalledSignals_ok h))
  | replay replayedAt deliveryID operatorID reason auditID outboxID traceID =>
    obtain ⟨⟨reply, final⟩, hReplay, rfl⟩ := map_ok_iff.mp h
    obtain ⟨_, updated, audited, _, hUpdate, hAudit, hInsert, _⟩ := replay_ok hReplay
    exact hSame ((Database.insertEvent_attempts hInsert).trans <|
      (Database.insertAudit_attempts hAudit).trans (Database.updateDeliveries_attempts hUpdate))
  | deleteExpiredTerminal successRetention failureRetention limit locked => cases hKeeps

theorem Op.apply_retention {r : Readings} {op : Op} {db db' : Database} (h : op.apply r db = .ok db')
    (hRetention : op.isRetention = true) : db'.deliveryAttempts.Sublist db.deliveryAttempts := by
  cases op with
  | deleteExpiredTerminal successRetention failureRetention limit locked =>
    obtain ⟨⟨deleted, final⟩, hDelete, rfl⟩ := map_ok_iff.mp h
    rw [deleteExpiredTerminal_ok hDelete]
    exact List.filter_sublist
  | _ => cases hRetention

/-- How many of the stored attempts are of a class. -/
def Database.total (db : Database) (c : ResultClass) : Nat := (db.deliveryAttempts.map (·.resultClass)).count c

theorem ResultClass.text_injective : Function.Injective text := by
  intro a b h
  cases a <;> cases b <;> first | rfl | exact absurd h (by decide)

theorem Database.lookup_resultClasses (db : Database) (c : ResultClass) :
    (db.resultClasses.lookup c.text).getD 0 = db.total c := by
  have hTotal : (db.deliveryAttempts.map (·.resultClass.text)).count c.text = db.total c := by
    rw [total, ← List.count_map_of_injective _ _ ResultClass.text_injective, List.map_map]
    rfl
  by_cases hMem : c.text ∈ db.deliveryAttempts.map (·.resultClass.text)
  · rw [resultClasses, List.lookup_graph _ (List.mem_dedup.mpr hMem), Option.getD_some, hTotal]
  · have hNone : db.resultClasses.lookup c.text = none := by
      rw [List.lookup_eq_none_iff]
      intro entry hEntry
      obtain ⟨name, hName, rfl⟩ := List.mem_map.mp hEntry
      rw [bne_iff_ne]
      rintro rfl
      exact hMem (List.mem_dedup.mp hName)
    rw [hNone, Option.getD_none, ← hTotal, List.count_eq_zero_of_not_mem hMem]

theorem gauges_result {snapshot : OperationalSnapshot} {queueDepth : Option Int} (c : ResultClass) :
    (gauges snapshot queueDepth).filter (fun gauge => gauge.label = some c.text) =
      [⟨"notifier_delivery_results_total", some c.text,
        some ((snapshot.resultClasses.lookup c.text).getD 0 : Nat)⟩] := by
  cases c <;> simp [gauges, ResultClass.text]

theorem Label.results_succeeded (label : Label) : label.results.count .succeeded = if label.succeeds then 1 else 0 := by
  cases label with
  | commit actor r op before =>
    cases op with
    | complete completion result attemptID => cases completion <;> rfl
    | recoverExpiredDeliveries limit locked attemptIDs eventIDs traceIDs =>
      refine List.count_eq_zero_of_not_mem fun hMem => ?_
      obtain ⟨row, _, hClass⟩ := List.mem_map.mp hMem
      rw [DeliveryRow.recoveryAttempt] at hClass
      split at hClass <;> cases hClass
    | _ => rfl
  | _ => rfl

theorem Label.count_succeeded (history : List Label) :
    (history.flatMap results).count .succeeded = history.countP succeeds := by
  induction history with
  | nil => rfl
  | cons label rest ih =>
    rw [List.flatMap_cons, List.count_append, ih, results_succeeded, List.countP_cons, Nat.add_comm]

/-! ## Successes -/

/-- A worker that is about to record a success. -/
def Process.Succeeding : Process → Prop
  | .consumer (.completing _ .success _) => True
  | _ => False

theorem Process.succeeding_completing {signal : Signal} {completion : Completion} {attempt : AttemptResult} :
    (Process.consumer (.completing signal completion attempt)).Succeeding ↔ completion = .success := by
  cases completion <;> simp [Succeeding]

theorem Label.Plain.succeeds {label : Label} (h : label.Plain) : label.succeeds = false := by
  cases label with
  | commit actor r op before =>
    cases op with
    | complete => exact absurd h id
    | _ => rfl
  | _ => rfl

theorem Process.Inert.not_succeeding {x : Process} (h : x.Inert) : ¬x.Succeeding := by
  cases x with
  | consumer stage =>
    cases stage with
    | completing => exact absurd h id
    | _ => exact id
  | _ => exact id

/-- A success is recorded by a worker that is about to, and a worker is about to after the answer to
its request. -/
theorem Act.succeeding {setting : Setting} {i : Nat} {s s' : Shared} {x x' : Process} {label : Label}
    (h : Act setting i s x label s' x') :
    (label.succeeds = true → x.Succeeding ∧ ¬x'.Succeeding) ∧
      (x'.Succeeding → label.answered = true ∧ ¬x.Succeeding) := by
  cases h.kind with
  | plain hLabel hInert =>
    refine ⟨fun hNow => ?_, fun hAfter => absurd hAfter hInert.not_succeeding⟩
    cases hLabel.succeeds.symm.trans hNow
  | claimed =>
    refine ⟨fun hNow => ?_, fun hAfter => absurd hAfter id⟩
    cases hNow
  | claimLost _ hInert =>
    refine ⟨fun hNow => ?_, fun hAfter => absurd hAfter hInert.not_succeeding⟩
    cases hNow
  | sent =>
    refine ⟨fun hNow => ?_, fun hAfter => ⟨?_, id⟩⟩
    · cases hNow
    · obtain ⟨rfl, hSuccess⟩ := settle_success_iff.mp (Process.succeeding_completing.mp hAfter)
      exact hSuccess
  | @completed _ completion _ _ _ _ _ hInert =>
    refine ⟨fun hNow => ⟨?_, hInert.not_succeeding⟩, fun hAfter => absurd hAfter hInert.not_succeeding⟩
    cases completion with
    | success => trivial
    | _ => cases hNow

namespace System

variable {setting : Setting} {history : List Label} {w w' : System} {label : Label}

theorem Step.total (h : Step setting w label w') (c : ResultClass) :
    w'.shared.store.db.total c ≤ label.results.count c + w.shared.store.db.total c ∧
      (label.isRetention = false →
        w'.shared.store.db.total c = label.results.count c + w.shared.store.db.total c) := by
  cases h.advances with
  | keep hLabel hStore =>
    have hNothing : label.results = [] := by
      cases label with
      | commit actor r op before => exact absurd rfl (hLabel actor r op before)
      | _ => rfl
    rw [hStore.waited.1, hNothing]
    exact ⟨(Nat.zero_add _).ge, fun _ => (Nat.zero_add _).symm⟩
  | @commit actor r op hStore =>
    have hApply := hStore.applied.1
    by_cases hRetention : op.isRetention = true
    · have hSub := (Op.apply_retention hApply hRetention).map (·.resultClass)
      exact ⟨(hSub.count_le c).trans (Nat.le_add_left _ _), fun hKeeps => by cases hRetention.symm.trans hKeeps⟩
    · have hTotal : w'.shared.store.db.total c = (op.results r w.shared.store.db).count c +
          w.shared.store.db.total c := by
        rw [Database.total, Op.apply_results hApply (Bool.eq_false_of_not_eq_true hRetention), List.count_append,
          Nat.add_comm]
        rfl
      exact ⟨hTotal.le, fun _ => hTotal⟩

theorem Run.total (h : Run setting history w) (c : ResultClass) :
    w.shared.store.db.total c ≤ (history.flatMap Label.results).count c ∧
      ((∀ label ∈ history, label.isRetention = false) →
        w.shared.store.db.total c = (history.flatMap Label.results).count c) := by
  obtain ⟨t, hRun⟩ := h
  induction hRun with
  | refl => exact ⟨le_rfl, fun _ => rfl⟩
  | next _ hStep ih =>
    obtain ⟨hMost, hExact⟩ := Step.total hStep c
    rw [List.flatMap_cons, List.count_append]
    refine ⟨hMost.trans (Nat.add_le_add_left ih.1 _), fun hKeeps => ?_⟩
    obtain ⟨hLast, hBefore⟩ := List.forall_mem_cons.mp hKeeps
    rw [hExact hLast, ih.2 hBefore]

/-- Every success that was recorded or is about to be answers a send of its own. -/
theorem Run.successes (h : Run setting history w) :
    ∃ n, Counts w.procs Process.Succeeding n ∧ history.countP Label.succeeds + n ≤ history.countP Label.answered := by
  obtain ⟨t, hRun⟩ := h
  induction hRun with
  | refl => exact ⟨0, .none fun _ => id, le_rfl⟩
  | @next history w w' label _ hStep ih =>
    obtain ⟨n, hCounts, hBound⟩ := ih
    rw [List.countP_cons, List.countP_cons]
    cases hStep with
    | env h =>
      rw [h.plain.succeeds]
      exact ⟨n, hCounts, by simp; omega⟩
    | @act _ x i h =>
      obtain ⟨hRecorded, hSent⟩ := h.succeeding
      by_cases hAfter : x.Succeeding
      · obtain ⟨hAnswered, hBefore⟩ := hSent hAfter
        have hNot : label.succeeds = false := Bool.eq_false_of_not_eq_true fun hNow => (hRecorded hNow).2 hAfter
        rw [hNot, hAnswered]
        exact ⟨n + 1, hCounts.enter hBefore hAfter, by simp; omega⟩
      · by_cases hBefore : (w.procs i).Succeeding
        · obtain ⟨m, rfl⟩ := Nat.exists_eq_add_one.mpr (hCounts.pos hBefore)
          refine ⟨m, hCounts.leave hBefore hAfter, ?_⟩
          split <;> split <;> omega
        · have hNot : label.succeeds = false := Bool.eq_false_of_not_eq_true fun hNow => hBefore (hRecorded hNow).1
          rw [hNot]
          exact ⟨n, hCounts.stay (iff_of_false hAfter hBefore), by simp; omega⟩

/-- Each class has one gauge. It shows at most what was ever recorded of the class, and all of it as long as
retention has not run; for successes it never shows more than the suppliers have answered. -/
theorem result_gauges (h : Run setting history w) (first : Database) (r : Readings) (pendingAt outboxAt : Time)
    (queueDepth : Option Int) (c : ResultClass) :
    ∃ total : Nat,
      (gauges (first.operationalMetrics r pendingAt outboxAt w.shared.store.db) queueDepth).filter
        (fun gauge => gauge.label = some c.text) =
          [⟨"notifier_delivery_results_total", some c.text, some total⟩] ∧
      total ≤ (history.flatMap Label.results).count c ∧
      ((∀ label ∈ history, label.isRetention = false) → total = (history.flatMap Label.results).count c) ∧
      (c = .succeeded → total ≤ history.countP Label.answered) := by
  obtain ⟨hMost, hExact⟩ := Run.total h c
  refine ⟨w.shared.store.db.total c, ?_, hMost, hExact, ?_⟩
  · rw [gauges_result, ← Database.lookup_resultClasses]
    rfl
  · rintro rfl
    obtain ⟨n, _, hAnswered⟩ := Run.successes h
    have hRecorded := Label.count_succeeded history
    omega

/-- A recorded success. -/
theorem result_gauges_success :
    ∃ history w, Run closedSetting history w ∧ ∃ total : Nat,
      (gauges (w.shared.store.db.operationalMetrics (.instant 9) 9 9 w.shared.store.db) (some 0)).filter
        (fun gauge => gauge.label = some "succeeded") =
          [⟨"notifier_delivery_results_total", some "succeeded", some total⟩] ∧ total = 1 := by
  have hPlay : ((start 0).play [] (Sample.claimedScript ++
      [.send 1 8000 9000 ⟨200, ""⟩ none, .complete 1 9 105])).any (fun run =>
        run.1.all (fun label => !label.isRetention) &&
        (run.1.flatMap Label.results).count .succeeded = 1) = true := by
    decide +kernel
  obtain ⟨⟨history, w⟩, hRun, hFacts⟩ := (Option.any_eq_true _ _).mp hPlay
  obtain ⟨hKeeps, hOne⟩ := Bool.and_eq_true_iff.mp hFacts
  have h : Run closedSetting history w := run_of_play ⟨0, .refl⟩ hRun
  obtain ⟨total, hGauge, _, hExact, _⟩ :=
    result_gauges h w.shared.store.db (.instant 9) 9 9 (some 0) .succeeded
  refine ⟨history, w, h, total, hGauge, (hExact fun label hLabel => ?_).trans (of_decide_eq_true hOne)⟩
  simpa using List.all_eq_true.mp hKeeps label hLabel

end System

end ReliableNotifier
