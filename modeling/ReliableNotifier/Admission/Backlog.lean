import ReliableNotifier.Admission.Exclusion
import ReliableNotifier.Admission.Execution

/-! # The bound on the backlog

A submission counts the active deliveries and inserts its own in two statements. The lock
keeps every other submission out between them, and of the other operations only a replay
brings a delivery back into the backlog. The count therefore exceeds the limit by at most
the number of replays.
-/

namespace ReliableNotifier

open Checked RowTable

variable {r : Readings} {op : Op} {db db' : Database}

def DeliveryRow.active (row : DeliveryRow) : Bool := row.status = .pending || row.status = .delivering

theorem Database.activeCount_eq (db : Database) :
    db.activeCount = ((db.deliveries.filter DeliveryRow.active).map DeliveryRow.id).length := by
  rw [List.length_map, ← List.countP_eq_length_filter]
  rfl

/-- The delivery that a replay brings back. -/
def Op.revived : Op → Option UUID
  | .replay _ deliveryID .. => some deliveryID
  | _ => none

/-- A row is active because it was or because it has been replayed. -/
theorem Dossier.Move.active_origin {d d' : Dossier} {row' : DeliveryRow} (h : Move r op d d')
    (hOther : op.isSubmit = false) (hRow' : d'.row = some row') (hActive : row'.active = true) :
    op.revived = some row'.id ∨ ∃ row, d.row = some row ∧ row.active = true := by
  cases h with
  | submit => cases hOther
  | events =>
    cases hRow'
    exact .inr ⟨row', rfl, hActive⟩
  | @claim row _ _ _ _ _ _ hDue =>
    exact .inr ⟨row, rfl, by simp [DeliveryRow.active, (DeliveryRow.due_iff.mp hDue).2.2.1]⟩
  | @complete row _ _ _ _ _ _ hFenced =>
    exact .inr ⟨row, rfl, by simp [DeliveryRow.active, (DeliveryRow.fenced_iff.mp hFenced).2.2.1]⟩
  | @expire row _ _ _ _ _ _ _ hPast =>
    exact .inr ⟨row, rfl, by simp [DeliveryRow.active, (DeliveryRow.pastDeadline_iff.mp hPast).1]⟩
  | @schedule row _ _ _ _ _ _ _ hPending => exact .inr ⟨row, rfl, by simp [DeliveryRow.active, hPending]⟩
  | @recover row _ _ _ _ _ _ _ _ hExpired | @abandon row _ _ _ _ _ _ _ _ hExpired =>
    exact .inr ⟨row, rfl, by simp [DeliveryRow.active, (DeliveryRow.leaseExpired_iff.mp hExpired).1]⟩
  | replay =>
    cases hRow'
    exact .inl rfl
  | delete => cases hRow'

theorem Op.activeCount_le (hDb : Integrity db) (h : op.apply r db = .ok db') (hOther : op.isSubmit = false) :
    db'.activeCount ≤ op.revived.toList.length + db.activeCount := by
  have hDb' := Integrity.kept.apply h (fun _ _ => trivial) hDb
  rw [Database.activeCount_eq, Database.activeCount_eq, ← List.length_append]
  refine (List.subperm_of_subset ((List.filter_sublist.map _).nodup hDb'.deliveryIDs) fun id hID => ?_).length_le
  obtain ⟨row', hRow', rfl⟩ := List.mem_map.mp hID
  obtain ⟨hMem', hActive⟩ := List.mem_filter.mp hRow'
  have hFound' : (db'.dossier row'.id).row = some row' := hDb'.dossier_row_iff.mpr ⟨hMem', rfl⟩
  have hOld {row : DeliveryRow} (hRow : (db.dossier row'.id).row = some row) (hActive : row.active = true) :
      row'.id ∈ (db.deliveries.filter DeliveryRow.active).map DeliveryRow.id := by
    obtain ⟨hMem, hID⟩ := hDb.dossier_row_iff.mp hRow
    exact hID ▸ List.mem_map_of_mem (List.mem_filter.mpr ⟨hMem, hActive⟩)
  rcases Database.dossier_moves hDb h row'.id with hSame | hMove
  · exact List.mem_append_right _ (hOld (hSame ▸ hFound') hActive)
  · rcases hMove.active_origin hOther hFound' hActive with hRevived | ⟨row, hRow, hBefore⟩
    · exact List.mem_append_left _ (by simp [hRevived])
    · exact List.mem_append_right _ (hOld hRow hBefore)

/-- What `NewStore` returns. -/
structure Handle where
  backlogLimit : Int
  positive : 0 < backlogLimit

def newStore (pool : Bool) (backlogLimit : Int) : Except String Handle :=
  if pool = false then .error "delivery store requires a PostgreSQL pool"
  else if h : backlogLimit ≤ 0 then .error "backlog limit must be positive"
  else .ok ⟨backlogLimit, not_le.mp h⟩

/-- Every handle is what `NewStore` returns for its limit. -/
theorem newStore_ok_iff {pool : Bool} {backlogLimit : Int} {store : Handle} :
    newStore pool backlogLimit = .ok store ↔ pool = true ∧ backlogLimit = store.backlogLimit := by
  unfold newStore
  constructor
  · intro h
    split at h
    · cases h
    · rename_i hPool
      split at h
      · cases h
      · cases h
        exact ⟨eq_true_of_ne_false hPool, rfl⟩
  · rintro ⟨rfl, rfl⟩
    rw [if_neg Bool.noConfusion, dif_neg (not_le.mpr store.positive)]

namespace Admission

open Interleaving LabelledRun

variable {call : Call} {s s' : State} {client client' : Client} {label : Label} {history : List Label} {i j : Nat}
  {limit : Int} {t : Time} {w w' : World}

def Label.isReplay : Label → Bool
  | .operation (.commit _ op) .. => op.revived.isSome
  | _ => false

/-- The replays committed so far. -/
def replays (history : List Label) : Nat := history.countP Label.isReplay

theorem Env.activeCount_le (h : Env s label s') (hDb : Integrity s.store.db) :
    s'.store.db.activeCount ≤ s.store.db.activeCount + replays [label] := by
  cases h with
  | operation hStep hOther =>
    cases hStep with
    | wait => exact Nat.le_add_right _ _
    | @commit r op db _ _ _ hApply =>
      have hCount := Op.activeCount_le hDb hApply (hOther r op rfl)
      have hReplays : replays [.operation (.commit r op) s.store.db db] = op.revived.toList.length := by
        cases op <;> rfl
      rw [hReplays]
      exact hCount.trans (Nat.add_comm _ _).le

namespace Client

def call? : Client → Option Call
  | .idle => none
  | .active call _ | .returned call _ => some call

/-- The call has counted and has not committed. -/
def Admitted : Client → Prop
  | .active _ (.admitted _) | .active _ (.inserted _ _) | .active _ (.filled _ _) => True
  | _ => False

theorem Admitted.holds (h : client.Admitted) : client.Holds := by
  rcases client with _ | ⟨call, phase⟩ | _
  · exact h.elim
  · cases phase with
    | admitted | inserted | filled => trivial
    | begun | locked | missing | found => exact h.elim
  · exact h.elim

end Client

/-- The calls go through stores with one limit. -/
def Shares (limit : Int) (w : World) : Prop := ∀ i call, (w.procs i).call? = some call → call.backlogLimit = limit

theorem Act.call_eq (h : Act i s client label s' client') : client.call? = none ∨ client'.call? = client.call? := by
  cases h with
  | begin => exact .inl rfl
  | lock | statement | refused | commit | lost | fail => exact .inr rfl

/-- A call keeps its store, so that the limits at the end were those on the way. -/
theorem Shares.before (hShares : Shares limit w') (h : Step w label w') : Shares limit w := by
  cases h with
  | env => exact hShares
  | act i hAct =>
    intro j call hCall
    by_cases hji : j = i
    · subst hji
      rcases hAct.call_eq with hNone | hSame
      · rw [hNone] at hCall
        cases hCall
      · exact hShares j call (by simpa using hSame.trans hCall)
    · exact hShares j call (by simpa [Function.update_of_ne hji] using hCall)

theorem activeCount_withSubmission (row : DeliveryRow) (event : OutboxEventRow) (db : Database) :
    (withSubmission row event db).activeCount ≤ db.activeCount + 1 := by
  rw [Database.activeCount, withSubmission, List.countP_append, Database.activeCount]
  exact Nat.add_le_add_left List.countP_le_length _

/-- A call that may insert has room for its row, and no step of a call is a replay. -/
theorem Act.room {bound : Int} (h : Act i s client label s' client') (hClient : client.Sound history s.store)
    (hCall : ∀ call, client'.call? = some call → call.backlogLimit ≤ bound) (hCount : s.store.db.activeCount ≤ bound)
    (hRoom : client.Admitted → s.store.db.activeCount + 1 ≤ bound) :
    label.isReplay = false ∧ s'.store.db.activeCount ≤ bound ∧
      (client'.Admitted → s'.store.db.activeCount + 1 ≤ bound) ∧
      (s'.store.db = s.store.db ∨ client.Holds) := by
  cases h with
  | begin | lock | fail => exact ⟨rfl, hCount, fun h => h.elim, .inl rfl⟩
  | refused => exact ⟨rfl, hCount, fun h => h.elim, .inl rfl⟩
  | @statement call _ _ _ _ _ _ hNext =>
    refine ⟨rfl, hCount, fun hAdmitted => ?_, .inl rfl⟩
    cases Call.next_of_statement hNext with
    | missing | found => exact hAdmitted.elim
    | admitted hLimit => exact hLimit.trans_le (hCall call rfl)
    | inserted | filled => exact hRoom trivial
  | @commit call phase reply db hFinish | @lost call phase reply db hFinish =>
    refine ⟨rfl, ?_, fun h => h.elim, ?_⟩
    · cases hClient.1.commit hFinish with
      | found => exact hCount
      | filled =>
        exact (Int.ofNat_le.mpr (activeCount_withSubmission _ _ _)).trans (hRoom trivial)
    · cases hClient.1.commit hFinish with
      | found => exact .inl rfl
      | filled => exact .inr trivial

/-- The room that an admitted call counted stays free until it commits. -/
theorem Run.room (hw : Run Step (start t) history w) (hLimit : 0 ≤ limit) (hShares : Shares limit w) :
    (w.shared.store.db.activeCount : Int) ≤ limit + replays history ∧
      ∀ i, (w.procs i).Admitted → (w.shared.store.db.activeCount : Int) + 1 ≤ limit + replays history := by
  induction hw with
  | refl =>
    exact ⟨by simpa [start, Store.start, Database.activeCount, Database.empty, replays] using hLimit,
      fun _ h => h.elim⟩
  | @next history w w' label hRun hStep ih =>
    obtain ⟨hCount, hRoom⟩ := ih (hShares.before hStep)
    obtain ⟨hTables, hClients⟩ := Run.sound hRun
    have hReplays : replays (label :: history) = replays [label] + replays history := by
      simp [replays, List.countP_cons, Nat.add_comm]
    cases hStep with
    | env hEnv =>
      have hLe := hEnv.activeCount_le hTables.integrity
      rw [hReplays]
      refine ⟨?_, fun i hAdmitted => ?_⟩
      · dsimp only
        omega
      · have := hRoom i hAdmitted
        dsimp only
        omega
    | @act _ client' i hAct =>
      have hLimits (call : Call) (hCall : client'.call? = some call) : call.backlogLimit ≤ limit + replays history := by
        have hShare := hShares i call (by simpa using hCall)
        omega
      obtain ⟨hQuiet, hCount', hOwn, hSame⟩ := hAct.room (hClients i).2 hLimits hCount (hRoom i)
      have hNone : replays [label] = 0 := by simp [replays, hQuiet]
      rw [hReplays, hNone, Nat.zero_add]
      refine ⟨hCount', fun j hAdmitted => ?_⟩
      by_cases hji : j = i
      · subst hji
        exact hOwn (by simpa using hAdmitted)
      · have hOther : (w.procs j).Admitted := by simpa [Function.update_of_ne hji] using hAdmitted
        rcases hSame with hSame | hHolds
        · rw [hSame]
          exact hRoom j hOther
        · exact absurd (Option.some.inj (((hClients j).1.mpr hOther.holds).symm.trans ((hClients i).1.mpr hHolds))) hji

/-- Whatever the timing of the count and of the insert of racing submissions. -/
theorem backlog_bound (store : Handle) (hw : Run Step (start t) history w) (hShares : Shares store.backlogLimit w) :
    (w.shared.store.db.activeCount : Int) ≤ store.backlogLimit + replays history ∧
      ((∀ label ∈ history, label.isReplay = false) → (w.shared.store.db.activeCount : Int) ≤ store.backlogLimit) := by
  have hBound := (Run.room hw store.positive.le hShares).1
  refine ⟨hBound, fun hQuiet => ?_⟩
  have hNone : replays history = 0 := List.countP_eq_zero.mpr fun label hLabel => by simp [hQuiet label hLabel]
  simpa [hNone] using hBound

/-- A command gives a call a store only when it begins it. -/
theorem execute_call {command : Command} (h : execute w command = some (label, w')) (i : Nat) :
    (w'.procs i).call? = (w.procs i).call? ∨ ∃ call, command = .begin i call ∧ (w'.procs i).call? = some call := by
  have hGoOn {j : Nat} {s : State} {client : Client} (hSame : client.call? = (w.procs j).call?) :
      ((goOn w j s client).procs i).call? = (w.procs i).call? := by
    by_cases hij : i = j
    · subst hij
      simpa [goOn] using hSame
    · simp [goOn, Function.update_of_ne hij]
  cases command with
  | operation t op =>
    simp only [execute] at h
    split at h
    · cases h
    · obtain ⟨_, _, hSame⟩ := Option.map_eq_some_iff.mp h
      cases hSame
      exact .inl rfl
  | begin j call =>
    simp only [execute] at h
    split at h
    · cases h
      by_cases hij : i = j
      · subst hij
        exact .inr ⟨call, rfl, by simp [goOn, Client.call?]⟩
      · exact .inl (by simp [goOn, Function.update_of_ne hij])
    · cases h
  | lock j =>
    simp only [execute] at h
    split at h
    · rename_i hCall _
      cases h
      exact .inl (hGoOn (by rw [hCall]; rfl))
    · cases h
  | statement j t drawn =>
    simp only [execute] at h
    split at h
    · rename_i hCall
      split at h
      · split at h
        · cases h
          exact .inl (hGoOn (by rw [hCall]; rfl))
        · cases h
          exact .inl (hGoOn (by rw [hCall]; rfl))
        · cases h
      · cases h
    · cases h
  | commit j =>
    simp only [execute] at h
    split at h
    · rename_i hCall
      obtain ⟨_, _, hSame⟩ := Option.map_eq_some_iff.mp h
      cases hSame
      exact .inl (hGoOn (by rw [hCall]; rfl))
    · cases h

theorem shares_of_play {script : List Command} {later : List Label} (hShares : Shares limit w)
    (hScript : ∀ i call, .begin i call ∈ script → call.backlogLimit = limit)
    (h : play execute history w script = some (later, w')) : Shares limit w' := by
  induction script generalizing history w with
  | nil =>
    cases h
    exact hShares
  | cons command rest ih =>
    obtain ⟨⟨label, next⟩, hNext, hRest⟩ := Option.bind_eq_some_iff.mp h
    refine ih (fun i call hCall => ?_) (fun i call hCall => hScript i call (List.mem_cons_of_mem _ hCall)) hRest
    rcases execute_call hNext i with hSame | ⟨own, rfl, hOwn⟩
    · exact hShares i call (hSame ▸ hCall)
    · obtain rfl : own = call := Option.some.inj (hOwn.symm.trans hCall)
      exact hScript i own List.mem_cons_self

/-- A failed delivery makes room for another and is then replayed. -/
def crowded : List Command :=
  [.operation 1 (.bootstrap 3 Sample.config), .begin 0 ⟨1, Sample.submission⟩, .lock 0, .statement 0 5 ⟨0, 0, 0⟩,
    .statement 0 6 ⟨100, 101, 102⟩, .statement 0 7 ⟨0, 0, 0⟩, .statement 0 8 ⟨0, 0, 0⟩, .commit 0,
    .operation 8 (.claimDelivery 100 0 "worker" 90000000000 104), .operation 9 (.complete .permanent Sample.result 105),
    .begin 1 ⟨1, { Sample.submission with idempotencyKey := "order-2" }⟩, .lock 1, .statement 1 10 ⟨0, 0, 0⟩,
    .statement 1 11 ⟨200, 201, 202⟩, .statement 1 12 ⟨0, 0, 0⟩, .statement 1 13 ⟨0, 0, 0⟩, .commit 1,
    .operation 14 (.replay 14 100 "shop" "fixed" 106 107 108)]

theorem backlog_bound_crowded :
    ∃ (store : Handle) (history : List Label) (w : World), newStore true 1 = .ok store ∧
      Run Step (start 0) history w ∧ Shares 1 w ∧ replays history = 1 ∧ w.shared.store.db.activeCount = 2 ∧
      (w.shared.store.db.activeCount : Int) ≤ 1 + replays history := by
  have hPlay : (play execute [] (start 0) crowded).any (fun result => replays result.1 = 1 &&
      result.2.shared.store.db.activeCount = 2) = true := by
    decide +kernel
  obtain ⟨⟨history, w⟩, hResult, hState⟩ := (Option.any_eq_true _ _).mp hPlay
  obtain ⟨hReplays, hCount⟩ := Bool.and_eq_true_iff.mp hState
  have hRun : Run Step (start 0) history w := run_of_play step_of_execute .refl hResult
  have hShares : Shares 1 w := by
    refine shares_of_play (fun _ _ h => by cases h) (fun i call hCall => ?_) hResult
    simp only [crowded, List.mem_cons, Command.begin.injEq, reduceCtorEq, false_or, List.not_mem_nil, or_false] at hCall
    rcases hCall with ⟨_, rfl⟩ | ⟨_, rfl⟩ <;> rfl
  exact ⟨⟨1, by decide⟩, history, w, newStore_ok_iff.mpr ⟨rfl, rfl⟩, hRun, hShares, of_decide_eq_true hReplays,
    of_decide_eq_true hCount, (backlog_bound ⟨1, by decide⟩ hRun hShares).1⟩

end Admission

end ReliableNotifier
