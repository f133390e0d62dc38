import ReliableNotifier.Admission.Exclusion
import ReliableNotifier.Admission.Execution

/-! # Caller idempotency under concurrency

However the statements of concurrent submissions interleave with each other and with the
other operations, a caller's key names one delivery as long as retention does not delete
it, and every submission for the key is answered from that delivery.
-/

namespace ReliableNotifier.Admission

open Checked RowTable Interleaving LabelledRun

variable {call : Call} {s s' : State} {client client' : Client} {label : Label} {history : List Label} {i j : Nat}
  {row : DeliveryRow} {t : Time} {w w' : World}

/-! ## Calls for a key that has a row -/

/-- The answer to a call for the key of `row`. A failure of the database aside, only the hash decides. -/
def Answers (row : DeliveryRow) (call : Call) (reply : Except StoreError Delivery) : Prop :=
  reply = .error .unavailable ∨
    (row.requestHash = call.submission.requestHash ∧ ∃ delivery, reply = .ok delivery ∧ delivery.id = row.id) ∨
    (row.requestHash ≠ call.submission.requestHash ∧ reply = .error .idempotencyConflict)

namespace Client

/-- The call has not looked its key up. -/
def Early : Client → Prop
  | .idle | .active _ .begun | .active _ .locked => True
  | _ => False

def Follows (row : DeliveryRow) : Client → Prop
  | .idle | .active _ .begun | .active _ .locked => True
  | .active call (.found existing) => call.key = row.callerKey →
      existing.id = row.id ∧ row.requestHash = call.submission.requestHash
  | .active call _ => call.key ≠ row.callerKey
  | .returned call reply => call.key = row.callerKey → Answers row call reply

theorem Early.follows (h : client.Early) : client.Follows row := by
  rcases client with _ | ⟨call, phase⟩ | ⟨call, reply⟩
  · trivial
  · cases phase with
    | begun | locked => trivial
    | _ => exact h.elim
  · exact h.elim

end Client

/-- The row as it is now: some columns may have changed, its key, its identifier and its hash have not. -/
def Persists (row : DeliveryRow) (db : Database) : Prop :=
  ∃ row' ∈ db.deliveries, row'.callerKey = row.callerKey ∧ row'.id = row.id ∧ row'.requestHash = row.requestHash

theorem Persists.of_key {existing : DeliveryRow} {db : Database} (h : Persists row db) (hDb : Integrity db)
    (hMem : existing ∈ db.deliveries) (hKey : existing.callerKey = row.callerKey) :
    existing.id = row.id ∧ existing.requestHash = row.requestHash := by
  obtain ⟨row', hRow', hSame, hBoth⟩ := h
  obtain rfl : existing = row' := List.inj_on_of_nodup_map hDb.callerKeys hMem hRow' (hKey.trans hSame.symm)
  exact hBoth

theorem Act.follows (h : Act i s client label s' client') (hDb : Integrity s.store.db)
    (hRow : Persists row s.store.db) (hClient : client.Follows row) : client'.Follows row := by
  cases h with
  | begin | lock => trivial
  | statement _ _ hNext =>
    cases Call.next_of_statement hNext with
    | missing hNone =>
      obtain ⟨row', hRow', hSame, _⟩ := hRow
      exact fun hKey => hNone row' hRow' (hSame.trans hKey.symm)
    | found hMem hKey hHash =>
      intro hSame
      obtain ⟨hID, hHash'⟩ := hRow.of_key hDb hMem (hKey.trans hSame)
      exact ⟨hID, hHash'.symm.trans hHash⟩
    | admitted | inserted | filled => exact hClient
  | refused _ hError =>
    intro hSame
    cases Call.refusal_of_statement hError with
    | conflict hMem hKey hHash =>
      obtain ⟨_, hHash'⟩ := hRow.of_key hDb hMem (hKey.trans hSame)
      exact .inr (.inr ⟨hHash' ▸ hHash, rfl⟩)
    | capacity | delivery | event => exact absurd hSame hClient
  | @commit call phase reply db hFinish =>
    intro hSame
    cases phase with
    | found existing =>
      cases hFinish
      obtain ⟨hID, hHash⟩ := hClient hSame
      exact .inr (.inl ⟨hHash, _, rfl, hID⟩)
    | filled => exact absurd hSame hClient
    | begun | locked | missing | admitted | inserted => cases hFinish
  | lost | fail => exact fun _ => .inl rfl

/-- What a step does to the tables. -/
theorem Step.effect (h : Step w label w') (hw : Run Step (start t) history w) :
    label.before = w.shared.store.db ∧ label.after = w'.shared.store.db ∧
      (Interference w.shared.store w'.shared.store ∨
        ∃ call phase reply, Call.Commit call w.shared.store.db phase reply w'.shared.store.db) := by
  obtain ⟨hTables, hClients⟩ := Run.sound hw
  cases h with
  | env hEnv =>
    obtain ⟨_, hBefore, hAfter, hMove⟩ := hEnv.effect hTables.integrity
    exact ⟨hBefore, hAfter, .inl hMove⟩
  | act i hAct =>
    obtain ⟨hBefore, hAfter, hEffect⟩ := hAct.effect hTables.integrity (hClients i).2
    exact ⟨hBefore, hAfter, hEffect.imp_right And.right⟩

theorem Persists.step (hRow : Persists row w.shared.store.db) (hw : Run Step (start t) history w)
    (h : Step w label w') (hKept : ¬label.Removes row.callerKey) : Persists row w'.shared.store.db := by
  obtain ⟨row', hMem, hSame⟩ := hRow
  obtain ⟨hBefore, hAfter, hMove | ⟨_, _, _, hCommit⟩⟩ := Step.effect h hw
  · obtain ⟨last, hLast, hOrigin⟩ := hMove.survives (Run.sound hw).1.integrity hBefore hAfter hMem (hSame.1 ▸ hKept)
    exact ⟨last, hLast, hOrigin.1.trans hSame.1, hOrigin.2.1.trans hSame.2.1, hOrigin.2.2.trans hSame.2.2⟩
  · exact ⟨row', hCommit.rows_subset hMem, hSame⟩

theorem Run.follows {more : List Label} (hw : Run Step (start t) history w) (h : Run Step w more w')
    (hRow : row ∈ w.shared.store.db.deliveries) (hEarly : (w.procs i).Early) (hKept : Kept row.callerKey more) :
    Persists row w'.shared.store.db ∧ (w'.procs i).Follows row := by
  induction h with
  | refl => exact ⟨⟨row, hRow, rfl, rfl, rfl⟩, hEarly.follows⟩
  | @next more w' w'' label hRun hStep ih =>
    obtain ⟨hPersists, hFollows⟩ := ih hKept.tail
    have hw' := hw.trans hRun
    refine ⟨hPersists.step hw' hStep (hKept label List.mem_cons_self), ?_⟩
    cases hStep with
    | env => exact hFollows
    | act j hAct =>
      by_cases hij : i = j
      · subst hij
        simpa using hAct.follows (Run.sound hw').1.integrity hPersists hFollows
      · simpa [Function.update_of_ne hij] using hFollows

theorem act_step {procs : Nat → Client} (hCall : procs i = client) (h : Act i s client label s' client') :
    Step ⟨s, procs⟩ label ⟨s', Function.update procs i client'⟩ := by
  subst hCall
  exact .act i h

/-- Once it has the lock, a call for a key with a row ends after a lookup and at most a commit, whatever the backlog. -/
theorem Run.completes (hw : Run Step (start t) history w) (hRow : row ∈ w.shared.store.db.deliveries)
    (hCall : w.procs i = .active call .begun) (hKey : call.key = row.callerKey) (hFree : w.shared.lock = none) :
    ∃ more w', Run Step w more w' ∧ w'.shared.store.db = w.shared.store.db ∧
      w'.procs i = .returned call (if row.requestHash = call.submission.requestHash then .ok row.load
        else .error .idempotencyConflict) := by
  have hFound : w.shared.store.db.deliveryByIdempotency call.submission.callerID call.submission.idempotencyKey =
      some row := by
    rw [Database.deliveryByIdempotency_eq]
    exact (lookup_eq_some_iff DeliveryRow.callerKey (Run.sound hw).1.integrity.callerKeys).mpr ⟨hRow, hKey.symm⟩
  have hLocked := act_step hCall (.lock hFree)
  by_cases hHash : row.requestHash = call.submission.requestHash
  · have hStatement : call.statement (.instant w.shared.store.now) ⟨0, 0, 0⟩ w.shared.store.db .locked =
        some (.ok (.found row)) := by
      simp [Call.statement, hFound, hHash]
    have hLookup : Act i { w.shared with lock := some i } (.active call .locked) _ _ (.active call (.found row)) :=
      .statement le_rfl ⟨List.nodup_nil, fun _ h => by cases h⟩ hStatement
    have hCommit : Act i ⟨w.shared.advance (.instant w.shared.store.now) [], some i⟩ (.active call (.found row)) _ _
        (.returned call (.ok row.load)) := .commit rfl
    refine ⟨_, _, ((Run.refl.next hLocked).next (act_step (Function.update_self i _ _) hLookup)).next
      (act_step (Function.update_self i _ _) hCommit), rfl, ?_⟩
    rw [if_pos hHash]
    exact Function.update_self i _ _
  · have hStatement : call.statement (.instant w.shared.store.now) ⟨0, 0, 0⟩ w.shared.store.db .locked =
        some (.error .idempotencyConflict) := by
      simp [Call.statement, hFound, hHash]
    have hLookup : Act i { w.shared with lock := some i } (.active call .locked) _ _
        (.returned call (.error .idempotencyConflict)) := .refused le_rfl hStatement
    refine ⟨_, _, (Run.refl.next hLocked).next (act_step (Function.update_self i _ _) hLookup), rfl, ?_⟩
    rw [if_neg hHash]
    exact Function.update_self i _ _

/-! ## Calls that fail -/

namespace Label

/-- The step is one of call `i`. -/
def Of (i : Nat) : Label → Prop
  | .submission j _ _ _ => j = i
  | .operation .. => False

/-- The step is the commit of call `i`. -/
def CommitOf (i : Nat) : Label → Prop
  | .submission j commit _ _ => j = i ∧ commit = true
  | .operation .. => False

end Label

/-- The call has not sent a commit, or was told the reason why it sent none. -/
def Client.Uncommitted : Client → Prop
  | .idle | .active .. => True
  | .returned _ (.ok _) => False
  | .returned _ (.error error) => error ≠ .unavailable

theorem Act.label_of (h : Act i s client label s' client') : label.Of i ∧ ∀ j, j ≠ i → ¬label.CommitOf j := by
  cases h <;> exact ⟨rfl, fun j hj hCommit => hj hCommit.1.symm⟩

theorem Act.uncommitted (h : Act i s client label s' client') :
    (client'.Uncommitted → client.Uncommitted ∧ ¬label.CommitOf i) ∧
      (¬label.CommitOf i → label.after = label.before) := by
  cases h with
  | begin | lock | statement | refused | fail =>
    refine ⟨fun _ => ⟨trivial, fun hCommit => ?_⟩, fun _ => rfl⟩
    cases hCommit.2
  | commit => exact ⟨fun h => h.elim, fun h => absurd ⟨rfl, rfl⟩ h⟩
  | lost => exact ⟨fun h => absurd rfl h, fun h => absurd ⟨rfl, rfl⟩ h⟩

theorem Run.unchanged (hw : Run Step (start t) history w) :
    (∀ label ∈ history, ∀ i, label.Of i → ¬label.CommitOf i → label.after = label.before) ∧
      ∀ i, (w.procs i).Uncommitted → ∀ label ∈ history, ¬label.CommitOf i := by
  refine invariant
    (G := fun history _ => ∀ label ∈ history, ∀ i, label.Of i → ¬label.CommitOf i → label.after = label.before)
    (L := fun i history _ client => client.Uncommitted → ∀ label ∈ history, ¬label.CommitOf i) ?_ ?_ ?_ ?_ hw
  · exact fun _ h => by cases h
  · exact fun _ _ _ h => by cases h
  · intro history w label s _ hSame hEnv
    cases hEnv
    exact ⟨List.forall_mem_cons.mpr ⟨fun _ h => h.elim, hSame⟩,
      fun i client hClient h => List.forall_mem_cons.mpr ⟨id, hClient h⟩⟩
  · intro i history w label s client _ hSame hOwn hAct
    obtain ⟨hLabel, hOthers⟩ := hAct.label_of
    obtain ⟨hBefore, hTables⟩ := hAct.uncommitted
    refine ⟨List.forall_mem_cons.mpr ⟨fun j hOf hNot => ?_, hSame⟩, fun h => ?_, fun j other hj hOther h => ?_⟩
    · by_cases hj : j = i
      · exact hTables (hj ▸ hNot)
      · cases label with
        | submission => exact absurd (hOf.symm.trans hLabel) hj
        | operation => exact hOf.elim
    · obtain ⟨hClient, hNot⟩ := hBefore h
      exact List.forall_mem_cons.mpr ⟨hNot, hOwn hClient⟩
    · exact List.forall_mem_cons.mpr ⟨hOthers j hj, hOther h⟩

/-- Whatever the interleaving. A key that loses no row names one delivery, and success means that the
delivery is the one of the key and of the request. Nothing fails on the uniqueness of the key, a
delivery is never seen without its first event, and only a commit changes the tables. A key that has
a row is answered by its hash alone. -/
theorem caller_idempotency (hw : Run Step (start t) history w) :
    (∀ key, Kept key history →
      ((history.flatMap Label.created).filter (·.callerKey = key)).length ≤ 1 ∧
      ∀ i call reply, w.procs i = .returned call (.ok reply) → call.key = key →
        ∃ row ∈ w.shared.store.db.deliveries, row.callerKey = key ∧ row.id = reply.id ∧
          row.requestHash = call.submission.requestHash) ∧
    (w.shared.store.db.deliveries.map DeliveryRow.callerKey).Nodup ∧
    (∀ i call, w.procs i ≠ .returned call (.error (.constraint .callerIdempotencyKey))) ∧
    (∀ row ∈ w.shared.store.db.deliveries, ∃ event ∈ w.shared.store.db.outboxEvents,
      event.deliveryID = row.id ∧ event.generation = 0) ∧
    (∀ event ∈ w.shared.store.db.outboxEvents, ∃ row ∈ w.shared.store.db.deliveries, row.id = event.deliveryID) ∧
    (∀ label ∈ history, ∀ i, label.Of i → ¬label.CommitOf i → label.after = label.before) ∧
    (∀ i call error, w.procs i = .returned call (.error error) → error ≠ .unavailable →
      ∀ label ∈ history, label.Of i → label.after = label.before) ∧
    ∀ row ∈ w.shared.store.db.deliveries, ∀ i,
      (∀ more w', Run Step w more w' → Kept row.callerKey more → (w.procs i).Early → ∀ call reply,
        w'.procs i = .returned call reply → call.key = row.callerKey → Answers row call reply) ∧
      ∀ call, w.procs i = .active call .begun → call.key = row.callerKey → w.shared.lock = none →
        ∃ more w', Run Step w more w' ∧ w'.shared.store.db = w.shared.store.db ∧
          w'.procs i = .returned call (if row.requestHash = call.submission.requestHash then .ok row.load
            else .error .idempotencyConflict) := by
  obtain ⟨hTables, hClients⟩ := Run.sound hw
  obtain ⟨hSame, hCommits⟩ := Run.unchanged hw
  refine ⟨fun key hKept => ⟨?_, ?_⟩, hTables.integrity.callerKeys, ?_, ?_, hTables.integrity.eventOwners, hSame, ?_,
    fun row hRow i => ⟨?_, ?_⟩⟩
  · have hLength := congrArg List.length (hTables.created key hKept)
    rw [List.length_map] at hLength
    rw [hLength]
    exact Option.length_toList_le
  · intro i call reply hReturned hKey
    have hSound := (hClients i).2
    rw [hReturned] at hSound
    subst hKey
    exact hSound hKept
  · intro i call hReturned
    have hSound := (hClients i).2
    rw [hReturned] at hSound
    exact hSound rfl
  · intro row hRow
    obtain ⟨event, hEvent, hFirst⟩ := hTables.started row.id row (hTables.integrity.dossier_row_iff.mpr ⟨hRow, rfl⟩)
    obtain ⟨hMem, hOwner⟩ := (mem_owned _).mp hEvent
    exact ⟨event, hMem, hOwner, hFirst⟩
  · intro i call error hReturned hError label hLabel hOf
    have hNone := hCommits i (by rw [hReturned]; exact hError)
    exact hSame label hLabel i hOf (hNone label hLabel)
  · intro more w' hMore hKept hEarly call reply hReturned hKey
    have hFollows := (Run.follows hw hMore hRow hEarly hKept).2
    rw [hReturned] at hFollows
    exact hFollows hKey
  · exact fun call hCall hKey hFree => Run.completes hw hRow hCall hKey hFree

/-- Two calls with one request. The second begins before the first has the lock. -/
def race : List Command :=
  [.operation 1 (.bootstrap 3 Sample.config), .begin 0 ⟨10, Sample.submission⟩, .begin 1 ⟨10, Sample.submission⟩,
    .lock 0, .statement 0 5 ⟨0, 0, 0⟩, .statement 0 6 ⟨100, 101, 102⟩, .statement 0 7 ⟨0, 0, 0⟩,
    .statement 0 8 ⟨0, 0, 0⟩, .commit 0, .lock 1, .statement 1 9 ⟨0, 0, 0⟩, .commit 1]

theorem caller_idempotency_race :
    ∃ (history : List Label) (w : World) (a b : Delivery), Run Step (start 0) history w ∧
      w.procs 0 = .returned ⟨10, Sample.submission⟩ (.ok a) ∧
      w.procs 1 = .returned ⟨10, Sample.submission⟩ (.ok b) ∧ a.id = b.id := by
  have hPlay : (play execute [] (start 0) race).any (fun result => Kept ("shop", "order-1") result.1 &&
      ((result.2.procs 0).success.any (fun success => success.1 = ⟨10, Sample.submission⟩) &&
        (result.2.procs 1).success.any (fun success => success.1 = ⟨10, Sample.submission⟩))) = true := by
    decide +kernel
  obtain ⟨⟨history, w⟩, hResult, hState⟩ := (Option.any_eq_true _ _).mp hPlay
  obtain ⟨hKept, hBoth⟩ := Bool.and_eq_true_iff.mp hState
  obtain ⟨hFirst, hSecond⟩ := Bool.and_eq_true_iff.mp hBoth
  obtain ⟨⟨callA, a⟩, hA, hCallA⟩ := (Option.any_eq_true _ _).mp hFirst
  obtain ⟨⟨callB, b⟩, hB, hCallB⟩ := (Option.any_eq_true _ _).mp hSecond
  obtain rfl : callA = _ := of_decide_eq_true hCallA
  obtain rfl : callB = _ := of_decide_eq_true hCallB
  have hRun : Run Step (start 0) history w := run_of_play step_of_execute .refl hResult
  have hA := Client.success_eq_some_iff.mp hA
  have hB := Client.success_eq_some_iff.mp hB
  obtain ⟨hKeys, hUnique, _⟩ := caller_idempotency hRun
  obtain ⟨rowA, hRowA, hKeyA, hIDA, _⟩ := (hKeys _ (of_decide_eq_true hKept)).2 0 _ a hA rfl
  obtain ⟨rowB, hRowB, hKeyB, hIDB, _⟩ := (hKeys _ (of_decide_eq_true hKept)).2 1 _ b hB rfl
  obtain rfl : rowA = rowB := List.inj_on_of_nodup_map hUnique hRowA hRowB (hKeyA.trans hKeyB.symm)
  exact ⟨history, w, a, b, hRun, hA, hB, hIDA.symm.trans hIDB⟩

end ReliableNotifier.Admission
