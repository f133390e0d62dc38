import ReliableNotifier.Admission.Transactions

/-! # The admission lock

At most one call is past the lock, so the facts of a transaction outlive the steps of the
others. Along every run the tables keep their integrity, and the rows created for a key
are the row it has.
-/

namespace ReliableNotifier.Admission

open Checked RowTable Interleaving LabelledRun

variable {call : Call} {s s' : State} {client client' : Client} {label : Label} {history : List Label} {i j : Nat}
  {id : UUID} {key : String × String}

/-- No row of `key` went in the run. -/
def Kept (key : String × String) (history : List Label) : Prop := ∀ label ∈ history, ¬label.Removes key

instance (key : String × String) (history : List Label) : Decidable (Kept key history) :=
  inferInstanceAs (Decidable (∀ label ∈ history, _))

/-- The row of the call's key has `id` and the hash that the call carries. -/
def Represents (call : Call) (id : UUID) (db : Database) : Prop :=
  ∃ row ∈ db.deliveries, row.callerKey = call.key ∧ row.id = id ∧ row.requestHash = call.submission.requestHash

namespace Client

def Holds : Client → Prop
  | .active _ .begun => False
  | .active _ _ => True
  | _ => False

def Sound (history : List Label) (s : Store) : Client → Prop
  | .idle => True
  | .active call phase => phase.Sound call s ∧
      ∀ existing, phase = .found existing → Kept call.key history → Represents call existing.id s.db
  | .returned call (.ok reply) => Kept call.key history → Represents call reply.id s.db
  | .returned _ (.error error) => error ≠ .constraint .callerIdempotencyKey

end Client

/-- The tables and the rows created so far. -/
structure Tables (history : List Label) (db : Database) : Prop where
  integrity : Integrity db
  started : ∀ id, (db.dossier id).Started
  created : ∀ key, Kept key history → ((history.flatMap Label.created).filter (·.callerKey = key)).map DeliveryRow.id =
    ((lookup DeliveryRow.callerKey key db.deliveries).map DeliveryRow.id).toList

/-- A row of a key that is kept is still there after what others did. -/
theorem Interference.survives {s t : Store} {row : DeliveryRow} (hMove : Interference s t) (hDb : Integrity s.db)
    (hBefore : label.before = s.db) (hAfter : label.after = t.db) (hRow : row ∈ s.db.deliveries)
    (hKept : ¬label.Removes row.callerKey) :
    ∃ row' ∈ t.db.deliveries, row'.callerKey = row.callerKey ∧ row'.id = row.id ∧
      row'.requestHash = row.requestHash := by
  by_contra hGone
  refine hKept ⟨row, hBefore ▸ hRow, rfl, fun other hOther hSame => hGone ?_⟩
  obtain ⟨old, hOld, hOrigin⟩ := hMove.key_origin (hAfter ▸ hOther)
  obtain rfl : old = row := List.inj_on_of_nodup_map hDb.deliveryIDs hOld hRow (hOrigin.2.1.symm.trans hSame)
  exact ⟨other, hAfter ▸ hOther, hOrigin⟩

theorem Represents.mono {s t : Store} (h : Represents call id s.db) (hDb : Integrity s.db) (hMove : Interference s t)
    (hBefore : label.before = s.db) (hAfter : label.after = t.db) (hKept : ¬label.Removes call.key) :
    Represents call id t.db := by
  obtain ⟨row, hRow, hKey, hID, hHash⟩ := h
  obtain ⟨row', hRow', hSame⟩ := hMove.survives hDb hBefore hAfter hRow (hKey ▸ hKept)
  exact ⟨row', hRow', hSame.1.trans hKey, hSame.2.1.trans hID, hSame.2.2.trans hHash⟩

theorem Interference.lookup_id {s t : Store} (hMove : Interference s t) (hDb : Integrity s.db)
    (hBefore : label.before = s.db) (hAfter : label.after = t.db) (hKept : ¬label.Removes key) :
    (lookup DeliveryRow.callerKey key t.db.deliveries).map DeliveryRow.id =
      (lookup DeliveryRow.callerKey key s.db.deliveries).map DeliveryRow.id := by
  rcases hFound : lookup DeliveryRow.callerKey key s.db.deliveries with _ | row
  · have hNone : lookup DeliveryRow.callerKey key t.db.deliveries = none := by
      refine (lookup_eq_none_iff _).mpr fun row' hRow' hKey => ?_
      obtain ⟨row, hRow, hSame, _⟩ := hMove.key_origin hRow'
      exact (lookup_eq_none_iff _).mp hFound row hRow (hSame.symm.trans hKey)
    rw [hNone]
  · have hKey := key_of_lookup _ hFound
    obtain ⟨row', hRow', hSame, hID, _⟩ := hMove.survives hDb hBefore hAfter (mem_of_lookup _ hFound) (hKey ▸ hKept)
    rw [(lookup_eq_some_iff DeliveryRow.callerKey hMove.integrity.callerKeys).mpr ⟨hRow', hSame.trans hKey⟩]
    exact congrArg some hID

theorem Kept.tail (h : Kept key (label :: history)) : Kept key history :=
  fun other hOther => h other (List.mem_cons_of_mem _ hOther)

theorem Client.Sound.mono {s t : Store} (h : client.Sound history s) (hDb : Integrity s.db) (hMove : Interference s t)
    (hBefore : label.before = s.db) (hAfter : label.after = t.db) : client.Sound (label :: history) t := by
  have hRep {call : Call} {id : UUID} (h : Kept call.key history → Represents call id s.db)
      (hKept : Kept call.key (label :: history)) : Represents call id t.db :=
    (h hKept.tail).mono hDb hMove hBefore hAfter (hKept label List.mem_cons_self)
  rcases client with _ | ⟨call, phase⟩ | ⟨call, error | reply⟩
  · trivial
  · exact ⟨h.1.mono hMove, fun existing hFound => hRep (h.2 existing hFound)⟩
  · exact h
  · exact hRep h

theorem Tables.mono {s t : Store} (h : Tables history s.db) (hMove : Interference s t) (hBefore : label.before = s.db)
    (hAfter : label.after = t.db) : Tables (label :: history) t.db where
  integrity := hMove.integrity
  started := hMove.started h.started
  created key hKept := by
    have hNone : label.created = [] := Label.created_of_origin fun row' hRow' => by
      obtain ⟨row, hRow, _, hID, _⟩ := hMove.key_origin (hAfter ▸ hRow')
      exact ⟨row, hBefore ▸ hRow, hID⟩
    rw [List.flatMap_cons, hNone, List.nil_append, h.created key hKept.tail,
      hMove.lookup_id h.integrity hBefore hAfter (hKept label List.mem_cons_self)]

theorem Insertable.created {row : DeliveryRow} {event : OutboxEventRow} {db : Database} (hRow : Insertable row db)
    (hBefore : label.before = db) (hAfter : label.after = withSubmission row event db) : label.created = [row] := by
  have hOld : db.deliveries.filter (fun row => db.deliveries.all fun other => other.id ≠ row.id) = [] :=
    List.filter_eq_nil_iff.mpr fun row hRow hNew =>
      of_decide_eq_true (List.all_eq_true.mp hNew row hRow) rfl
  have hNew : (db.deliveries.all fun other => other.id ≠ row.id) = true :=
    List.all_eq_true.mpr fun other hOther => decide_eq_true (hRow.fresh other hOther)
  rw [Label.created, hBefore, hAfter, withSubmission, List.filter_append, hOld, List.nil_append,
    List.filter_singleton, hNew]
  rfl

theorem Tables.commit {db db' : Database} {phase : Phase} {reply : Delivery} (h : Tables history db)
    (hCommit : call.Commit db phase reply db') (hBefore : label.before = db) (hAfter : label.after = db') :
    Tables (label :: history) db' where
  integrity := hCommit.integrity h.integrity
  started := hCommit.started h.integrity h.started
  created key hKept := by
    have hOld := h.created key hKept.tail
    rw [List.flatMap_cons, List.filter_append, List.map_append, hOld]
    cases hCommit with
    | found =>
      rw [Label.created_of_origin fun row hRow => ⟨row, hBefore ▸ hAfter ▸ hRow, rfl⟩]
      rfl
    | @filled row event hRow hKey _ _ _ _ _ =>
      rw [hRow.created hBefore hAfter, withSubmission, lookup_append]
      by_cases hSame : row.callerKey = key
      · subst hSame
        rw [(lookup_eq_none_iff _).mpr hRow.key]
        simp [lookup]
      · simp [hSame, lookup]

theorem Client.Sound.commit {s t : Store} {phase : Phase} {reply : Delivery} (h : client.Sound history s)
    (hIdle : ¬client.Holds) (hCommit : call.Commit s.db phase reply t.db) : client.Sound (label :: history) t := by
  have hRep {call : Call} {id : UUID} (h : Kept call.key history → Represents call id s.db)
      (hKept : Kept call.key (label :: history)) : Represents call id t.db :=
    (h hKept.tail).imp fun _ ⟨hRow, hSame⟩ => ⟨hCommit.rows_subset hRow, hSame⟩
  rcases client with _ | ⟨call, phase⟩ | ⟨call, error | reply⟩
  · trivial
  · cases phase with
    | begun => exact ⟨trivial, fun _ hFound => by cases hFound⟩
    | _ => exact absurd trivial hIdle
  · exact h
  · exact hRep h

theorem Act.lock_iff (h : Act i s client label s' client') (hLock : s.lock = some i ↔ client.Holds) :
    (s'.lock = some i ↔ client'.Holds) ∧ ∀ j, j ≠ i → (s'.lock = some j ↔ s.lock = some j) := by
  have hRelease : s.release i ≠ some i ∧ ∀ j, j ≠ i → (s.release i = some j ↔ s.lock = some j) := by
    unfold State.release
    split
    · rename_i hOwn
      exact ⟨by simp, fun j hj => by simp [hOwn, hj.symm]⟩
    · rename_i hOther
      exact ⟨hOther, fun _ _ => Iff.rfl⟩
  cases h with
  | begin => exact ⟨hLock, fun _ _ => Iff.rfl⟩
  | lock hFree => exact ⟨⟨fun _ => trivial, fun _ => rfl⟩, fun j hj => by simp [hFree, hj.symm]⟩
  | statement _ _ hNext =>
    refine ⟨?_, fun _ _ => Iff.rfl⟩
    cases Call.next_of_statement hNext <;> exact hLock
  | refused | commit | lost | fail => exact ⟨⟨fun h => absurd h hRelease.1, fun h => h.elim⟩, hRelease.2⟩

/-- A step of a call leaves the tables alone, unless it is a commit under the lock. -/
theorem Act.effect (h : Act i s client label s' client') (hDb : Integrity s.store.db)
    (hClient : client.Sound history s.store) :
    label.before = s.store.db ∧ label.after = s'.store.db ∧ (Interference s.store s'.store ∨
      client.Holds ∧ ∃ call phase reply, Call.Commit call s.store.db phase reply s'.store.db) := by
  cases h with
  | begin | lock | fail => exact ⟨rfl, rfl, .inl (.of_same hDb rfl (List.Subset.refl _))⟩
  | statement | refused => exact ⟨rfl, rfl, .inl (.of_same hDb rfl (List.subset_append_right _ _))⟩
  | @commit call phase reply db hFinish | @lost call phase reply db hFinish =>
    have hCommit := hClient.1.commit hFinish
    refine ⟨rfl, rfl, .inr ⟨?_, call, phase, reply, hCommit⟩⟩
    cases hCommit <;> trivial

theorem Act.tables (h : Act i s client label s' client') (hTables : Tables history s.store.db)
    (hClient : client.Sound history s.store) : Tables (label :: history) s'.store.db := by
  obtain ⟨hBefore, hAfter, hMove | ⟨_, _, _, _, hCommit⟩⟩ := h.effect hTables.integrity hClient
  · exact hTables.mono hMove hBefore hAfter
  · exact hTables.commit hCommit hBefore hAfter

theorem Act.others {other : Client} (h : Act i s client label s' client') (hDb : Integrity s.store.db)
    (hClient : client.Sound history s.store) (hLock : s.lock = some i ↔ client.Holds) (hj : j ≠ i)
    (hOther : s.lock = some j ↔ other.Holds) (hSound : other.Sound history s.store) :
    other.Sound (label :: history) s'.store := by
  obtain ⟨hBefore, hAfter, hMove | ⟨hHolds, _, _, _, hCommit⟩⟩ := h.effect hDb hClient
  · exact hSound.mono hDb hMove hBefore hAfter
  · refine hSound.commit (fun hBoth => hj ?_) hCommit
    exact Option.some.inj ((hOther.mpr hBoth).symm.trans (hLock.mpr hHolds))

theorem Act.own (h : Act i s client label s' client') (hClient : client.Sound history s.store) :
    client'.Sound (label :: history) s'.store := by
  cases h with
  | begin | lock => exact ⟨trivial, fun _ hFound => by cases hFound⟩
  | statement _ _ hNext =>
    have hNext := Call.next_of_statement hNext
    refine ⟨hClient.1.advance hNext rfl rfl, fun existing hFound _ => ?_⟩
    subst hFound
    cases hNext with
    | found hMem hKey hHash => exact ⟨existing, hMem, hKey, rfl, hHash⟩
  | refused _ hError => exact hClient.1.refusal (Call.refusal_of_statement hError)
  | commit hFinish =>
    intro hKept
    cases hClient.1.commit hFinish with
    | found existing => exact hClient.2 existing rfl hKept.tail
    | @filled row _ _ hKey hHash =>
      exact ⟨row, List.mem_append_right _ (List.mem_singleton_self row), hKey, rfl, hHash⟩
  | lost | fail =>
    intro h
    cases h

theorem Env.effect (h : Env s label s') (hDb : Integrity s.store.db) :
    s'.lock = s.lock ∧ label.before = s.store.db ∧ label.after = s'.store.db ∧ Interference s.store s'.store := by
  cases h with
  | operation hStep hOther => exact ⟨rfl, rfl, rfl, interference_of_step hDb hStep hOther⟩

/-- The invariant of the machine. -/
theorem Run.sound {t : Time} {w : World} (h : Run Step (start t) history w) :
    Tables history w.shared.store.db ∧
      ∀ i, (w.shared.lock = some i ↔ (w.procs i).Holds) ∧ (w.procs i).Sound history w.shared.store := by
  refine invariant (G := fun history s => Tables history s.store.db)
    (L := fun i history s client => (s.lock = some i ↔ client.Holds) ∧ client.Sound history s.store) ?_ ?_ ?_ ?_ h
  · exact ⟨.empty, fun _ _ h => (by cases h), fun _ _ => rfl⟩
  · exact fun i => ⟨⟨fun h => (by cases h), fun h => h.elim⟩, trivial⟩
  · intro history w label s _ hTables hEnv
    obtain ⟨hLock, hBefore, hAfter, hMove⟩ := hEnv.effect hTables.integrity
    refine ⟨hTables.mono hMove hBefore hAfter, fun i client hClient => ?_⟩
    exact ⟨hLock ▸ hClient.1, hClient.2.mono hTables.integrity hMove hBefore hAfter⟩
  · intro i history w label s client _ hTables hClient hAct
    obtain ⟨hLock, hOthers⟩ := hAct.lock_iff hClient.1
    refine ⟨hAct.tables hTables hClient.2, ⟨hLock, hAct.own hClient.2⟩, fun j other hj hOther => ?_⟩
    exact ⟨(hOthers j hj).trans hOther.1,
      hAct.others hTables.integrity hClient.2 hClient.1 hj hOther.1 hOther.2⟩

end ReliableNotifier.Admission
