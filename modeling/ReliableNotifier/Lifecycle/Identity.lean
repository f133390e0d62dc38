import ReliableNotifier.Lifecycle.Events

/-! # The request of a delivery is fixed

An update of a delivery leaves the columns of its request alone, and an identifier that has
been used never names another delivery. Destination versions are added under new keys and
are never changed.
-/

namespace ReliableNotifier

open Checked RowTable

/-- The two rows ask for the same request of the same caller. -/
structure DeliveryRow.SameRequest (row row' : DeliveryRow) : Prop where
  id : row'.id = row.id
  callerID : row'.callerID = row.callerID
  idempotencyKey : row'.idempotencyKey = row.idempotencyKey
  requestHash : row'.requestHash = row.requestHash
  destinationID : row'.destinationID = row.destinationID
  destinationVersion : row'.destinationVersion = row.destinationVersion
  method : row'.method = row.method
  callerHeaders : row'.callerHeaders = row.callerHeaders
  body : row'.body = row.body
  supplierIdempotencyValue : row'.supplierIdempotencyValue = row.supplierIdempotencyValue
  acceptedAt : row'.acceptedAt = row.acceptedAt

theorem DeliveryRow.sameRequest_of_identity {row row' : DeliveryRow} (h : row'.identity = row.identity) :
    row.SameRequest row' := by
  constructor <;> exact of_identity _ (fun _ => rfl) h

/-- A row comes from a submission or from a row with the same request. -/
theorem Dossier.Move.row_cases {r : Readings} {op : Op} {d d' : Dossier} {row' : DeliveryRow} (h : Move r op d d')
    (hRow' : d'.row = some row') :
    (∃ backlogLimit submission deliveryID outboxID traceID,
      op = .submit backlogLimit submission deliveryID outboxID traceID ∧ row' = submission.row r deliveryID) ∨
    ∃ row, d.row = some row ∧ row'.identity = row.identity := by
  cases hRow : d.row with
  | some row => exact .inr ⟨row, rfl, h.identity_eq hRow hRow'⟩
  | none =>
    cases h with
    | submit =>
      cases hRow'
      exact .inl ⟨_, _, _, _, _, rfl, rfl⟩
    | _ => cases hRow

def DestinationVersionRow.key (version : DestinationVersionRow) : String × Int :=
  (version.destinationID, version.version)

/-- Two versions never share a key. -/
theorem kept_versionKeys :
    Kept (fun _ => True) fun db => (db.destinationVersions.map DestinationVersionRow.key).Nodup := by
  refine .of_versions (Q := fun rows => (rows.map DestinationVersionRow.key).Nodup) fun h hDb => ?_
  obtain ⟨_, _, _, versions, rfl, rfl | ⟨row, rfl, hFree⟩⟩ := bootstrap_versions h
  · exact hDb
  · exact nodup_map_concat hDb fun other hOther hSame => hFree other hOther (Prod.mk.inj hSame)

/-- A version that can be read can be read again when versions have been added. -/
theorem Database.queryDestinationVersion_append {db db' : Database} {more : List DestinationVersionRow}
    {destinationID : String} {version : Int} {destination : DestinationVersion}
    (hMore : db'.destinationVersions = db.destinationVersions ++ more)
    (h : db.queryDestinationVersion destinationID version = .ok destination) :
    db'.queryDestinationVersion destinationID version = .ok destination := by
  unfold queryDestinationVersion at h ⊢
  split at h
  · rename_i row hFound
    rw [hMore, List.find?_append, hFound]
    exact h
  · cases h

namespace Store

variable {s t : Store} {action : Action} {id : UUID} {row row' : DeliveryRow}

theorem Step.identity_eq (hs : s.Reachable) (h : Step s action t) (hIssued : id ∈ s.issued)
    (hRow' : (t.db.dossier id).row = some row') :
    ∃ row, (s.db.dossier id).row = some row ∧ row'.identity = row.identity := by
  obtain ⟨row, hRow, _⟩ := h.row_origin hs hIssued hRow'
  refine ⟨row, hRow, ?_⟩
  cases h.advance hs.integrity id with
  | stay _ _ hSame =>
    rw [hSame, hRow] at hRow'
    rw [Option.some.inj hRow']
  | move _ _ _ _ _ hMove => exact hMove.identity_eq hRow hRow'

theorem Step.versions (h : Step s action t) :
    ∃ more, t.db.destinationVersions = s.db.destinationVersions ++ more := by
  cases h with
  | wait => exact ⟨[], by simp⟩
  | commit _ _ _ hApply =>
    exact (kept_versions s.db.destinationVersions).apply hApply (fun _ _ => trivial) ⟨[], by simp⟩

theorem Later.identity_eq (hs : s.Reachable) (h : s.Later t) (hRow : row ∈ s.db.deliveries)
    (hRow' : row' ∈ t.db.deliveries) (hID : row'.id = row.id) : row'.identity = row.identity := by
  have hIssued : row.id ∈ s.issued :=
    hs.issued_of_phase (phase_of_row (hs.integrity.dossier_row_iff.mpr ⟨hRow, rfl⟩))
  refine (Later.invariant (I := fun t => row.id ∈ t.issued ∧
    ∀ row', (t.db.dossier row.id).row = some row' → row'.identity = row.identity) hs ?_ ?_ h).2 row'
    ((hs.later h).integrity.dossier_row_iff.mpr ⟨hRow', hID⟩)
  · refine ⟨hIssued, fun row' hRow' => ?_⟩
    obtain ⟨hMem, hSame⟩ := hs.integrity.dossier_row_iff.mp hRow'
    rw [List.inj_on_of_nodup_map hs.integrity.deliveryIDs hMem hRow hSame]
  · intro u action v hu hI hStep
    refine ⟨hStep.issued_subset hI.1, fun row' hRow' => ?_⟩
    obtain ⟨old, hOld, hSame⟩ := hStep.identity_eq hu hI.1 hRow'
    exact hSame.trans (hI.2 old hOld)

theorem Later.versions (h : s.Later t) : ∃ more, t.db.destinationVersions = s.db.destinationVersions ++ more := by
  obtain ⟨history, hRun⟩ := h
  induction hRun with
  | refl => exact ⟨[], by simp⟩
  | next _ hStep ih =>
    obtain ⟨more, hMore⟩ := ih
    obtain ⟨new, hNew⟩ := hStep.versions
    exact ⟨more ++ new, by rw [hNew, hMore, List.append_assoc]⟩

theorem Reachable.versionKeys (hs : s.Reachable) :
    (s.db.destinationVersions.map DestinationVersionRow.key).Nodup := by
  refine Reachable.invariant (I := fun s => (s.db.destinationVersions.map DestinationVersionRow.key).Nodup)
    (fun _ => List.nodup_nil) (fun s action t hKeys hStep => ?_) hs
  cases hStep with
  | wait => exact hKeys
  | commit _ _ _ hApply => exact kept_versionKeys.apply hApply (fun _ _ => trivial) hKeys

/-- A stored version stays, and no other version takes its place. -/
theorem Later.version_fixed (hs : s.Reachable) (h : s.Later t) {version : DestinationVersionRow}
    (hVersion : version ∈ s.db.destinationVersions) :
    version ∈ t.db.destinationVersions ∧
      ∀ version' ∈ t.db.destinationVersions, version'.key = version.key → version' = version := by
  obtain ⟨more, hMore⟩ := h.versions
  have hStays : version ∈ t.db.destinationVersions := hMore ▸ List.mem_append_left _ hVersion
  exact ⟨hStays, fun version' hVersion' hKey =>
    List.inj_on_of_nodup_map (hs.later h).versionKeys hVersion' hStays hKey⟩

end Store

end ReliableNotifier
