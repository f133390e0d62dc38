import ReliableNotifier.Admission.Model
import ReliableNotifier.Lifecycle.Constraints

/-! # What other operations do to a transaction

Between two statements of a submission the other operations may change, remove and
signal deliveries. They create none, they leave the caller's key and the request hash
alone, and their events have identifiers of their own.
-/

namespace ReliableNotifier

open Checked RowTable

variable {r : Readings} {op : Op} {db db' : Database}

theorem Dossier.Move.row_exists {d d' : Dossier} (h : Move r op d d') (hOther : op.isSubmit = false) :
    ∃ row, d.row = some row := by
  cases h with
  | submit => cases hOther
  | _ => exact ⟨_, rfl⟩

/-- Only a submission creates deliveries. -/
theorem Op.row_origin (hDb : Integrity db) (h : op.apply r db = .ok db') (hOther : op.isSubmit = false)
    {row' : DeliveryRow} (hRow' : row' ∈ db'.deliveries) :
    ∃ row ∈ db.deliveries, row'.identity = row.identity := by
  have hDb' := Integrity.kept.apply h (fun _ _ => trivial) hDb
  have hFound' : (db'.dossier row'.id).row = some row' := hDb'.dossier_row_iff.mpr ⟨hRow', rfl⟩
  rcases Database.dossier_moves hDb h row'.id with hSame | hMove
  · rw [hSame] at hFound'
    exact ⟨row', (hDb.dossier_row_iff.mp hFound').1, rfl⟩
  · obtain ⟨row, hRow⟩ := hMove.row_exists hOther
    exact ⟨row, (hDb.dossier_row_iff.mp hRow).1, hMove.identity_eq hRow hFound'⟩

namespace Admission

/-- What other transactions may do between two statements of one that holds the lock. -/
structure Interference (s t : Store) : Prop where
  integrity : Integrity t.db
  origin : ∀ row' ∈ t.db.deliveries, ∃ row ∈ s.db.deliveries, row'.identity = row.identity
  versions : s.db.destinationVersions ⊆ t.db.destinationVersions
  events : ∀ event' ∈ t.db.outboxEvents,
    (∃ event ∈ s.db.outboxEvents, event.id = event'.id) ∨ event'.id ∉ s.issued
  issued : s.issued ⊆ t.issued
  started : (∀ id, (s.db.dossier id).Started) → ∀ id, (t.db.dossier id).Started

variable {s t : Store}

theorem Interference.of_same (hDb : Integrity s.db) (hSame : t.db = s.db) (hIssued : s.issued ⊆ t.issued) :
    Interference s t where
  integrity := hSame ▸ hDb
  origin row hRow := ⟨row, hSame ▸ hRow, rfl⟩
  versions := hSame ▸ List.Subset.refl _
  events event hEvent := .inl ⟨event, hSame ▸ hEvent, rfl⟩
  issued := hIssued
  started := by
    rw [hSame]
    exact id

theorem interference_of_step {action : Store.Action} (hDb : Integrity s.db) (h : Store.Step s action t)
    (hOther : ∀ r op, action = .commit r op → op.isSubmit = false) : Interference s t := by
  cases h with
  | wait => exact .of_same hDb rfl (List.Subset.refl _)
  | @commit r op db hClock hTimely hFresh hApply =>
    refine ⟨Integrity.kept.apply hApply (fun _ _ => trivial) hDb,
      fun _ => Op.row_origin hDb hApply (hOther r op rfl), ?_, ?_, List.subset_append_right _ _, fun hStarted id => ?_⟩
    · obtain ⟨more, hMore⟩ := (kept_versions s.db.destinationVersions).apply hApply (fun _ _ => trivial) ⟨[], by simp⟩
      exact hMore ▸ List.subset_append_left _ _
    · exact fun event' hEvent' => (Op.event_ids hApply hEvent').imp_right (hFresh.2 _)
    · rcases Database.dossier_moves hDb hApply id with hSame | hMove
      · exact hSame ▸ hStarted id
      · exact hMove.started (hStarted id)

end Admission

end ReliableNotifier
