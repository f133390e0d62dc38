import ReliableNotifier.Admission.Model

/-! # Computed runs of concurrent submissions

A script says whose statement comes next. The database answers every statement at a
standing clock, and no connection fails.
-/

namespace ReliableNotifier.Admission

open Interleaving LabelledRun

inductive Command where
  | operation (t : Time) (op : Op)
  | begin (i : Nat) (call : Call)
  | lock (i : Nat)
  | statement (i : Nat) (t : Time) (drawn : Drawn)
  | commit (i : Nat)

def goOn (w : World) (i : Nat) (s : State) (client : Client) : World := ⟨s, Function.update w.procs i client⟩

/-- The label of a step of call `i` that changes no table. -/
def quiet (w : World) (i : Nat) : Label := .submission i false w.shared.store.db w.shared.store.db

def execute (w : World) : Command → Option (Label × World)
  | .operation t op =>
    if op.isSubmit then none
    else (w.shared.store.perform t op).map fun store =>
      (.operation (.commit (.instant t) op) w.shared.store.db store.db,
        { w with shared := { w.shared with store := store } })
  | .begin i call =>
    match w.procs i with
    | .idle => some (quiet w i, goOn w i w.shared (.active call .begun))
    | _ => none
  | .lock i =>
    match w.procs i, w.shared.lock with
    | .active call .begun, none => some (quiet w i, goOn w i { w.shared with lock := some i } (.active call .locked))
    | _, _ => none
  | .statement i t drawn =>
    match w.procs i with
    | .active call phase =>
      if w.shared.store.now ≤ t ∧ (Call.draws drawn phase).Nodup ∧
          ∀ id ∈ Call.draws drawn phase, id ∉ w.shared.store.issued then
        match call.statement (.instant t) drawn w.shared.store.db phase with
        | some (.ok next) => some (quiet w i,
            goOn w i { w.shared with store := w.shared.advance (.instant t) (Call.draws drawn phase) }
              (.active call next))
        | some (.error error) => some (quiet w i,
            goOn w i ⟨w.shared.advance (.instant t) [], w.shared.release i⟩ (.returned call (.error error)))
        | none => none
      else none
    | _ => none
  | .commit i =>
    match w.procs i with
    | .active call phase =>
      (call.finish w.shared.store.db phase).map fun result => (.submission i true w.shared.store.db result.2,
        goOn w i ⟨{ w.shared.store with db := result.2 }, w.shared.release i⟩ (.returned call (.ok result.1)))
    | _ => none

theorem step_of_execute {w w' : World} {command : Command} {label : Label}
    (h : execute w command = some (label, w')) : Step w label w' := by
  cases command with
  | operation t op =>
    simp only [execute] at h
    split at h
    · cases h
    · rename_i hOther
      obtain ⟨store, hPerform, hSame⟩ := Option.map_eq_some_iff.mp h
      cases hSame
      refine .env (.operation (Store.step_of_perform hPerform) fun r op' hAction => ?_)
      cases hAction
      simpa using hOther
  | begin i call =>
    simp only [execute] at h
    split at h
    · rename_i hIdle
      cases h
      exact .act i (hIdle ▸ .begin call)
    · cases h
  | lock i =>
    simp only [execute] at h
    split at h
    · rename_i call hCall hFree
      cases h
      exact .act i (hCall ▸ .lock hFree)
    · cases h
  | statement i t drawn =>
    simp only [execute] at h
    split at h
    · rename_i call phase hCall
      split at h
      · rename_i hGuard
        split at h
        · rename_i next hNext
          cases h
          exact .act i (hCall ▸ .statement hGuard.1 hGuard.2 hNext)
        · rename_i error hError
          cases h
          exact .act i (hCall ▸ .refused hGuard.1 hError)
        · cases h
      · cases h
    · cases h
  | commit i =>
    simp only [execute] at h
    split at h
    · rename_i call phase hCall
      obtain ⟨⟨reply, db⟩, hFinish, hSame⟩ := Option.map_eq_some_iff.mp h
      cases hSame
      exact .act i (hCall ▸ .commit hFinish)
    · cases h

end ReliableNotifier.Admission
