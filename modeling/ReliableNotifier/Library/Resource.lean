import Mathlib.Tactic.Common

/-! # Handles that are opened, used and closed

A trace lists what was done with handles, newest entry first. It is orderly if no handle
is opened twice and every one is used and closed only while it is open. `Balance` names
the open handles of an orderly trace; its lemmas follow the trace entry by entry.
A `Session` is code whose calls may fail. Its rules say what it leaves open when it
returns and when it fails.
-/

namespace Resource

variable {H κ : Type*}

inductive Event (H κ : Type*) where
  | opened (h : H)
  | used (h : H) (what : κ)
  | closed (h : H)
  deriving DecidableEq

def Live (trace : List (Event H κ)) (h : H) : Prop := .opened h ∈ trace ∧ .closed h ∉ trace

inductive Orderly : List (Event H κ) → Prop
  | nil : Orderly []
  | opened {trace : List (Event H κ)} {h : H} (hPrior : Orderly trace) (hNew : .opened h ∉ trace) :
      Orderly (.opened h :: trace)
  | used {trace : List (Event H κ)} {h : H} {what : κ} (hPrior : Orderly trace) (hLive : Live trace h) :
      Orderly (.used h what :: trace)
  | closed {trace : List (Event H κ)} {h : H} (hPrior : Orderly trace) (hLive : Live trace h) :
      Orderly (.closed h :: trace)

variable {trace : List (Event H κ)} {h x : H} {what : κ} {live live' : List H}

theorem Orderly.opened_of_closed (hOrderly : Orderly trace) (hMem : .closed h ∈ trace) : .opened h ∈ trace := by
  induction hOrderly with
  | nil => exact absurd hMem List.not_mem_nil
  | opened _ _ ih => exact List.mem_cons_of_mem _ (ih (by simpa using hMem))
  | used _ _ ih => exact List.mem_cons_of_mem _ (ih (by simpa using hMem))
  | closed _ hLive ih =>
    rcases List.mem_cons.mp hMem with hSame | hBefore
    · cases hSame
      exact List.mem_cons_of_mem _ hLive.1
    · exact List.mem_cons_of_mem _ (ih hBefore)

/-- The trace is orderly, and exactly the handles of the list are open. -/
structure Balance (trace : List (Event H κ)) (live : List H) : Prop where
  orderly : Orderly trace
  live_iff : ∀ h, Live trace h ↔ h ∈ live

namespace Balance

theorem nil : Balance ([] : List (Event H κ)) [] :=
  ⟨.nil, fun h => by simp [Live]⟩

theorem opened (hBalance : Balance trace live) (hNew : .opened x ∉ trace) :
    Balance (.opened x :: trace) (x :: live) := by
  refine ⟨hBalance.orderly.opened hNew, fun h => ?_⟩
  rw [List.mem_cons, ← hBalance.live_iff]
  constructor
  · rintro ⟨hOpened, hClosed⟩
    rcases List.mem_cons.mp hOpened with hSame | hBefore
    · exact .inl (Event.opened.inj hSame)
    · exact .inr ⟨hBefore, fun hMem => hClosed (List.mem_cons_of_mem _ hMem)⟩
  · rintro (rfl | ⟨hOpened, hClosed⟩)
    · refine ⟨List.mem_cons_self, fun hMem => ?_⟩
      -- it was never open, so it was never closed
      exact hNew (hBalance.orderly.opened_of_closed (by simpa using hMem))
    · exact ⟨List.mem_cons_of_mem _ hOpened, by simpa using hClosed⟩

theorem used (hBalance : Balance trace live) (hLive : x ∈ live) : Balance (.used x what :: trace) live := by
  refine ⟨hBalance.orderly.used ((hBalance.live_iff x).mpr hLive), fun h => ?_⟩
  rw [← hBalance.live_iff]
  simp [Live]

theorem closed (hBalance : Balance trace (x :: live)) (hOnce : x ∉ live) : Balance (.closed x :: trace) live := by
  have hLive := (hBalance.live_iff x).mpr List.mem_cons_self
  refine ⟨hBalance.orderly.closed hLive, fun h => ?_⟩
  have hBefore := hBalance.live_iff h
  rw [List.mem_cons] at hBefore
  constructor
  · rintro ⟨hOpened, hClosed⟩
    have hOther : h ≠ x := fun hSame => hClosed (hSame ▸ List.mem_cons_self)
    exact (hBefore.mp ⟨by simpa using hOpened, fun hMem => hClosed (List.mem_cons_of_mem _ hMem)⟩).resolve_left hOther
  · intro hMem
    have hOther : h ≠ x := fun hSame => hOnce (hSame ▸ hMem)
    obtain ⟨hOpened, hClosed⟩ := hBefore.mpr (.inr hMem)
    exact ⟨List.mem_cons_of_mem _ hOpened, by simp [hOther, hClosed]⟩

theorem perm (hBalance : Balance trace live) (hPerm : live.Perm live') : Balance trace live' :=
  ⟨hBalance.orderly, fun h => (hBalance.live_iff h).trans hPerm.mem_iff⟩

/-- With nothing open, whatever was opened has been closed. -/
theorem closed_of_opened (hBalance : Balance trace []) (hMem : .opened h ∈ trace) : .closed h ∈ trace := by
  by_contra hOpen
  exact absurd ((hBalance.live_iff h).mp ⟨hMem, hOpen⟩) List.not_mem_nil

end Balance

/-! ## Sessions -/

abbrev Session (H κ : Type) := ExceptT String (StateM (List (Event H κ)))

namespace Session

variable {H κ : Type} {trace : List (Event H κ)} {h : H} {what : κ} {live pool handles : List H} {text : String}
  {reply : Except String Unit} {known : H → Prop}

/-- A call that returns a handle unless it fails. -/
def acquire (text : String) (reply : Except String Unit) (h : H) : Session H κ Unit :=
  match reply with
  | .error err => throw (text ++ ": " ++ err)
  | .ok _ => modify (.opened h :: ·)

/-- A call on a handle. It is made even if it fails. -/
def use (text : String) (reply : Except String Unit) (h : H) (what : κ) : Session H κ Unit := do
  modify (.used h what :: ·)
  match reply with
  | .error err => throw (text ++ ": " ++ err)
  | .ok _ => pure ()

def release (handles : List H) (trace : List (Event H κ)) : List (Event H κ) :=
  handles.foldl (fun trace h => .closed h :: trace) trace

/-- If the code fails then the handles are closed, and the error stays. -/
def guarded (handles : List H) (code : Session H κ Unit) : Session H κ Unit :=
  tryCatch code fun err => do
    modify (release handles)
    throw err

def wrapped (text : String) (code : Session H κ Unit) : Session H κ Unit :=
  tryCatch code fun err => throw (text ++ ": " ++ err)

/-- From a trace with `P` the code returns to one with `Q` or fails at one with `E`. -/
def Triple (P : List (Event H κ) → Prop) (code : Session H κ Unit) (Q E : List (Event H κ) → Prop) : Prop :=
  ∀ trace, P trace →
    (∃ trace', code.run.run trace = (.ok (), trace') ∧ Q trace') ∨
    ∃ err trace', code.run.run trace = (.error err, trace') ∧ E trace'

/-- The handles of `live` are open, those of `pool` were never, and none was that is not `known`. -/
structure Stands (known : H → Prop) (pool live : List H) (trace : List (Event H κ)) : Prop where
  balance : Balance trace live
  unopened : ∀ h ∈ pool, .opened h ∉ trace
  opened : ∀ h, .opened h ∈ trace → known h

namespace Stands

theorem weaken (hStands : Stands known pool live trace) : Stands known [] live trace :=
  ⟨hStands.balance, fun _ hMem => absurd hMem List.not_mem_nil, hStands.opened⟩

theorem used (hStands : Stands known pool live trace) (hLive : h ∈ live) :
    Stands known pool live (.used h what :: trace) := by
  refine ⟨hStands.balance.used hLive, fun x hMem => ?_, fun x hMem => hStands.opened x ?_⟩
  · simpa using hStands.unopened x hMem
  · simpa using hMem

theorem closed (hStands : Stands known pool (h :: live) trace) (hOnce : h ∉ live) :
    Stands known pool live (.closed h :: trace) := by
  refine ⟨hStands.balance.closed hOnce, fun x hMem => ?_, fun x hMem => hStands.opened x ?_⟩
  · simpa using hStands.unopened x hMem
  · simpa using hMem

theorem release (hStands : Stands known pool live trace) (hPerm : live.Perm handles) (hNodup : handles.Nodup) :
    Stands known pool [] (release handles trace) := by
  have hAll : Stands known pool handles trace :=
    ⟨hStands.balance.perm hPerm, hStands.unopened, hStands.opened⟩
  clear hStands hPerm
  unfold Session.release
  induction handles generalizing trace with
  | nil => exact hAll
  | cons x rest ih =>
    obtain ⟨hOnce, hRest⟩ := List.nodup_cons.mp hNodup
    exact ih hRest (hAll.closed hOnce)

end Stands

namespace Triple

variable {P Q R E E' : List (Event H κ) → Prop} {code next : Session H κ Unit}

theorem ok_of_run {trace' : List (Event H κ)} (hCode : Triple P code Q E) (hP : P trace)
    (h : code.run.run trace = (.ok (), trace')) : Q trace' := by
  rcases hCode trace hP with ⟨_, hRun, hQ⟩ | ⟨_, _, hRun, _⟩
  · cases h.symm.trans hRun
    exact hQ
  · cases h.symm.trans hRun

theorem error_of_run {trace' : List (Event H κ)} {err : String} (hCode : Triple P code Q E) (hP : P trace)
    (h : code.run.run trace = (.error err, trace')) : E trace' := by
  rcases hCode trace hP with ⟨_, hRun, _⟩ | ⟨_, _, hRun, hE⟩
  · cases h.symm.trans hRun
  · cases h.symm.trans hRun
    exact hE

theorem skip (h : ∀ trace, P trace → Q trace) : Triple P (pure ()) Q E :=
  fun trace hP => .inl ⟨trace, rfl, h trace hP⟩

theorem seq (hFirst : Triple P code Q E) (hNext : Triple Q next R E) : Triple P (code >>= fun _ => next) R E := by
  intro trace hP
  rcases hFirst trace hP with ⟨trace', hRun, hQ⟩ | ⟨err, trace', hRun, hE⟩
  · have hThen : (code >>= fun _ => next).run.run trace = next.run.run trace' := by
      rw [ExceptT.run_bind, StateT.run_bind, hRun]
      rfl
    rw [hThen]
    exact hNext trace' hQ
  · refine .inr ⟨err, trace', ?_, hE⟩
    rw [ExceptT.run_bind, StateT.run_bind, hRun]
    rfl

theorem conseq (hCode : Triple P code Q E) (hPost : ∀ trace, Q trace → R trace)
    (hError : ∀ trace, E trace → E' trace) : Triple P code R E' := by
  intro trace hP
  rcases hCode trace hP with ⟨trace', hRun, hQ⟩ | ⟨err, trace', hRun, hE⟩
  · exact .inl ⟨trace', hRun, hPost trace' hQ⟩
  · exact .inr ⟨err, trace', hRun, hError trace' hE⟩

theorem guarded (hCode : Triple P code Q E) (hClose : ∀ trace, E trace → E' (release handles trace)) :
    Triple P (Session.guarded handles code) Q E' := by
  intro trace hP
  rcases hCode trace hP with ⟨trace', hRun, hQ⟩ | ⟨err, trace', hRun, hE⟩
  · refine .inl ⟨trace', ?_, hQ⟩
    unfold Session.guarded
    rw [ExceptT.run_tryCatch, StateT.run_bind, hRun]
    rfl
  · refine .inr ⟨err, release handles trace', ?_, hClose trace' hE⟩
    unfold Session.guarded
    rw [ExceptT.run_tryCatch, StateT.run_bind, hRun]
    rfl

theorem wrapped (hCode : Triple P code Q E) : Triple P (Session.wrapped text code) Q E := by
  intro trace hP
  rcases hCode trace hP with ⟨trace', hRun, hQ⟩ | ⟨err, trace', hRun, hE⟩
  · refine .inl ⟨trace', ?_, hQ⟩
    unfold Session.wrapped
    rw [ExceptT.run_tryCatch, StateT.run_bind, hRun]
    rfl
  · refine .inr ⟨text ++ ": " ++ err, trace', ?_, hE⟩
    unfold Session.wrapped
    rw [ExceptT.run_tryCatch, StateT.run_bind, hRun]
    rfl

theorem acquire (hKnown : known h) (hOnce : h ∉ pool) :
    Triple (Stands known (h :: pool) live) (Session.acquire text reply h : Session H κ Unit)
      (Stands known pool (h :: live)) (Stands known pool live) := by
  intro trace hP
  have hPool (x : H) (hMem : x ∈ pool) : .opened x ∉ trace := hP.unopened x (List.mem_cons_of_mem _ hMem)
  cases reply with
  | error err => exact .inr ⟨_, trace, rfl, hP.balance, hPool, hP.opened⟩
  | ok =>
    refine .inl ⟨.opened h :: trace, rfl, hP.balance.opened (hP.unopened h List.mem_cons_self), ?_, ?_⟩
    · intro x hMem hOpened
      rcases List.mem_cons.mp hOpened with hSame | hBefore
      · exact hOnce (Event.opened.inj hSame ▸ hMem)
      · exact hPool x hMem hBefore
    · intro x hOpened
      rcases List.mem_cons.mp hOpened with hSame | hBefore
      · exact Event.opened.inj hSame ▸ hKnown
      · exact hP.opened x hBefore

theorem use (hLive : h ∈ live) :
    Triple (Stands known pool live) (Session.use text reply h what) (Stands known pool live)
      (Stands known pool live) := by
  intro trace hP
  cases reply with
  | error err => exact .inr ⟨_, _, rfl, hP.used hLive⟩
  | ok => exact .inl ⟨_, rfl, hP.used hLive⟩

/-- Code that fails while the handles are open is to close all of them. -/
theorem closing (hCode : Triple P code Q (Stands known pool live)) (hPerm : live.Perm handles)
    (hNodup : handles.Nodup) : Triple P (Session.guarded handles code) Q (Stands known [] []) :=
  hCode.guarded fun _ hStands => (hStands.release hPerm hNodup).weaken

theorem forM {ι : Type} {f : ι → Session H κ Unit} (items : List ι) (h : ∀ item ∈ items, Triple P (f item) P E) :
    Triple P (items.forM f) P E := by
  induction items with
  | nil => exact skip fun _ => id
  | cons item rest ih =>
    exact (h item List.mem_cons_self).seq (ih fun x hMem => h x (List.mem_cons_of_mem _ hMem))

end Triple

end Session

end Resource
