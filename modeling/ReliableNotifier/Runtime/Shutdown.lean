import ReliableNotifier.Runtime.Consumer

/-! # Returning from `Run`

`RabbitConsumer.Run` waits for its goroutines before it returns, and what it returns is the
error of one of them unless the service is to end or the channel is closed. No goroutine
can keep it from returning, and what is then between the loop and its end is `Close`.
-/

namespace ReliableNotifier.Runtime.Consumer

open Interleaving LabelledRun

variable {closes : Nat → Prop}
variable {history : List Label} {w w' : World} {s s' : Shared} {x x' : Goroutine} {label : Label} {i n : Nat}

/-! ## What `Run` returns -/

/-- Where an error that `Run` returns comes from. -/
def Explained (history : List Label) (n : Nat) (err : String) : Prop :=
  err = "context canceled" ∧ .cancelled ∈ history ∨
  err = "RabbitMQ Worker delivery channel closed" ∧ .disconnected n ∈ history ∨
  ∃ i, .handled n i (.error err) ∈ history

theorem Explained.mono {err : String} (h : Explained history n err) : Explained (label :: history) n err :=
  h.imp (.imp_right (List.mem_cons_of_mem _))
    (.imp (.imp_right (List.mem_cons_of_mem _)) fun ⟨i, hMem⟩ => ⟨i, List.mem_cons_of_mem _ hMem⟩)

/-- The error that the loop has from `Run`, if `Run` is to return or has returned. -/
def Loop.err : Loop → Option (Nat × Option String)
  | waiting n err => some (n, err)
  | closing n err => some (n, err)
  | _ => none

/-- What is known of the errors on their way to the loop. -/
structure Accounts (history : List Label) (s : Shared) : Prop where
  cancelled : s.cancelled = true → .cancelled ∈ history
  closed : ∀ n, (s.runs n).closed = true → .disconnected n ∈ history
  failures : ∀ n err, (s.runs n).failures = some err → ∃ i, .handled n i (.error err) ∈ history
  loop : ∀ n err, s.loop.err = some (n, err) → ∃ text, err = some text ∧ Explained history n text

/-- What the history has of goroutine `i`. -/
structure Goroutine.Noted (i : Nat) (history : List Label) (x : Goroutine) : Prop where
  started : ∀ n, .started n i ∈ history →
    (∃ calls result, x = .working n calls result) ∨ ∃ result, .handled n i result ∈ history
  failing : ∀ n err, x = .failing n err → .handled n i (.error err) ∈ history

theorem Goroutine.Noted.mono (h : x.Noted i history) (hLabel : ∀ n, label ≠ .started n i) :
    x.Noted i (label :: history) := by
  refine ⟨fun n hMem => ?_, fun n err hFailing => List.mem_cons_of_mem _ (h.failing n err hFailing)⟩
  rcases h.started n ((List.mem_cons.mp hMem).resolve_left fun hSame => hLabel n hSame.symm) with hWorking | hHandled
  · exact .inl hWorking
  · exact .inr (hHandled.imp fun _ => List.mem_cons_of_mem _)

theorem Accounts.mono (h : Accounts history s) : Accounts (label :: history) s where
  cancelled hCancelled := List.mem_cons_of_mem _ (h.cancelled hCancelled)
  closed n hClosed := List.mem_cons_of_mem _ (h.closed n hClosed)
  failures n err hFailure := (h.failures n err hFailure).imp fun _ => List.mem_cons_of_mem _
  loop n err hErr := (h.loop n err hErr).imp fun _ => .imp_right .mono

/-- A change of one run, with what it is to be accounted for. -/
theorem Accounts.setRun (h : Accounts history s) {run : Consuming}
    (hClosed : run.closed = true → .disconnected n ∈ history)
    (hFailures : ∀ err, run.failures = some err → ∃ i, .handled n i (.error err) ∈ history) :
    Accounts history (s.setRun n run) := by
  refine ⟨h.cancelled, fun m hm => ?_, fun m err hm => ?_, h.loop⟩
  · by_cases hSame : m = n
    · subst hSame
      exact hClosed (by simpa using hm)
    · exact h.closed m (by rwa [setRun_of_ne hSame] at hm)
  · by_cases hSame : m = n
    · subst hSame
      exact hFailures err (by simpa using hm)
    · exact h.failures m err (by rwa [setRun_of_ne hSame] at hm)

theorem Env.accounts (h : Env closes s label s') (hs : Accounts history s) : Accounts (label :: history) s' := by
  have hMono : Accounts (label :: history) s := hs.mono
  cases h with
  | cancel => exact ⟨fun _ => List.mem_cons_self, hMono.closed, hMono.failures, hMono.loop⟩
  | deliver => exact hMono.setRun (hMono.closed _) (hMono.failures _)
  | disconnect => exact hMono.setRun (fun _ => List.mem_cons_self) (hMono.failures _)
  | unavailable => exact ⟨hMono.cancelled, hMono.closed, hMono.failures, by simp [Loop.err]⟩
  | connect =>
    have hNew : Accounts (.quiet :: history) (s.setRun s.attempts .initial) :=
      hMono.setRun (by simp [Consuming.initial]) (by simp [Consuming.initial])
    exact ⟨hNew.cancelled, hNew.closed, hNew.failures, by simp [Loop.err]⟩
  | context _ hCancelled =>
    refine ⟨hMono.cancelled, hMono.closed, hMono.failures, ?_⟩
    rintro n err ⟨⟩
    exact ⟨_, rfl, .inl ⟨rfl, hMono.cancelled hCancelled⟩⟩
  | @failure m _ _ hFailure =>
    have hTaken : Accounts (.quiet :: history) (s.setRun m { s.runs m with failures := none }) :=
      hMono.setRun (hMono.closed m) (by simp)
    refine ⟨hTaken.cancelled, hTaken.closed, hTaken.failures, ?_⟩
    rintro n err ⟨⟩
    exact ⟨_, rfl, .inr (.inr (hMono.failures _ _ hFailure))⟩
  | closed _ _ hClosed =>
    refine ⟨hMono.cancelled, hMono.closed, hMono.failures, ?_⟩
    rintro n err ⟨⟩
    exact ⟨_, rfl, .inr (.inl ⟨rfl, hMono.closed _ hClosed⟩)⟩
  | returned hLoop =>
    refine ⟨hMono.cancelled, hMono.closed, hMono.failures, ?_⟩
    rintro n err ⟨⟩
    exact hMono.loop _ _ (by rw [hLoop]; rfl)
  | _ => exact ⟨hMono.cancelled, hMono.closed, hMono.failures, by simp [Loop.err]⟩

/-- A goroutine that has handled its message, or has none, was noted as it should be. -/
theorem Goroutine.Noted.settled (h : x.Noted i history) (hLabel : ∀ n, label ≠ .started n i)
    (hSettled : ∀ n calls result, x = .working n calls result → ∃ result, .handled n i result ∈ label :: history)
    (hFailing : ∀ n err, x' = .failing n err → .handled n i (.error err) ∈ label :: history) :
    x'.Noted i (label :: history) := by
  refine ⟨fun n hMem => .inr ?_, hFailing⟩
  rcases (h.mono hLabel).started n hMem with ⟨calls, result, hWorking⟩ | hHandled
  · exact hSettled n calls result hWorking
  · exact hHandled

theorem Goroutine.Noted.called {call : Wire.Call} {calls : List Wire.Call} {result : Except String Unit}
    (h : (working n (call :: calls) result).Noted i history) :
    (working n calls result).Noted i (.quiet :: history) := by
  refine ⟨fun m hMem => ((h.mono (by simp)).started m hMem).imp_left ?_, by simp⟩
  rintro ⟨_, _, hWorking⟩
  cases hWorking
  exact ⟨_, _, rfl⟩

theorem Act.accounts (h : Act i s x label s' x') (hs : Accounts history s) (hx : x.Noted i history) :
    Accounts (label :: history) s' ∧ x'.Noted i (label :: history) := by
  have hMono : Accounts (label :: history) s := hs.mono
  cases h with
  | start =>
    refine ⟨hMono.setRun (hMono.closed _) (hMono.failures _), fun n hMem => ?_, by simp⟩
    rcases List.mem_cons.mp hMem with hSame | hBefore
    · cases hSame
      exact .inl ⟨_, _, rfl⟩
    · rcases hx.started n hBefore with ⟨_, _, hWorking⟩ | hHandled
      · cases hWorking
      · exact .inr (hHandled.imp fun _ => List.mem_cons_of_mem _)
  | call =>
    exact ⟨⟨hMono.cancelled, hMono.closed, hMono.failures, hMono.loop⟩, hx.called⟩
  | @abandon n =>
    have hLeft : Accounts (.quiet :: history) (s.setRun n { s.runs n with unread := (s.runs n).unread + 1 }) :=
      hMono.setRun (hMono.closed n) (hMono.failures n)
    exact ⟨⟨hLeft.cancelled, hLeft.closed, hLeft.failures, hLeft.loop⟩, hx.called⟩
  | succeed =>
    refine ⟨hMono, hx.settled (by simp) (fun n _ _ hWorking => ?_) (by simp)⟩
    cases hWorking
    exact ⟨_, List.mem_cons_self⟩
  | fail =>
    refine ⟨hMono, hx.settled (by simp) (fun n _ _ hWorking => ?_) fun n err hFailing => ?_⟩
    · cases hWorking
      exact ⟨_, List.mem_cons_self⟩
    · cases hFailing
      exact List.mem_cons_self
  | report =>
    refine ⟨hMono.setRun (hMono.closed _) fun err hErr => ⟨i, ?_⟩, hx.settled (by simp) (by simp) (by simp)⟩
    cases hErr
    exact List.mem_cons_of_mem _ (hx.failing _ _ rfl)
  | drop => exact ⟨hMono, hx.settled (by simp) (by simp) (by simp)⟩
  | finish =>
    exact ⟨hMono.setRun (hMono.closed _) (hMono.failures _), hx.settled (by simp) (by simp) (by simp)⟩

theorem Run.accounts (h : Run closes history w) : Accounts history w.shared ∧ ∀ i, (w.procs i).Noted i history := by
  refine Interleaving.invariant (G := Accounts) (L := fun i history _ x => x.Noted i history) ?_ ?_ ?_ ?_ h
  · exact ⟨by simp [start], by simp [start, Consuming.initial], by simp [start, Consuming.initial],
      by simp [start, Loop.err]⟩
  · exact fun i => ⟨by simp, by simp [start]⟩
  · intro history w label s _ hs hEnv
    refine ⟨hEnv.accounts hs, fun i x hx => hx.mono fun n hSame => ?_⟩
    subst hSame
    cases hEnv
  · intro i history w label s x _ hs hx hAct
    obtain ⟨hAccounts, hNoted⟩ := hAct.accounts hs hx
    refine ⟨hAccounts, hNoted, fun j y hji hy => hy.mono fun n hSame => ?_⟩
    subst hSame
    generalize w.procs i = x at hAct
    cases hAct
    exact hji rfl

/-- `Run` returns only when every message that it took was handled, and then with an error: that the service is to
end, that the channel is closed, or what `processMessage` returned for one of its messages. -/
theorem run_returns_settled {err : Option String} (h : Run closes (.returned n err :: history) w) :
    (∀ i, .started n i ∈ history → ∃ result, .handled n i result ∈ history) ∧
      ∃ text, err = some text ∧ Explained history n text := by
  obtain ⟨⟩ | ⟨hRun, hStep⟩ := h
  rename_i v
  have hGrouped := Run.grouped hRun
  obtain ⟨hAccounts, hNoted⟩ := Run.accounts hRun
  cases hStep with
  | env hEnv =>
    cases hEnv with
    | returned hLoop hGroup =>
      refine ⟨fun i hStarted => ?_, hAccounts.loop n err (by rw [hLoop]; rfl)⟩
      rcases (hNoted i).started n hStarted with ⟨calls, result, hWorking⟩ | hHandled
      · have hPos := (hGrouped.counts n).pos (i := i) (by rw [hWorking]; rfl)
        omega
      · exact hHandled
  | act i hAct =>
    generalize v.procs i = x at hAct
    cases hAct

theorem run_returns_settled_failures :
    ∃ history w,
      Run fits (.returned 0 (some "dead-letter malformed signal: channel/connection is not open") :: history) w ∧
      .started 0 1 ∈ history ∧ ∃ result, .handled 0 1 result ∈ history := by
  have hPlay : (play execute [] start (Sample.messages ++ Sample.failures)).any (fun run =>
      run.1.head? = some (.returned 0 (some "dead-letter malformed signal: channel/connection is not open")) ∧
        .started 0 1 ∈ run.1.tail) = true := by
    decide +kernel
  obtain ⟨⟨history, w⟩, hRun, hFacts⟩ := (Option.any_eq_true _ _).mp hPlay
  obtain ⟨hHead, hStarted⟩ := of_decide_eq_true hFacts
  have hSplit : _ :: history.tail = history := List.cons_head?_tail hHead
  have hAll : Run fits history w := run_of_play step_of_execute .refl hRun
  have h : Run fits (_ :: history.tail) w := hSplit ▸ hAll
  exact ⟨history.tail, w, h, hStarted, (run_returns_settled h).1 1 hStarted⟩

/-! ## Coming to an end -/

/-- The goroutines may take `w` to `w'`, with a confirmation for every `Defer`. -/
structure Onward (closes : Nat → Prop) (w w' : World) : Prop where
  reach : Reachable (Step closes) w w'
  loop : w'.shared.loop = w.shared.loop
  attempts : w'.shared.attempts = w.shared.attempts
  cancelled : w'.shared.cancelled = w.shared.cancelled
  unread : ∀ m, (w'.shared.runs m).unread = (w.shared.runs m).unread

theorem Onward.refl : Onward closes w w := ⟨.refl, rfl, rfl, rfl, fun _ => rfl⟩

theorem Onward.trans {v : World} (h : Onward closes v w) (hThen : Onward closes w w') : Onward closes v w' :=
  ⟨h.reach.trans hThen.reach, hThen.loop.trans h.loop, hThen.attempts.trans h.attempts,
    hThen.cancelled.trans h.cancelled, fun m => (hThen.unread m).trans (h.unread m)⟩

theorem Onward.act (hx : w.procs i = x) (h : Act i w.shared x label s x')
    (hUnread : ∀ m, (s.runs m).unread = (w.shared.runs m).unread) :
    Onward closes w ⟨s, Function.update w.procs i x'⟩ := by
  subst hx
  obtain ⟨hLoop, hAttempts, hCancelled, -⟩ := h.frame
  exact ⟨Reachable.refl.next (.act i h), hLoop, hAttempts, hCancelled, hUnread⟩

theorem unread_setRun {run : Consuming} (h : run.unread = (s.runs n).unread) (m : Nat) :
    ((s.setRun n run).runs m).unread = (s.runs m).unread := by
  by_cases hSame : m = n
  · rw [hSame, setRun_self, h]
  · rw [setRun_of_ne hSame]

/-- The goroutines may take `w` to a world in which the group of the consumer `n` has one member less. -/
def Leaves (closes : Nat → Prop) (n : Nat) (w : World) : Prop :=
  ∃ w', Onward closes w w' ∧ (w'.shared.runs n).group = (w.shared.runs n).group - 1

theorem Leaves.before {v : World} (h : Leaves closes n w) (hFirst : Onward closes v w)
    (hGroup : (w.shared.runs n).group = (v.shared.runs n).group) : Leaves closes n v := by
  obtain ⟨w', hOnward, hLess⟩ := h
  exact ⟨w', hFirst.trans hOnward, hGroup ▸ hLess⟩

/-- The consumer that the loop has still to close. -/
def Loop.consumer : Loop → Option Nat
  | selecting n => some n
  | waiting n _ => some n
  | closing n _ => some n
  | _ => none

/-- The loop can come to its end from here, without another attempt to connect. -/
def Ends (closes : Nat → Prop) (w : World) : Prop :=
  ∃ w', Reachable (Step closes) w w' ∧ w'.shared.loop = .exited ∧ w'.shared.attempts = w.shared.attempts

theorem Ends.env (hStep : Env closes w.shared label s) (hAttempts : s.attempts = w.shared.attempts)
    (h : Ends closes { w with shared := s }) : Ends closes w := by
  obtain ⟨w', hReach, hExited, hSame⟩ := h
  exact ⟨w', (Reachable.refl.next (.env hStep)).trans hReach, hExited, hSame.trans hAttempts⟩

/-- The loop is in a `Close` that does not return. -/
def Stuck (closes : Nat → Prop) (s : Shared) : Prop :=
  ∃ n err, s.loop = .closing n err ∧ ¬closes (s.runs n).unread

theorem Stuck.setRun {run : Consuming} (h : Stuck closes s) (hSame : run.unread = (s.runs n).unread) :
    Stuck closes (s.setRun n run) := by
  obtain ⟨m, err, hLoop, hUnread⟩ := h
  exact ⟨m, err, hLoop, by rwa [unread_setRun hSame]⟩

theorem Stuck.step (h : Stuck closes w.shared) (hRun : Run closes history w) (hStep : Step closes w label w') :
    Stuck closes w'.shared := by
  obtain ⟨n, err, hLoop, hUnread⟩ := id h
  cases hStep with
  | env hEnv =>
    cases hEnv with
    | cancel => exact ⟨n, err, hLoop, hUnread⟩
    | deliver => exact h.setRun rfl
    | disconnect => exact h.setRun rfl
    | close hClosing hCloses =>
      cases hClosing.symm.trans hLoop
      exact absurd hCloses hUnread
    | _ hOther => cases hOther.symm.trans hLoop
  | act i hAct =>
    -- `Run` has returned, so that no goroutine has a step
    have hIdle (m : Nat) : ¬(w.procs i).Busy m := fun hBusy => by
      have hServing := (Run.grouped hRun).serving i m hBusy
      rw [hLoop] at hServing
      cases hServing
    generalize w.procs i = x at hAct hIdle
    cases hAct with
    | start hSelecting => cases hSelecting.symm.trans hLoop
    | _ => exact absurd rfl (hIdle _)

theorem Stuck.reachable (h : Stuck closes w.shared) (hRun : Run closes history w)
    (hReach : Reachable (Step closes) w w') : Stuck closes w'.shared := by
  obtain ⟨later, hLater⟩ := hReach
  induction hLater with
  | refl => exact h
  | next hBefore hStep ih => exact ih.step (hRun.trans hBefore) hStep

end ReliableNotifier.Runtime.Consumer
