import Mathlib.Logic.Basic
import Mathlib.Tactic.Common

/-! # Checked computations and labelled runs

Fallible code is an `Except` computation; `bind_ok_iff` takes an accepted one
apart. A labelled transition system is a relation `step`, and `Run` its finite
executions with the newest label first. Safety results are obtained from what
one step keeps, by the induction stated once here.
-/

namespace Checked

universe u

variable {ε : Type*} {α β : Type u}

def ensure (condition : Bool) (failure : ε) : Except ε Unit :=
  if condition then .ok () else .error failure

theorem ensure_ok_iff {condition : Bool} {failure : ε} {result : Unit} :
    ensure condition failure = .ok result ↔ condition = true := by
  unfold ensure
  split <;> simp_all

theorem bind_ok_iff {first : Except ε α} {rest : α → Except ε β} {result : β} :
    (first >>= rest) = .ok result ↔ ∃ value, first = .ok value ∧ rest value = .ok result := by
  rcases first with failure | value
  · constructor
    · intro h
      cases h
    · rintro ⟨_, h, _⟩
      cases h
  · exact ⟨fun h => ⟨value, rfl, h⟩, fun ⟨_, hValue, h⟩ => Except.ok.inj hValue ▸ h⟩

theorem ensure_error_iff {condition : Bool} {failure err : ε} :
    ensure condition failure = .error err ↔ condition = false ∧ failure = err := by
  unfold ensure
  split <;> simp_all

theorem bind_error_iff {first : Except ε α} {rest : α → Except ε β} {err : ε} :
    (first >>= rest) = .error err ↔ first = .error err ∨ ∃ value, first = .ok value ∧ rest value = .error err := by
  rcases first with failure | value
  · constructor
    · intro h
      cases h
      exact .inl rfl
    · rintro (h | ⟨_, h, _⟩)
      · cases h
        rfl
      · cases h
  · constructor
    · intro h
      exact .inr ⟨value, rfl, h⟩
    · rintro (h | ⟨_, hValue, h⟩)
      · cases h
      · cases hValue
        exact h

theorem pure_ok_iff {value result : α} :
    (pure value : Except ε α) = .ok result ↔ value = result :=
  ⟨Except.ok.inj, congrArg _⟩

theorem pure_ne_error {value : α} {err : ε} : (pure value : Except ε α) ≠ .error err := by
  intro h
  cases h

theorem mapError_ok_iff {ε' : Type*} {first : Except ε α} {f : ε → ε'} {result : α} :
    first.mapError f = .ok result ↔ first = .ok result := by
  cases first <;> simp [Except.mapError]

theorem map_ok_iff {first : Except ε α} {f : α → β} {result : β} :
    f <$> first = .ok result ↔ ∃ value, first = .ok value ∧ f value = result := by
  rcases first with failure | value
  · constructor
    · intro h
      cases h
    · rintro ⟨_, h, _⟩
      cases h
  · exact ⟨fun h => ⟨value, rfl, Except.ok.inj h⟩,
      fun ⟨_, hValue, h⟩ => congrArg Except.ok (Except.ok.inj hValue ▸ h)⟩

theorem map_error_iff {first : Except ε α} {f : α → β} {err : ε} :
    f <$> first = .error err ↔ first = .error err := by
  rcases first with failure | value
  · exact ⟨fun h => congrArg _ (Except.error.inj h), fun h => congrArg _ (Except.error.inj h)⟩
  · constructor <;> exact nofun

def failure : Except ε α → Option ε
  | .error err => some err
  | .ok _ => none

theorem failure_eq_some_iff {result : Except ε α} {err : ε} : failure result = some err ↔ result = .error err := by
  cases result <;> simp [failure]

theorem toOption_eq_some_iff {x : Except ε α} {a : α} : x.toOption = some a ↔ x = .ok a := by
  cases x <;> simp [Except.toOption]

/-- The rule for an assertion on the accumulator of a loop. -/
theorem foldlM_invariant {γ : Type*} {P : α → Prop} {f : α → γ → Except ε α} {first last : α} {items : List γ}
    (hFirst : P first) (hStep : ∀ value item next, P value → f value item = .ok next → P next)
    (h : items.foldlM f first = .ok last) : P last := by
  induction items generalizing first with
  | nil =>
    cases h
    exact hFirst
  | cons item rest ih =>
    rw [List.foldlM_cons] at h
    obtain ⟨next, hNext, hRest⟩ := bind_ok_iff.mp h
    exact ih (hStep first item next hFirst hNext) hRest

theorem forM_ok_iff {γ : Type*} {f : γ → Except ε PUnit} {items : List γ} :
    items.forM f = .ok ⟨⟩ ↔ ∀ item ∈ items, f item = .ok ⟨⟩ := by
  induction items with
  | nil => simp [pure, Except.pure]
  | cons item rest ih =>
    have hUnfold : (item :: rest).forM f = (f item >>= fun _ => rest.forM f) := rfl
    rw [hUnfold, bind_ok_iff, List.forall_mem_cons, ← ih]
    exact ⟨fun ⟨_, hItem, hRest⟩ => ⟨hItem, hRest⟩, fun ⟨hItem, hRest⟩ => ⟨⟨⟩, hItem, hRest⟩⟩

theorem mapError_ok {ε' : Type*} (value : α) (f : ε → ε') : (Except.ok value).mapError f = .ok value := rfl

theorem ok_bind (value : α) (rest : α → Except ε β) : (Except.ok value >>= rest) = rest value := rfl

theorem ensure_true_bind {γ : Type} (failure : ε) (rest : Unit → Except ε γ) :
    (ensure true failure >>= rest) = rest () := rfl

/-- The second computation returns the image of what the first one returns, and fails where that fails. -/
inductive Corresponds {ε' : Type*} (f : α → β) : Except ε α → Except ε' β → Prop
  | ok (value : α) : Corresponds f (.ok value) (.ok (f value))
  | error (err : ε) (err' : ε') : Corresponds f (.error err) (.error err')

namespace Corresponds

variable {ε' : Type*} {γ δ : Type u} {f : α → β} {g : γ → δ}

theorem ok_of_eq {value : α} {result : β} (h : f value = result) :
    Corresponds f (.ok value : Except ε α) (.ok result : Except ε' β) := by
  subst h
  exact .ok value

theorem of_ok {value : α} {b : Except ε' β} (h : Corresponds f (.ok value : Except ε α) b) : b = .ok (f value) := by
  cases h
  rfl

theorem exists_of_ok {a : Except ε α} {result : β} (h : Corresponds f a (.ok result : Except ε' β)) :
    ∃ value, a = .ok value ∧ f value = result := by
  cases h
  exact ⟨_, rfl, rfl⟩

theorem exists_of_error {a : Except ε α} {err' : ε'} (h : Corresponds f a (.error err' : Except ε' β)) :
    ∃ err, a = .error err := by
  cases h
  exact ⟨_, rfl⟩

theorem bind {a : Except ε α} {b : Except ε' β} {rest : α → Except ε γ} {rest' : β → Except ε' δ}
    (h : Corresponds f a b) (hRest : ∀ value, a = .ok value → Corresponds g (rest value) (rest' (f value))) :
    Corresponds g (a >>= rest) (b >>= rest') := by
  cases h with
  | ok value => exact hRest value rfl
  | error err err' => exact .error err err'

theorem ensure_bind {condition condition' : Bool} {failure : ε} {failure' : ε'} {γ δ : Type} {g : γ → δ}
    {rest : Unit → Except ε γ} {rest' : Unit → Except ε' δ} (h : condition' = condition)
    (hRest : condition = true → Corresponds g (rest ()) (rest' ())) :
    Corresponds g (ensure condition failure >>= rest) (ensure condition' failure' >>= rest') := by
  subst h
  cases condition' with
  | true => exact hRest rfl
  | false => exact .error _ _

theorem mapError {ε'' : Type*} {a : Except ε α} {b : Except ε' β} (h : Corresponds f a b) (text : ε' → ε'') :
    Corresponds f a (b.mapError text) := by
  cases h with
  | ok value => exact .ok value
  | error err err' => exact .error err (text err')

end Corresponds

/-- The computation does not fail with an error that is `bad`. -/
def Avoids (bad : ε → Prop) (result : Except ε α) : Prop := ∀ err, result = .error err → ¬bad err

namespace Avoids

variable {bad : ε → Prop}

theorem ok (value : α) : Avoids bad (.ok value) := fun _ h => by cases h

theorem of_eq {result : Except ε α} {value : α} (h : result = .ok value) : Avoids bad result := h ▸ ok value

theorem error {err : ε} (h : ¬bad err) : Avoids bad (.error err : Except ε α) := by
  rintro _ hSame
  cases hSame
  exact h

theorem ensure {condition : Bool} {failure : ε} (h : condition = true ∨ ¬bad failure) :
    Avoids bad (ensure condition failure) := by
  intro err hErr
  obtain ⟨hFalse, rfl⟩ := ensure_error_iff.mp hErr
  exact h.resolve_left (by simp [hFalse])

theorem bind {first : Except ε α} {rest : α → Except ε β} (hFirst : Avoids bad first)
    (hRest : ∀ value, first = .ok value → Avoids bad (rest value)) : Avoids bad (first >>= rest) := by
  intro err hErr
  rcases bind_error_iff.mp hErr with h | ⟨value, hValue, h⟩
  · exact hFirst err h
  · exact hRest value hValue err h

theorem map {first : Except ε α} {f : α → β} (h : Avoids bad first) : Avoids bad (f <$> first) :=
  fun err hErr => h err (map_error_iff.mp hErr)

end Avoids

end Checked

namespace LabelledRun

variable {σ ℓ : Type*}

inductive Run (step : σ → ℓ → σ → Prop) (first : σ) : List ℓ → σ → Prop
  | refl : Run step first [] first
  | next {history : List ℓ} {s t : σ} {label : ℓ} :
      Run step first history s → step s label t → Run step first (label :: history) t

def Reachable (step : σ → ℓ → σ → Prop) (first s : σ) : Prop := ∃ history, Run step first history s

variable {step : σ → ℓ → σ → Prop} {first s t u : σ} {history later : List ℓ}

/-- What a label adds to what is read off the history. -/
theorem filterMap_cons {β : Type*} (f : ℓ → Option β) (label : ℓ) (history : List ℓ) :
    (label :: history).filterMap f = (f label).toList ++ history.filterMap f := by
  rw [List.filterMap_cons]
  split <;> simp [*]

theorem Run.trans (h : Run step first history s) (hLater : Run step s later t) :
    Run step first (later ++ history) t := by
  induction hLater with
  | refl => exact h
  | next _ hStep ih => exact .next ih hStep

/-- An assertion about the history and the state that holds at the start and
that one step keeps holds of every run. -/
theorem Run.invariant {I : List ℓ → σ → Prop} (hFirst : I [] first)
    (hStep : ∀ history s label t, Run step first history s → I history s → step s label t →
      I (label :: history) t)
    (h : Run step first history s) : I history s := by
  induction h with
  | refl => exact hFirst
  | next hRun h ih => exact hStep _ _ _ _ hRun ih h

/-- One of the steps of the run to `last` is a step with `R`. -/
def Takes (step : σ → ℓ → σ → Prop) (first : σ) (history : List ℓ) (last : σ) (R : σ → σ → Prop) : Prop :=
  ∃ earlier later label s t, Run step first earlier s ∧ step s label t ∧ R s t ∧ Run step t later last ∧
    history = later ++ label :: earlier

theorem Takes.next {R : σ → σ → Prop} {label : ℓ} (h : Takes step first history s R) (hStep : step s label t) :
    Takes step first (label :: history) t R := by
  obtain ⟨earlier, later, taken, before, after, hBefore, hTaken, hR, hAfter, rfl⟩ := h
  exact ⟨earlier, label :: later, taken, before, after, hBefore, hTaken, hR, hAfter.next hStep, rfl⟩

/-- A run can be prolonged to a goal if every state on the way has a step that reaches the goal or
brings a measure down. -/
theorem Run.reach {I G : List ℓ → σ → Prop} (measure : σ → Nat)
    (hStep : ∀ history s, I history s → ∃ label t, step s label t ∧
      (G (label :: history) t ∨ I (label :: history) t ∧ measure t < measure s))
    (h : Run step first history s) (hI : I history s) :
    ∃ history' t, Run step first history' t ∧ G history' t := by
  induction hn : measure s using Nat.strongRecOn generalizing history s with
  | ind n ih =>
    obtain ⟨label, t, hNext, hGoal | ⟨hAgain, hLess⟩⟩ := hStep history s hI
    · exact ⟨label :: history, t, h.next hNext, hGoal⟩
    · exact ih (measure t) (hn ▸ hLess) (h.next hNext) hAgain rfl

theorem Reachable.refl : Reachable step first first := ⟨[], .refl⟩

theorem Reachable.next {label : ℓ} (h : Reachable step first s) (hStep : step s label t) :
    Reachable step first t :=
  let ⟨history, hRun⟩ := h
  ⟨label :: history, .next hRun hStep⟩

theorem Reachable.trans (h : Reachable step first s) (hLater : Reachable step s t) :
    Reachable step first t :=
  let ⟨_, hRun⟩ := h
  let ⟨_, hMore⟩ := hLater
  ⟨_, hRun.trans hMore⟩

theorem Reachable.invariant {I : σ → Prop} (hFirst : I first)
    (hStep : ∀ s label t, I s → step s label t → I t) (h : Reachable step first s) : I s := by
  obtain ⟨history, hRun⟩ := h
  exact hRun.invariant (I := fun _ s => I s) hFirst fun _ _ _ _ _ ih hs => hStep _ _ _ ih hs

/-- The labels of a script of commands, newest first, and the state it ends in. -/
def play {κ : Type*} (execute : σ → κ → Option (ℓ × σ)) (history : List ℓ) (s : σ) :
    List κ → Option (List ℓ × σ)
  | [] => some (history, s)
  | command :: rest => (execute s command).bind fun next => play execute (next.1 :: history) next.2 rest

theorem run_of_play {κ : Type*} {execute : σ → κ → Option (ℓ × σ)} {script : List κ}
    (hStep : ∀ {s t : σ} {command : κ} {label : ℓ}, execute s command = some (label, t) → step s label t)
    (hRun : Run step first history s) (h : play execute history s script = some (later, t)) :
    Run step first later t := by
  induction script generalizing history s with
  | nil =>
    cases h
    exact hRun
  | cons command rest ih =>
    obtain ⟨⟨label, next⟩, hNext, hRest⟩ := Option.bind_eq_some_iff.mp h
    exact ih (hRun.next (hStep hNext)) hRest

end LabelledRun
