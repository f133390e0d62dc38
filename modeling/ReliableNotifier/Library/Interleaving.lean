import Mathlib.Data.Finset.Card
import Mathlib.Logic.Function.Basic
import ReliableNotifier.Library.Run

/-! # Processes that interleave over a shared state

Any number of processes act on one shared state, one step at a time and in any
order, and so does an environment without a local state. An assertion about the
shared state and one about each process are proved together: a step keeps the
shared assertion, establishes that of the process that took it, and disturbs no other.
A journal adds to a run what one of the processes notes down at its steps.
-/

namespace Interleaving

open LabelledRun

variable {σ α ℓ : Type*}

structure World (σ α : Type*) where
  shared : σ
  procs : Nat → α

inductive Step (env : σ → ℓ → σ → Prop) (act : Nat → σ → α → ℓ → σ → α → Prop) :
    World σ α → ℓ → World σ α → Prop
  | env {w : World σ α} {label : ℓ} {s : σ} (h : env w.shared label s) :
      Step env act w label { w with shared := s }
  | act {w : World σ α} {label : ℓ} {s : σ} {x : α} (i : Nat) (h : act i w.shared (w.procs i) label s x) :
      Step env act w label ⟨s, Function.update w.procs i x⟩

variable {env : σ → ℓ → σ → Prop} {act : Nat → σ → α → ℓ → σ → α → Prop} {first w : World σ α}
  {history : List ℓ}

/-- The shared assertion `G` and the local assertions `L i` hold along every run. -/
theorem invariant {G : List ℓ → σ → Prop} {L : Nat → List ℓ → σ → α → Prop}
    (hFirst : G [] first.shared) (hLocal : ∀ i, L i [] first.shared (first.procs i))
    (hEnv : ∀ history w label s, Run (Step env act) first history w → G history w.shared →
      env w.shared label s →
      G (label :: history) s ∧ ∀ i x, L i history w.shared x → L i (label :: history) s x)
    (hAct : ∀ i history w label s x, Run (Step env act) first history w → G history w.shared →
      L i history w.shared (w.procs i) → act i w.shared (w.procs i) label s x →
      G (label :: history) s ∧ L i (label :: history) s x ∧
        ∀ j y, j ≠ i → L j history w.shared y → L j (label :: history) s y)
    (h : Run (Step env act) first history w) :
    G history w.shared ∧ ∀ i, L i history w.shared (w.procs i) := by
  induction h with
  | refl => exact ⟨hFirst, hLocal⟩
  | next hRun hStep ih =>
    cases hStep with
    | env hEnvStep =>
      obtain ⟨hG, hOthers⟩ := hEnv _ _ _ _ hRun ih.1 hEnvStep
      exact ⟨hG, fun i => hOthers i _ (ih.2 i)⟩
    | act i hActStep =>
      obtain ⟨hG, hOwn, hOthers⟩ := hAct i _ _ _ _ _ hRun ih.1 (ih.2 i) hActStep
      refine ⟨hG, fun j => ?_⟩
      by_cases hji : j = i
      · subst hji
        simpa using hOwn
      · simpa [Function.update_of_ne hji] using hOthers j _ hji (ih.2 j)

/-- Process `i` gets to where `Q` holds of it only by a step with `R`, and nobody else gets it there. -/
theorem takes_of_enters {i : Nat} {Q : List ℓ → α → Prop} {R : World σ α → World σ α → Prop}
    (hFirst : ¬Q [] (first.procs i))
    (hEnv : ∀ history (w : World σ α) label s, env w.shared label s → Q (label :: history) (w.procs i) →
      Q history (w.procs i))
    (hOther : ∀ j history (w : World σ α) label s x, j ≠ i → act j w.shared (w.procs j) label s x →
      Q (label :: history) (w.procs i) → Q history (w.procs i))
    (hOwn : ∀ history w label s x, Run (Step env act) first history w → act i w.shared (w.procs i) label s x →
      Q (label :: history) x → Q history (w.procs i) ∨ R w ⟨s, Function.update w.procs i x⟩)
    (h : Run (Step env act) first history w) (hQ : Q history (w.procs i)) :
    Takes (Step env act) first history w R := by
  induction h with
  | refl => exact absurd hQ hFirst
  | @next history w _ label hRun hStep ih =>
    cases hStep with
    | env hEnvStep => exact (ih (hEnv _ _ _ _ hEnvStep hQ)).next (.env hEnvStep)
    | act j hActStep =>
      dsimp only at hQ
      by_cases hji : j = i
      · subst hji
        rw [Function.update_self] at hQ
        rcases hOwn _ _ _ _ _ hRun hActStep hQ with hBefore | hHere
        · exact (ih hBefore).next (.act j hActStep)
        · exact ⟨history, [], label, w, _, hRun, .act j hActStep, hHere, .refl, rfl⟩
      · rw [Function.update_of_ne (Ne.symm hji)] at hQ
        exact (ih (hOther j _ _ _ _ _ hji hActStep hQ)).next (.act j hActStep)

section Journal

variable {ε : Type*} {record : σ → α → ℓ → σ → α → List ε → Prop} {i : Nat} {entries : List ε}

/-- A run with what process `i` records on the way, oldest entry first. -/
inductive Journal (env : σ → ℓ → σ → Prop) (act : Nat → σ → α → ℓ → σ → α → Prop)
    (record : σ → α → ℓ → σ → α → List ε → Prop) (i : Nat) (first : World σ α) :
    List ℓ → World σ α → List ε → Prop
  | start : Journal env act record i first [] first []
  | env {history : List ℓ} {w : World σ α} {entries : List ε} {label : ℓ} {s : σ}
      (hPrior : Journal env act record i first history w entries) (h : env w.shared label s) :
      Journal env act record i first (label :: history) { w with shared := s } entries
  | other {history : List ℓ} {w : World σ α} {entries : List ε} {label : ℓ} {s : σ} {x : α} {j : Nat}
      (hPrior : Journal env act record i first history w entries) (hOther : j ≠ i)
      (h : act j w.shared (w.procs j) label s x) :
      Journal env act record i first (label :: history) ⟨s, Function.update w.procs j x⟩ entries
  | own {history : List ℓ} {w : World σ α} {entries more : List ε} {label : ℓ} {s : σ} {x : α}
      (hPrior : Journal env act record i first history w entries)
      (h : record w.shared (w.procs i) label s x more) :
      Journal env act record i first (label :: history) ⟨s, Function.update w.procs i x⟩ (entries ++ more)

theorem Journal.run (hRecord : ∀ {s x label s' x' more}, record s x label s' x' more → act i s x label s' x')
    (h : Journal env act record i first history w entries) : Run (Step env act) first history w := by
  induction h with
  | start => exact .refl
  | env _ h ih => exact ih.next (.env h)
  | other _ _ h ih => exact ih.next (.act _ h)
  | own _ h ih => exact ih.next (.act _ (hRecord h))

/-- The rule for an assertion about the shared state, process `i` and its entries. -/
theorem Journal.invariant {I : List ℓ → σ → α → List ε → Prop} (hFirst : I [] first.shared (first.procs i) [])
    (hEnv : ∀ history w entries label s, Journal env act record i first history w entries →
      I history w.shared (w.procs i) entries → env w.shared label s → I (label :: history) s (w.procs i) entries)
    (hOther : ∀ history w entries label s x j, Journal env act record i first history w entries →
      I history w.shared (w.procs i) entries → j ≠ i → act j w.shared (w.procs j) label s x →
      I (label :: history) s (w.procs i) entries)
    (hOwn : ∀ history w entries label s x more, Journal env act record i first history w entries →
      I history w.shared (w.procs i) entries → record w.shared (w.procs i) label s x more →
      I (label :: history) s x (entries ++ more))
    (h : Journal env act record i first history w entries) : I history w.shared (w.procs i) entries := by
  induction h with
  | start => exact hFirst
  | @env _ w _ _ _ hPrior h ih => exact hEnv _ w _ _ _ hPrior ih h
  | @other _ w _ _ _ _ j hPrior hji h ih =>
    simpa only [Function.update_of_ne hji.symm] using hOther _ w _ _ _ _ j hPrior ih hji h
  | @own _ w _ _ _ _ _ hPrior h ih =>
    simpa only [Function.update_self] using hOwn _ w _ _ _ _ _ hPrior ih h

end Journal

/-- Exactly `n` processes satisfy `P`. -/
def Counts (procs : Nat → α) (P : α → Prop) (n : Nat) : Prop :=
  ∃ members : Finset Nat, (∀ i, i ∈ members ↔ P (procs i)) ∧ members.card = n

namespace Counts

variable {procs : Nat → α} {P : α → Prop} {n m i : Nat} {x : α}

theorem none (h : ∀ i, ¬P (procs i)) : Counts procs P 0 := ⟨∅, fun i => by simp [h i], rfl⟩

theorem unique (h : Counts procs P n) (hOther : Counts procs P m) : n = m := by
  obtain ⟨members, hMembers, rfl⟩ := h
  obtain ⟨others, hOthers, rfl⟩ := hOther
  exact congrArg Finset.card (Finset.ext fun i => (hMembers i).trans (hOthers i).symm)

theorem stay (h : Counts procs P n) (hSame : P x ↔ P (procs i)) : Counts (Function.update procs i x) P n := by
  obtain ⟨members, hMembers, rfl⟩ := h
  refine ⟨members, fun j => (hMembers j).trans ?_, rfl⟩
  by_cases hji : j = i
  · subst hji
    rw [Function.update_self, hSame]
  · rw [Function.update_of_ne hji]

theorem enter (h : Counts procs P n) (hOut : ¬P (procs i)) (hIn : P x) :
    Counts (Function.update procs i x) P (n + 1) := by
  obtain ⟨members, hMembers, rfl⟩ := h
  have hNew : i ∉ members := fun hMem => hOut ((hMembers i).mp hMem)
  refine ⟨insert i members, fun j => ?_, Finset.card_insert_of_notMem hNew⟩
  by_cases hji : j = i
  · subst hji
    simp [hIn]
  · simp [hji, hMembers j]

theorem leave (h : Counts procs P (n + 1)) (hIn : P (procs i)) (hOut : ¬P x) :
    Counts (Function.update procs i x) P n := by
  obtain ⟨members, hMembers, hCard⟩ := h
  have hOld : i ∈ members := (hMembers i).mpr hIn
  refine ⟨members.erase i, fun j => ?_, ?_⟩
  · by_cases hji : j = i
    · subst hji
      simp [hOut]
    · simp [hji, hMembers j]
  · rw [Finset.card_erase_of_mem hOld, hCard]
    rfl

theorem pos (h : Counts procs P n) (hIn : P (procs i)) : 0 < n := by
  obtain ⟨members, hMembers, rfl⟩ := h
  exact Finset.card_pos.mpr ⟨i, (hMembers i).mpr hIn⟩

end Counts

end Interleaving
