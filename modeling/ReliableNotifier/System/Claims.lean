import ReliableNotifier.Lifecycle.History
import ReliableNotifier.System.Execution

/-! # One claim, one send and one result for each generation

A claim leaves `(pending, g)` and a result leaves `(delivering, g)`, and a phase that
was left does not come back. What a process may do under a claim therefore happens
at most once, whatever signals the broker hands out and however processes interleave.
-/

namespace ReliableNotifier

open RowTable

namespace Label

def claims (id : UUID) (g : Nat) : Label → Bool
  | commit _ _ (.claimDelivery deliveryID generation _ _ _) _ => deliveryID = id && generation = g
  | _ => false

def sends (id : UUID) (g : Nat) : Label → Bool
  | send _ task _ _ _ => task.id = id && task.generation = g
  | _ => false

/-- The commits that end the lease of generation `g`. -/
def resolves (id : UUID) (g : Nat) : Label → Bool
  | commit _ _ (.complete _ result _) _ => result.deliveryID = id && result.generation = g
  | commit _ r (.recoverExpiredDeliveries limit locked _ _ _) before =>
    before.deliveries.any fun row => row.id = id && row.generation = g && row.recoverable r limit locked before
  | _ => false

/-- Neither a claim nor a send, for any delivery. -/
def Silent (label : Label) : Prop := ∀ id g, label.claims id g = false ∧ label.sends id g = false

theorem silent_complete {actor : Option Nat} {r : Readings} {completion : Completion} {result : AttemptResult}
    {attemptID : UUID} {before : Database} : (commit actor r (.complete completion result attemptID) before).Silent :=
  fun _ _ => ⟨rfl, rfl⟩

theorem Plain.silent {label : Label} (h : label.Plain) : label.Silent := by
  intro id g
  cases label with
  | commit actor r op before => cases op <;> first | exact ⟨rfl, rfl⟩ | exact h.elim
  | send => exact h.elim
  | _ => exact ⟨rfl, rfl⟩

end Label

variable {setting : Setting} {history : List Label} {w : System} {s s' : Shared} {label : Label} {r : Readings}
  {id : UUID} {g : Nat}

namespace Store

variable {s t : Store}

theorem Step.claim_spec {owner : String} {leaseDuration : Duration} {token : UUID} (hs : s.Reachable)
    (h : Step s (.commit r (.claimDelivery id g owner leaseDuration token)) t) :
    ∃ row, (s.db.dossier id).row = some row ∧ row.due r row.id id g = true ∧
      (t.db.dossier id).row = some (row.claim r owner leaseDuration token) := by
  cases h with
  | commit _ _ _ hApply =>
    obtain ⟨⟨reply, final⟩, hClaim, rfl⟩ := Checked.map_ok_iff.mp hApply
    obtain ⟨row, hRow, hDue, hClaimed, _⟩ := Dossier.claimDelivery_spec hs.integrity hClaim
    exact ⟨row, hRow, hDue, by rw [hClaimed]⟩

/-- A step that leaves a phase leaves it for good. -/
theorem Step.passed_of_ne {p : Status × Nat} {action : Action} (hs : s.Reachable) (h : Step s action t)
    (hp : s.db.phase id = some p) (hLeft : t.db.phase id ≠ some p) : Passed p id t :=
  (h.stays_or_passed hs hp).resolve_left hLeft

theorem Step.claim_passes {owner : String} {leaseDuration : Duration} {token : UUID} (hs : s.Reachable)
    (h : Step s (.commit r (.claimDelivery id g owner leaseDuration token)) t) :
    s.db.phase id = some (.pending, g) ∧ Passed (.pending, g) id t := by
  obtain ⟨row, hRow, hDue, hClaimed⟩ := h.claim_spec hs
  obtain ⟨_, hGeneration, hPending, _⟩ := DeliveryRow.due_iff.mp hDue
  have hp : s.db.phase id = some (.pending, g) := by rw [phase_of_row hRow, hPending, hGeneration]
  refine ⟨hp, h.passed_of_ne hs hp ?_⟩
  rw [phase_of_row hClaimed]
  simp [DeliveryRow.claim]

theorem Step.complete_passes {completion : Completion} {result : AttemptResult} {attemptID : UUID}
    (hs : s.Reachable) (h : Step s (.commit r (.complete completion result attemptID)) t) :
    s.db.phase result.deliveryID = some (.delivering, result.generation) ∧
      Passed (.delivering, result.generation) result.deliveryID t := by
  have hStep := h
  cases h with
  | commit _ _ _ hApply =>
    obtain ⟨row, hRow, hFenced, hCompleted, _⟩ := Dossier.complete_spec hs.integrity hApply
    obtain ⟨_, hGeneration, hDelivering, _⟩ := DeliveryRow.fenced_iff.mp hFenced
    have hp : s.db.phase result.deliveryID = some (.delivering, result.generation) := by
      rw [phase_of_row hRow, hDelivering, hGeneration]
    refine ⟨hp, hStep.passed_of_ne hs hp ?_⟩
    rw [phase_of_row (congrArg Dossier.row hCompleted)]
    cases completion <;> simp [DeliveryRow.complete, Completion.resultClass]

theorem Step.recover_passes {limit : Int} {locked : UUID → Bool} {attemptIDs eventIDs traceIDs : UUID → UUID}
    {row : DeliveryRow} (hs : s.Reachable)
    (h : Step s (.commit r (.recoverExpiredDeliveries limit locked attemptIDs eventIDs traceIDs)) t)
    (hRow : row ∈ s.db.deliveries) (hRecoverable : row.recoverable r limit locked s.db = true) :
    s.db.phase row.id = some (.delivering, row.generation) ∧ Passed (.delivering, row.generation) row.id t := by
  have hStep := h
  cases h with
  | commit _ _ _ hApply =>
    have hFound := hs.integrity.dossier_row_iff.mpr ⟨hRow, rfl⟩
    have hDelivering := (DeliveryRow.leaseExpired_iff.mp
      (Dossier.leaseExpired_of_recoverable hs.integrity hRow hRecoverable)).1
    have hp : s.db.phase row.id = some (.delivering, row.generation) := by
      rw [phase_of_row hFound, hDelivering]
    have hAfter := Dossier.recoverExpiredDeliveries_row hApply row.id
    rw [hFound, Option.map_some, if_pos hRecoverable] at hAfter
    refine ⟨hp, hStep.passed_of_ne hs hp ?_⟩
    rw [phase_of_row hAfter]
    simp only [DeliveryRow.recover]
    split <;> simp

/-- The lease that `attempt` reports under has expired, was recovered, or belongs to someone else now. -/
def Stale (s : Store) (attempt : AttemptResult) : Prop :=
  ∀ row ∈ s.db.deliveries, row.id = attempt.deliveryID →
    ¬(row.status = .delivering ∧ row.generation = attempt.generation ∧
      row.leaseToken = some attempt.leaseToken ∧ ∃ t, row.leaseUntil = some t ∧ s.now < t)

theorem Stale.not_complete {completion : Completion} {attempt : AttemptResult} {attemptID : UUID}
    (hs : s.Reachable) (hStale : s.Stale attempt) :
    ¬Step s (.commit r (.complete completion attempt attemptID)) t := by
  intro h
  cases h with
  | commit hClock _ _ hApply =>
    obtain ⟨row, hRow, hFenced, _⟩ := Dossier.complete_spec hs.integrity hApply
    obtain ⟨hID, hGeneration, hDelivering, _, hToken, ⟨t, hUntil, hLive⟩, _⟩ := DeliveryRow.fenced_iff.mp hFenced
    exact hStale row (hs.integrity.dossier_row_iff.mp hRow).1 hID
      ⟨hDelivering, hGeneration, hToken, t, hUntil, (hClock.trans (r.statement_le_scan _ _)).trans_lt hLive⟩

end Store

namespace System

/-- A kind of step that leaves one fixed phase happens at most once in a run. -/
theorem Run.at_most_once {P : Label → Bool} (id : UUID) {p : Status × Nat}
    (hP : ∀ {s s' : Shared} {label : Label}, s.store.Reachable → s.Advances s' label → P label = true →
      s.store.db.phase id = some p ∧ Store.Passed p id s'.store)
    (h : Run setting history w) :
    (history.filter P).length ≤ 1 ∧ (history.filter P ≠ [] → Store.Passed p id w.shared.store) := by
  obtain ⟨t, hRun⟩ := h
  induction hRun with
  | refl => exact ⟨Nat.zero_le 1, fun h => absurd rfl h⟩
  | @next history v u label hPrior hStep ih =>
    have hReachable := Run.reachable ⟨t, hPrior⟩
    have hAdvances := Step.advances hStep
    obtain ⟨_, hStore⟩ := hAdvances.step
    by_cases hLabel : P label = true
    · obtain ⟨hHere, hPassed⟩ := hP hReachable hAdvances hLabel
      have hNone : history.filter P = [] := by
        by_contra hSome
        exact lt_irrefl _ ((ih.2 hSome).2 p hHere)
      rw [List.filter_cons_of_pos hLabel, hNone]
      exact ⟨le_rfl, fun _ => hPassed⟩
    · rw [List.filter_cons_of_neg hLabel]
      exact ⟨ih.1, fun hSome => (ih.2 hSome).step hReachable hStore⟩

theorem Run.claims_once (h : Run setting history w) (id : UUID) (g : Nat) :
    (history.filter (Label.claims id g)).length ≤ 1 ∧
      (history.filter (Label.claims id g) ≠ [] → Store.Passed (.pending, g) id w.shared.store) := by
  refine h.at_most_once id fun {s s' label} hs hAdvances hLabel => ?_
  unfold Label.claims at hLabel
  split at hLabel
  · obtain ⟨rfl, rfl⟩ : _ = id ∧ _ = g := by simpa using hLabel
    cases hAdvances with
    | commit hStep => exact hStep.claim_passes hs
    | keep hKeep _ => exact absurd rfl (hKeep _ _ _ _)
  · cases hLabel

theorem Run.resolves_once (h : Run setting history w) (id : UUID) (g : Nat) :
    (history.filter (Label.resolves id g)).length ≤ 1 := by
  refine (h.at_most_once id (p := (.delivering, g)) fun {s s' label} hs hAdvances hLabel => ?_).1
  unfold Label.resolves at hLabel
  split at hLabel
  · obtain ⟨rfl, rfl⟩ : _ = id ∧ _ = g := by simpa using hLabel
    cases hAdvances with
    | commit hStep => exact hStep.complete_passes hs
    | keep hKeep _ => exact absurd rfl (hKeep _ _ _ _)
  · cases hAdvances with
    | commit hStep =>
      obtain ⟨row, hRow, hMatch⟩ := List.any_eq_true.mp hLabel
      simp only [Bool.and_eq_true, decide_eq_true_eq] at hMatch
      obtain ⟨⟨rfl, rfl⟩, hRecoverable⟩ := hMatch
      exact hStep.recover_passes hs hRow hRecoverable
    | keep hKeep _ => exact absurd rfl (hKeep _ _ _ _)
  · cases hLabel

/-- Process `i` made the claim it works under, and nothing was sent under it yet. -/
structure Unspent (i : Nat) (history : List Label) (task : Delivery) : Prop where
  claimed : (history.filter (Label.claims task.id task.generation)).map Label.actor = [some i]
  unsent : history.filter (Label.sends task.id task.generation) = []

/-- Whoever sent for a generation is who claimed it. -/
def SendersClaimed (history : List Label) : Prop :=
  ∀ id g, history.filter (Label.sends id g) = [] ∨
    (history.filter (Label.sends id g)).map Label.actor = (history.filter (Label.claims id g)).map Label.actor

/-- The local assertion: only a process that is about to send has anything to say. -/
def SendReady (i : Nat) (history : List Label) : Process → Prop
  | .consumer (.sending _ task _) => Unspent i history task
  | _ => True

theorem claims_eq_nil_of_next (h : Run setting (label :: history) w) (hLabel : label.claims id g = true) :
    history.filter (Label.claims id g) = [] := by
  have hOnce := (h.claims_once id g).1
  rw [List.filter_cons_of_pos hLabel, List.length_cons] at hOnce
  exact List.length_eq_zero_iff.mp (by omega)

theorem filter_silent (hLabel : label.Silent) (id : UUID) (g : Nat) :
    (label :: history).filter (Label.claims id g) = history.filter (Label.claims id g) ∧
      (label :: history).filter (Label.sends id g) = history.filter (Label.sends id g) := by
  obtain ⟨hClaims, hSends⟩ := hLabel id g
  exact ⟨List.filter_cons_of_neg (by simp [hClaims]), List.filter_cons_of_neg (by simp [hSends])⟩

theorem SendersClaimed.silent (h : SendersClaimed history) (hLabel : label.Silent) :
    SendersClaimed (label :: history) := by
  intro id g
  rw [(filter_silent hLabel id g).1, (filter_silent hLabel id g).2]
  exact h id g

theorem SendReady.silent {i : Nat} {x : Process} (h : SendReady i history x) (hLabel : label.Silent) :
    SendReady i (label :: history) x := by
  unfold SendReady at h ⊢
  split
  · constructor
    · rw [(filter_silent hLabel _ _).1]
      exact h.claimed
    · rw [(filter_silent hLabel _ _).2]
      exact h.unsent
  · trivial

/-- Nothing was sent for a generation that is only now being claimed. -/
theorem SendersClaimed.unsent (h : SendersClaimed history)
    (hNone : history.filter (Label.claims id g) = []) : history.filter (Label.sends id g) = [] := by
  rcases h id g with hUnsent | hSame
  · exact hUnsent
  · rwa [hNone, List.map_nil, List.map_eq_nil_iff] at hSame

/-- After a claim by `i` the assertions still hold, and `i` may send. -/
theorem claimed_step {i : Nat} {r : Readings} {owner : String} {leaseDuration : Duration} {token : UUID}
    {before : Database}
    (hRun : Run setting (.commit (some i) r (.claimDelivery id g owner leaseDuration token) before :: history) w)
    (hG : SendersClaimed history) :
    SendersClaimed (.commit (some i) r (.claimDelivery id g owner leaseDuration token) before :: history) ∧
      (∀ task : Delivery, task.id = id → task.generation = g → Unspent i
        (.commit (some i) r (.claimDelivery id g owner leaseDuration token) before :: history) task) ∧
      ∀ j x, SendReady j history x → SendReady j
        (.commit (some i) r (.claimDelivery id g owner leaseDuration token) before :: history) x := by
  have hClaims : Label.claims id g
      (.commit (some i) r (.claimDelivery id g owner leaseDuration token) before) = true := by
    simp [Label.claims]
  have hNone := claims_eq_nil_of_next hRun hClaims
  have hSends (id' : UUID) (g' : Nat) :
      (Label.commit (some i) r (.claimDelivery id g owner leaseDuration token) before :: history).filter
        (Label.sends id' g') = history.filter (Label.sends id' g') :=
    List.filter_cons_of_neg (by simp [Label.sends])
  refine ⟨fun id' g' => ?_, fun task hID hGeneration => ?_, fun j x hReady => ?_⟩
  · rw [hSends]
    by_cases hSame : Label.claims id' g'
        (.commit (some i) r (.claimDelivery id g owner leaseDuration token) before) = true
    · obtain ⟨rfl, rfl⟩ : id = id' ∧ g = g' := by simpa [Label.claims] using hSame
      exact .inl (hG.unsent hNone)
    · rw [List.filter_cons_of_neg hSame]
      exact hG id' g'
  · subst hID hGeneration
    refine ⟨?_, ?_⟩
    · rw [List.filter_cons_of_pos hClaims, hNone]
      rfl
    · rw [hSends]
      exact hG.unsent hNone
  · unfold SendReady at hReady ⊢
    split
    · rename_i signal task destination
      refine ⟨?_, hSends _ _ ▸ hReady.unsent⟩
      rw [List.filter_cons_of_neg]
      · exact hReady.claimed
      · intro hSame
        obtain ⟨rfl, rfl⟩ : id = task.id ∧ g = task.generation := by simpa [Label.claims] using hSame
        have hClaimed := hReady.claimed
        rw [hNone] at hClaimed
        cases hClaimed
    · trivial

/-- A send spends the claim of its process. -/
theorem sent_step {i : Nat} {task : Delivery} {destination : DestinationVersion} {result : Result}
    {err : Option SendError} (hG : SendersClaimed history) (hUnspent : Unspent i history task) :
    SendersClaimed (.send i task destination result err :: history) ∧
      ∀ j x, j ≠ i → SendReady j history x → SendReady j (.send i task destination result err :: history) x := by
  have hClaims (id' : UUID) (g' : Nat) :
      (Label.send i task destination result err :: history).filter (Label.claims id' g') =
        history.filter (Label.claims id' g') :=
    List.filter_cons_of_neg (by simp [Label.claims])
  refine ⟨fun id' g' => ?_, fun j x hj hReady => ?_⟩
  · rw [hClaims]
    by_cases hSame : Label.sends id' g' (.send i task destination result err) = true
    · obtain ⟨rfl, rfl⟩ : task.id = id' ∧ task.generation = g' := by simpa [Label.sends] using hSame
      right
      rw [List.filter_cons_of_pos hSame, hUnspent.unsent, hUnspent.claimed]
      rfl
    · rw [List.filter_cons_of_neg hSame]
      exact hG id' g'
  · unfold SendReady at hReady ⊢
    split
    · rename_i signal other _
      refine ⟨hClaims _ _ ▸ hReady.claimed, ?_⟩
      rw [List.filter_cons_of_neg]
      · exact hReady.unsent
      · intro hSame
        obtain ⟨hID, hGeneration⟩ : task.id = other.id ∧ task.generation = other.generation := by
          simpa [Label.sends] using hSame
        have hClaimed := hReady.claimed
        rw [← hID, ← hGeneration, hUnspent.claimed] at hClaimed
        exact hj (Option.some.inj (List.head_eq_of_cons_eq hClaimed)).symm
    · trivial

theorem SendReady.inert {i : Nat} {x : Process} (h : x.Inert) : SendReady i history x := by
  unfold SendReady
  split
  · exact h.elim
  · trivial

theorem SendersClaimed.step {i : Nat} {x x' : Process} (hRun : Run setting (label :: history) w)
    (hG : SendersClaimed history) (hL : SendReady i history x) (h : Act.Kind i s s' x label x') :
    SendersClaimed (label :: history) ∧ SendReady i (label :: history) x' ∧
      ∀ j y, j ≠ i → SendReady j history y → SendReady j (label :: history) y := by
  cases h with
  | plain hLabel hInert =>
    exact ⟨hG.silent hLabel.silent, .inert hInert, fun j y _ hOther => hOther.silent hLabel.silent⟩
  | claimed _ hAnswer =>
    obtain ⟨hClaimed, hOwn, hOthers⟩ := claimed_step hRun hG
    obtain ⟨hID, hGeneration, _⟩ := claimDelivery_task hAnswer
    exact ⟨hClaimed, hOwn _ hID hGeneration, fun j y _ hOther => hOthers j y hOther⟩
  | claimLost _ hInert =>
    obtain ⟨hClaimed, _, hOthers⟩ := claimed_step hRun hG
    exact ⟨hClaimed, .inert hInert, fun j y _ hOther => hOthers j y hOther⟩
  | sent _ =>
    obtain ⟨hSent, hOthers⟩ := sent_step hG hL
    exact ⟨hSent, trivial, hOthers⟩
  | completed _ hInert =>
    exact ⟨hG.silent Label.silent_complete, .inert hInert,
      fun j y _ hOther => hOther.silent Label.silent_complete⟩

theorem Run.send_ready (h : Run setting history w) :
    SendersClaimed history ∧ ∀ i, SendReady i history (w.procs i) := by
  refine Run.invariant (G := fun history _ => SendersClaimed history)
    (L := fun i history _ x => SendReady i history x) (fun _ _ _ => .inl rfl) (fun _ _ => trivial) ?_ ?_ h
  · intro history w label s _ hG hStep
    have hSilent := hStep.plain.silent
    exact ⟨hG.silent hSilent, fun i x hReady => hReady.silent hSilent⟩
  · intro i history w label s x hRun hG hL hStep
    exact hG.step (hRun.next (.act i hStep)) hL hStep.kind

theorem Run.sends_le_claims (h : Run setting history w) (id : UUID) (g : Nat) :
    (history.filter (Label.sends id g)).length ≤ (history.filter (Label.claims id g)).length := by
  rcases h.send_ready.1 id g with hUnsent | hSame
  · rw [hUnsent]
    exact Nat.zero_le _
  · have hLengths := congrArg List.length hSame
    rw [List.length_map, List.length_map] at hLengths
    exact hLengths.le

/-- Two sends for the same generation of a delivery are one and the same. -/
theorem Run.send_unique {a b : Label} (h : Run setting history w) (id : UUID) (g : Nat) (ha : a ∈ history)
    (hb : b ∈ history) (hSends : a.sends id g = true) (hSends' : b.sends id g = true) : a = b := by
  have hOnce := (h.sends_le_claims id g).trans (h.claims_once id g).1
  have ha := List.mem_filter.mpr ⟨ha, hSends⟩
  have hb := List.mem_filter.mpr ⟨hb, hSends'⟩
  rcases hAll : history.filter (Label.sends id g) with _ | ⟨c, rest⟩
  · rw [hAll] at ha
    cases ha
  · rw [hAll, List.length_cons] at hOnce
    obtain rfl : rest = [] := List.length_eq_zero_iff.mp (by omega)
    rw [hAll, List.mem_singleton] at ha hb
    rw [ha, hb]

/-- A result reported under a stale lease leaves every table as it was. -/
theorem Run.stale_result (h : Run setting history w) {i : Nat} {signal : Signal} {completion : Completion}
    {attempt : AttemptResult} {x : Process}
    (hStep : Act setting i w.shared (.consumer (.completing signal completion attempt)) label s x)
    (hStale : w.shared.store.Stale attempt) : s.store.db = w.shared.store.db := by
  cases hStep with
  | complete hServed =>
    cases hServed with
    | done hCommit _ => exact absurd hCommit (hStale.not_complete h.reachable)
    | lost hCommit => exact absurd hCommit (hStale.not_complete h.reachable)
    | refused _ _ => rfl
    | down _ => rfl
  | crash => rfl

/-- For each delivery and generation there is at most one claim, at most one send for it, at most one
recorded attempt and at most one commit that ends the lease; a stale result changes nothing. -/
theorem one_claim_one_send_one_result (h : Run setting history w) (id : UUID) (g : Nat) :
    (history.filter (Label.claims id g)).length ≤ 1 ∧
    (history.filter (Label.sends id g)).length ≤ (history.filter (Label.claims id g)).length ∧
    ((w.shared.store.db.dossier id).attemptsAt g).length ≤ 1 ∧
    (history.filter (Label.resolves id g)).length ≤ 1 ∧
    ∀ i signal completion attempt label s x,
      Act setting i w.shared (.consumer (.completing signal completion attempt)) label s x →
      w.shared.store.Stale attempt → s.store.db = w.shared.store.db := by
  refine ⟨(h.claims_once id g).1, h.sends_le_claims id g, h.reachable.attemptsAt_le_one id g,
    h.resolves_once id g, ?_⟩
  · intro i signal completion attempt label s x hStep hStale
    exact h.stale_result hStep hStale

/-- One worker claims, sends and commits: each of the three counts is one. -/
theorem one_claim_one_send_one_result_delivered :
    ∃ history w, Run closedSetting history w ∧ (history.filter (Label.claims 100 0)).length = 1 ∧
      (history.filter (Label.sends 100 0)).length = 1 ∧
      (history.filter (Label.resolves 100 0)).length ≤ 1 := by
  have hPlay : ((start 0).play [] (Sample.claimedScript ++
      [.send 1 8000 9000 ⟨200, ""⟩ none, .complete 1 9 105])).any (fun run =>
        (run.1.filter (Label.claims 100 0)).length = 1 && (run.1.filter (Label.sends 100 0)).length = 1) =
      true := by
    decide +kernel
  obtain ⟨⟨history, w⟩, hRun, hCounts⟩ := (Option.any_eq_true _ _).mp hPlay
  obtain ⟨hClaims, hSends⟩ := Bool.and_eq_true_iff.mp hCounts
  have h : Run closedSetting history w := run_of_play ⟨0, .refl⟩ hRun
  exact ⟨history, w, h, of_decide_eq_true hClaims, of_decide_eq_true hSends,
    (one_claim_one_send_one_result h 100 0).2.2.2.1⟩

end System

end ReliableNotifier
