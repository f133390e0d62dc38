import ReliableNotifier.Lifecycle.Moves

/-! # Generations and the audit tables

A generation ends in exactly one of two ways: a retryable attempt is recorded for
it, or an operator replays the delivery after it failed. The attempts and audits of
a delivery therefore tell its whole history.
-/

namespace ReliableNotifier

open RowTable

namespace Dossier

def attemptsAt (d : Dossier) (k : Nat) : List AttemptRow := owned AttemptRow.generation k d.attempts

def replaysAt (d : Dossier) (k : Nat) : List ReplayAuditRow :=
  owned (fun audit => (audit.fromGeneration, audit.toGeneration)) (k, k + 1) d.audits

/-- The only attempt of generation `k` was a retryable failure. -/
def Retried (d : Dossier) (k : Nat) : Prop :=
  ∃ attempt, d.attemptsAt k = [attempt] ∧ attempt.resultClass = .retryableFailure

def Replayed (d : Dossier) (k : Nat) : Prop := ∃ audit, d.replaysAt k = [audit]

/-- Generation `k` has no attempt or a single permanent failure. -/
def Ended (d : Dossier) (k : Nat) : Prop :=
  d.attemptsAt k = [] ∨ ∃ attempt, d.attemptsAt k = [attempt] ∧ attempt.resultClass = .permanentFailure

def retries (d : Dossier) : Nat := d.attempts.countP fun attempt => attempt.resultClass = .retryableFailure

/-- What the attempts show for the current generation in each status. -/
def Present (d : Dossier) (k : Nat) : Status → Prop
  | .pending | .delivering => d.attemptsAt k = []
  | .succeeded => ∃ attempt, d.attemptsAt k = [attempt] ∧ attempt.resultClass = .succeeded
  | .failedPermanent => d.Ended k

structure History (d : Dossier) (row : DeliveryRow) : Prop where
  past : ∀ k < row.generation, d.Retried k ∧ d.replaysAt k = [] ∨ d.Replayed k ∧ d.Ended k
  present : d.Present row.generation row.status
  attempts : ∀ attempt ∈ d.attempts, attempt.generation ≤ row.generation
  audits : ∀ audit ∈ d.audits, audit.toGeneration = audit.fromGeneration + 1 ∧
    audit.toGeneration ≤ row.generation
  events : ∀ event ∈ d.events, event.generation ≤ row.generation
  count : row.generation = d.retries + d.audits.length

variable {r : Readings} {op : Op} {d d' : Dossier} {row row' : DeliveryRow}

theorem History.replaysAt_present (h : History d row) : d.replaysAt row.generation = [] := by
  rw [replaysAt, owned_eq_nil_iff]
  intro audit hAudit hSame
  have hBound := (h.audits audit hAudit).2
  simp only [Prod.mk.injEq] at hSame
  omega

theorem Ended.attemptsAt_le_one {k : Nat} (h : d.Ended k) : (d.attemptsAt k).length ≤ 1 := by
  rcases h with hNone | ⟨attempt, hOne, _⟩
  · rw [hNone]
    exact Nat.zero_le 1
  · rw [hOne]
    exact le_rfl

theorem attemptsAt_eq_nil {n k : Nat} (hAttempts : ∀ attempt ∈ d.attempts, attempt.generation ≤ n) (hk : n < k) :
    d.attemptsAt k = [] := by
  rw [attemptsAt, owned_eq_nil_iff]
  intro attempt hAttempt hSame
  have := hAttempts attempt hAttempt
  omega

/-- No generation has two attempts, although no constraint of the table says so. -/
theorem History.attemptsAt_le_one (h : History d row) (k : Nat) : (d.attemptsAt k).length ≤ 1 := by
  rcases lt_trichotomy k row.generation with hk | rfl | hk
  · rcases h.past k hk with ⟨⟨attempt, hOne, _⟩, _⟩ | ⟨_, hEnded⟩
    · rw [hOne]
      exact le_rfl
    · exact hEnded.attemptsAt_le_one
  · have hPresent := h.present
    unfold Present at hPresent
    split at hPresent
    · rw [hPresent]
      exact Nat.zero_le 1
    · rw [hPresent]
      exact Nat.zero_le 1
    · obtain ⟨attempt, hOne, _⟩ := hPresent
      rw [hOne]
      exact le_rfl
    · exact hPresent.attemptsAt_le_one
  · rw [attemptsAt_eq_nil h.attempts hk]
    exact Nat.zero_le 1

section Changes

variable (x : Option DeliveryRow) {x' : Option DeliveryRow} (events : List OutboxEventRow)
  {events' : List OutboxEventRow} {attempts : List AttemptRow} {audits : List ReplayAuditRow}

theorem attemptsAt_append {attempt : AttemptRow} {k : Nat} :
    attemptsAt ⟨x', events', attempts ++ [attempt], audits⟩ k =
      attemptsAt ⟨x, events, attempts, audits⟩ k ++ if attempt.generation = k then [attempt] else [] := by
  rw [attemptsAt, owned_append]
  simp [owned, attemptsAt, List.filter_cons]

theorem replaysAt_append {audit : ReplayAuditRow} {k : Nat} :
    replaysAt ⟨x', events', attempts, audits ++ [audit]⟩ k =
      replaysAt ⟨x, events, attempts, audits⟩ k ++
        if (audit.fromGeneration, audit.toGeneration) = (k, k + 1) then [audit] else [] := by
  rw [replaysAt, owned_append]
  simp [owned, replaysAt, List.filter_cons]

variable {x events}

/-- A change that records nothing. -/
theorem History.quiet (h : History ⟨x, events, attempts, audits⟩ row)
    (hGeneration : row'.generation = row.generation)
    (hPresent : Present ⟨x, events, attempts, audits⟩ row.generation row'.status)
    (hEvents : ∀ event ∈ events', event.generation ≤ row.generation) :
    History ⟨x', events', attempts, audits⟩ row' := by
  rw [← hGeneration] at hPresent hEvents
  refine ⟨?_, hPresent, ?_, ?_, hEvents, ?_⟩
  · rw [hGeneration]
    exact h.past
  · rw [hGeneration]
    exact h.attempts
  · rw [hGeneration]
    exact h.audits
  · rw [hGeneration]
    exact h.count

/-- An attempt of the current generation leaves the earlier generations as they were. -/
theorem History.past_of_attempt (h : History ⟨x, events, attempts, audits⟩ row) {attempt : AttemptRow}
    (hAttempt : attempt.generation = row.generation) {k : Nat} (hk : k < row.generation) :
    Retried ⟨x', events', attempts ++ [attempt], audits⟩ k ∧
        replaysAt ⟨x', events', attempts ++ [attempt], audits⟩ k = [] ∨
      Replayed ⟨x', events', attempts ++ [attempt], audits⟩ k ∧
        Ended ⟨x', events', attempts ++ [attempt], audits⟩ k := by
  have hSame : attemptsAt ⟨x', events', attempts ++ [attempt], audits⟩ k =
      attemptsAt ⟨x, events, attempts, audits⟩ k := by
    rw [attemptsAt_append x events, if_neg (by omega), List.append_nil]
  simp only [Retried, Ended, hSame]
  exact h.past k hk

/-- The last attempt of a cycle. -/
theorem History.finish (h : History ⟨x, events, attempts, audits⟩ row) {attempt : AttemptRow}
    (hGeneration : row'.generation = row.generation) (hAttempt : attempt.generation = row.generation)
    (hFree : attemptsAt ⟨x, events, attempts, audits⟩ row.generation = [])
    (hClass : row'.status = .succeeded ∧ attempt.resultClass = .succeeded ∨
      row'.status = .failedPermanent ∧ attempt.resultClass = .permanentFailure) :
    History ⟨x', events, attempts ++ [attempt], audits⟩ row' := by
  have hHere : attemptsAt ⟨x', events, attempts ++ [attempt], audits⟩ row.generation = [attempt] := by
    rw [attemptsAt_append x events, hFree, if_pos hAttempt, List.nil_append]
  refine ⟨?_, ?_, ?_, ?_, ?_, ?_⟩ <;> rw [hGeneration]
  · exact fun k hk => h.past_of_attempt hAttempt hk
  · rcases hClass with ⟨hStatus, hClass⟩ | ⟨hStatus, hClass⟩ <;> rw [hStatus]
    · exact ⟨attempt, hHere, hClass⟩
    · exact .inr ⟨attempt, hHere, hClass⟩
  · intro other hOther
    rcases List.mem_append.mp hOther with hOther | hOther
    · exact h.attempts other hOther
    · rw [List.mem_singleton.mp hOther, hAttempt]
  · exact h.audits
  · exact h.events
  · have hRetryable : attempt.resultClass ≠ .retryableFailure := by
      rcases hClass with ⟨_, hClass⟩ | ⟨_, hClass⟩ <;> simp [hClass]
    have hCount := h.count
    simpa [retries, List.countP_append, hRetryable] using hCount

/-- A retryable attempt opens the next generation. -/
theorem History.retry (h : History ⟨x, events, attempts, audits⟩ row) {attempt : AttemptRow}
    (hGeneration : row'.generation = row.generation + 1) (hPending : row'.status = .pending)
    (hAttempt : attempt.generation = row.generation) (hClass : attempt.resultClass = .retryableFailure)
    (hFree : attemptsAt ⟨x, events, attempts, audits⟩ row.generation = [])
    (hEvents : ∀ event ∈ events', event.generation ≤ row.generation + 1) :
    History ⟨x', events', attempts ++ [attempt], audits⟩ row' := by
  have hReplays := h.replaysAt_present
  have hAttempts : ∀ other ∈ attempts ++ [attempt], other.generation ≤ row.generation :=
    List.forall_mem_append.mpr ⟨h.attempts, List.forall_mem_singleton.mpr hAttempt.le⟩
  refine ⟨?_, ?_, ?_, ?_, ?_, ?_⟩ <;> rw [hGeneration]
  · intro k hk
    rcases Nat.lt_succ_iff_lt_or_eq.mp hk with hk | rfl
    · exact h.past_of_attempt hAttempt hk
    · refine .inl ⟨⟨attempt, ?_, hClass⟩, hReplays⟩
      rw [attemptsAt_append x events, hFree, if_pos hAttempt, List.nil_append]
  · rw [hPending]
    exact attemptsAt_eq_nil hAttempts (Nat.lt_succ_self _)
  · exact fun other hOther => (hAttempts other hOther).trans (Nat.le_succ _)
  · intro audit hAudit
    have := h.audits audit hAudit
    omega
  · exact hEvents
  · have hCount := h.count
    simp only [retries, List.countP_append, List.countP_singleton, hClass] at hCount ⊢
    simp
    omega

/-- A replay opens the next generation and leaves an audit. -/
theorem History.replay (h : History ⟨x, events, attempts, audits⟩ row) {audit : ReplayAuditRow}
    (hGeneration : row'.generation = row.generation + 1) (hPending : row'.status = .pending)
    (hFrom : audit.fromGeneration = row.generation) (hTo : audit.toGeneration = row.generation + 1)
    (hEnded : Ended ⟨x, events, attempts, audits⟩ row.generation)
    (hEvents : ∀ event ∈ events', event.generation ≤ row.generation + 1) :
    History ⟨x', events', attempts, audits ++ [audit]⟩ row' := by
  have hReplays := h.replaysAt_present
  refine ⟨?_, ?_, ?_, ?_, ?_, ?_⟩ <;> rw [hGeneration]
  · intro k hk
    rcases Nat.lt_succ_iff_lt_or_eq.mp hk with hk | rfl
    · have hSame : replaysAt ⟨x', events', attempts, audits ++ [audit]⟩ k =
          replaysAt ⟨x, events, attempts, audits⟩ k := by
        rw [replaysAt_append x events, if_neg, List.append_nil]
        simp only [Prod.mk.injEq]
        omega
      simp only [Replayed, hSame]
      exact h.past k hk
    · refine .inr ⟨⟨audit, ?_⟩, hEnded⟩
      rw [replaysAt_append x events, hReplays, if_pos (by rw [hFrom, hTo]), List.nil_append]
  · rw [hPending]
    exact attemptsAt_eq_nil h.attempts (Nat.lt_succ_self _)
  · exact fun other hOther => (h.attempts other hOther).trans (Nat.le_succ _)
  · intro other hOther
    rcases List.mem_append.mp hOther with hOther | hOther
    · have := h.audits other hOther
      omega
    · rw [List.mem_singleton.mp hOther]
      omega
  · exact hEvents
  · have hCount := h.count
    simp only [retries, List.length_append, List.length_singleton] at hCount ⊢
    omega

end Changes

theorem Move.history (h : Move r op d d') (hBefore : ∀ row, d.row = some row → History d row) :
    ∀ row, d'.row = some row → History d' row := by
  rintro row' hRow'
  cases h with
  | submit =>
    cases hRow'
    refine ⟨fun k hk => absurd hk (Nat.not_lt_zero k), rfl, ?_, ?_, ?_, rfl⟩
    · intro attempt hAttempt
      cases hAttempt
    · intro audit hAudit
      cases hAudit
    · intro event hEvent
      rw [List.mem_singleton.mp hEvent]
      exact le_rfl
  | events hEvents =>
    cases hRow'
    have hHistory := hBefore _ rfl
    refine hHistory.quiet rfl hHistory.present fun event hEvent => ?_
    obtain ⟨old, hOld, rfl⟩ := List.mem_map.mp hEvent
    rw [(hEvents old hOld).generation_eq]
    exact hHistory.events old hOld
  | claim hDue =>
    cases hRow'
    have hHistory := hBefore _ rfl
    have hPresent := hHistory.present
    rw [(DeliveryRow.due_iff.mp hDue).2.2.1] at hPresent
    exact hHistory.quiet rfl hPresent hHistory.events
  | @complete row _ _ _ completion result attemptID hFenced =>
    cases hRow'
    obtain ⟨_, hGeneration, hDelivering, _⟩ := DeliveryRow.fenced_iff.mp hFenced
    have hHistory := hBefore _ rfl
    have hFree := hHistory.present
    rw [hDelivering] at hFree
    cases completion with
    | success => exact hHistory.finish rfl hGeneration.symm hFree (.inl ⟨rfl, rfl⟩)
    | permanent => exact hHistory.finish rfl hGeneration.symm hFree (.inr ⟨rfl, rfl⟩)
    | retry next =>
      exact hHistory.retry rfl rfl hGeneration.symm rfl hFree fun event hEvent =>
        (hHistory.events event hEvent).trans (Nat.le_succ _)
  | expire hPast =>
    cases hRow'
    have hHistory := hBefore _ rfl
    have hFree := hHistory.present
    rw [(DeliveryRow.pastDeadline_iff.mp hPast).1] at hFree
    exact hHistory.quiet rfl (.inl hFree) hHistory.events
  | schedule =>
    cases hRow'
    have hHistory := hBefore _ rfl
    refine hHistory.quiet rfl hHistory.present fun event hEvent => ?_
    rcases List.mem_append.mp hEvent with hEvent | hEvent
    · exact hHistory.events event hEvent
    · rw [List.mem_singleton.mp hEvent]
      exact le_rfl
  | @recover row _ _ _ _ _ _ _ _ hExpired hDeadline =>
    cases hRow'
    have hHistory := hBefore _ rfl
    have hFree := hHistory.present
    rw [(DeliveryRow.leaseExpired_iff.mp hExpired).1] at hFree
    have hGeneration : (row.recover r).generation = row.generation + 1 := if_neg (not_le.mpr hDeadline)
    have hPending : (row.recover r).status = .pending := if_neg (not_le.mpr hDeadline)
    refine hHistory.retry hGeneration hPending rfl ?_ hFree fun event hEvent => ?_
    · simp [DeliveryRow.recoveryAttempt, hPending]
    · rcases mem_addMissing hEvent with hEvent | rfl
      · exact (hHistory.events event hEvent).trans (Nat.le_succ _)
      · exact hGeneration.le
  | @abandon row _ _ _ _ _ _ _ _ hExpired hDeadline =>
    cases hRow'
    have hHistory := hBefore _ rfl
    have hFree := hHistory.present
    rw [(DeliveryRow.leaseExpired_iff.mp hExpired).1] at hFree
    have hFailed : (row.recover r).status = .failedPermanent := if_pos hDeadline
    refine hHistory.finish (if_pos hDeadline) rfl hFree (.inr ⟨hFailed, ?_⟩)
    simp [DeliveryRow.recoveryAttempt, hFailed]
  | replay hFailed =>
    cases hRow'
    have hHistory := hBefore _ rfl
    have hEnded := hHistory.present
    rw [hFailed] at hEnded
    refine hHistory.replay rfl rfl rfl rfl hEnded fun event hEvent => ?_
    rcases List.mem_append.mp hEvent with hEvent | hEvent
    · exact (hHistory.events event hEvent).trans (Nat.le_succ _)
    · rw [List.mem_singleton.mp hEvent]
      exact le_rfl
  | delete => cases hRow'

end Dossier

namespace Store

variable {s : Store} {row : DeliveryRow}

theorem Reachable.history (hs : s.Reachable) {id : UUID} (hRow : (s.db.dossier id).row = some row) :
    (s.db.dossier id).History row := by
  refine Reachable.dossier_invariant (I := fun _ d => ∀ row, d.row = some row → d.History row) ?_ ?_ ?_ hs id
    row hRow
  · intro _ row hRow
    cases hRow
  · intro _ _ _ _ hI
    exact hI
  · intro _ _ _ _ _ _ _ hMove hI
    exact hMove.history hI

theorem Reachable.attemptsAt_le_one (hs : s.Reachable) (id : UUID) (k : Nat) :
    ((s.db.dossier id).attemptsAt k).length ≤ 1 := by
  rcases hRow : (s.db.dossier id).row with _ | row
  · rw [hs.integrity.dossier_absent hRow]
    exact Nat.zero_le 1
  · exact (hs.history hRow).attemptsAt_le_one k

/-- Each past generation ended in a recorded retry or in an audited replay, the current one shows what
the status says, and nothing is recorded for a later one. -/
theorem history_reconstructible (hs : s.Reachable) (hRow : row ∈ s.db.deliveries) :
    (∀ k < row.generation,
      Xor ((s.db.dossier row.id).Retried k) ((s.db.dossier row.id).Replayed k) ∧
        ((s.db.dossier row.id).Replayed k → (s.db.dossier row.id).Ended k)) ∧
    (row.status = .pending ∨ row.status = .delivering →
      (s.db.dossier row.id).attemptsAt row.generation = []) ∧
    (row.status = .succeeded → ∃ attempt,
      (s.db.dossier row.id).attemptsAt row.generation = [attempt] ∧ attempt.resultClass = .succeeded) ∧
    (row.status = .failedPermanent → (s.db.dossier row.id).Ended row.generation) ∧
    (∀ attempt ∈ s.db.deliveryAttempts, attempt.deliveryID = row.id → attempt.generation ≤ row.generation) ∧
    (∀ audit ∈ s.db.replayAudits, audit.deliveryID = row.id →
      audit.fromGeneration < row.generation ∧ audit.toGeneration ≤ row.generation) ∧
    (∀ event ∈ s.db.outboxEvents, event.deliveryID = row.id → event.generation ≤ row.generation) ∧
    row.generation = (s.db.dossier row.id).retries + (s.db.dossier row.id).audits.length := by
  have hHistory := hs.history (hs.integrity.dossier_row_iff.mpr ⟨hRow, rfl⟩)
  have hPresent := hHistory.present
  refine ⟨fun k hk => ?_, ?_, ?_, ?_, ?_, ?_, ?_, hHistory.count⟩
  · rcases hHistory.past k hk with ⟨hRetried, hNone⟩ | ⟨hReplayed, hEnded⟩
    · have hNot : ¬(s.db.dossier row.id).Replayed k := by
        rintro ⟨audit, hAudit⟩
        rw [hNone] at hAudit
        cases hAudit
      exact ⟨.inl ⟨hRetried, hNot⟩, fun h => absurd h hNot⟩
    · refine ⟨.inr ⟨hReplayed, ?_⟩, fun _ => hEnded⟩
      rintro ⟨attempt, hOnly, hClass⟩
      rcases hEnded with hNone | ⟨other, hOther, hFailed⟩
      · rw [hNone] at hOnly
        cases hOnly
      · rw [hOther] at hOnly
        cases hOnly
        simp [hFailed] at hClass
  · rintro (hStatus | hStatus) <;> rwa [hStatus] at hPresent
  · intro hStatus
    rwa [hStatus] at hPresent
  · intro hStatus
    rwa [hStatus] at hPresent
  · exact fun attempt hMem hOwner => hHistory.attempts attempt ((mem_owned _).mpr ⟨hMem, hOwner⟩)
  · intro audit hMem hOwner
    have := hHistory.audits audit ((mem_owned _).mpr ⟨hMem, hOwner⟩)
    omega
  · exact fun event hMem hOwner => hHistory.events event ((mem_owned _).mpr ⟨hMem, hOwner⟩)

/-- After one retryable attempt the delivery is in generation 1, and the attempt accounts for it. -/
theorem history_reconstructible_retry :
    ∃ (s : Store) (row : DeliveryRow), s.Reachable ∧ row ∈ s.db.deliveries ∧ row.generation = 1 ∧
      (s.db.dossier row.id).attemptsAt row.generation = [] ∧
      row.generation = (s.db.dossier row.id).retries + (s.db.dossier row.id).audits.length := by
  have hRun : ((start 0).play (Sample.accepted ++ [(8, .claimDelivery 100 0 "worker" 90000000000 104),
      (9, .complete (.retry 12000) Sample.result 105)])).any (fun s => s.db.deliveries.any fun row =>
        row.generation = 1 && row.status = .pending) = true := by
    decide +kernel
  obtain ⟨s, hs, hRows⟩ := (Option.any_eq_true _ _).mp hRun
  obtain ⟨row, hRow, hBoth⟩ := List.any_eq_true.mp hRows
  obtain ⟨hGeneration, hPending⟩ := Bool.and_eq_true_iff.mp hBoth
  have hHistory := history_reconstructible (reachable_of_play hs) hRow
  exact ⟨s, row, reachable_of_play hs, hRow, of_decide_eq_true hGeneration,
    hHistory.2.1 (.inl (of_decide_eq_true hPending)), hHistory.2.2.2.2.2.2.2⟩

end Store

end ReliableNotifier
