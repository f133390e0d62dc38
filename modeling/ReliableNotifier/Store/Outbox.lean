import ReliableNotifier.Schema

/-! # The outbox: claiming, marking and releasing events

`locked` holds the rows that a concurrent transaction has locked when the statement
runs; `FOR UPDATE SKIP LOCKED` passes over them.
-/

namespace ReliableNotifier

open Checked RowTable

/-- `ORDER BY` two timestamps. -/
def Earlier (a b : Time × Time) : Prop := a.1 < b.1 ∨ a.1 = b.1 ∧ a.2 ≤ b.2

instance : DecidableRel Earlier := fun _ _ => inferInstanceAs (Decidable (_ ∨ _))

structure OutboxEvent where
  id : UUID
  deliveryID : UUID
  generation : Nat
  traceID : UUID
  leaseOwner : String
  leaseToken : UUID
  deriving DecidableEq

namespace OutboxEventRow

def claimable (r : Readings) (row : OutboxEventRow) : Bool :=
  row.publishedAt = none && row.availableAt ≤ r.scan row.id 0 &&
  (row.leaseUntil = none || row.leaseUntil.any (· ≤ r.scan row.id 1))

def claim (r : Readings) (owner : String) (token : UUID) (leaseDuration : Duration)
    (row : OutboxEventRow) : OutboxEventRow :=
  { row with
    leaseOwner := some owner
    leaseToken := some token
    leaseUntil := some (r.write row.id 0 + wholeMilliseconds leaseDuration) }

def load (owner : String) (token : UUID) (row : OutboxEventRow) : OutboxEvent :=
  ⟨row.id, row.deliveryID, row.generation, row.traceID, owner, token⟩

def held (event : OutboxEvent) (row : OutboxEventRow) : Bool :=
  row.id = event.id && row.publishedAt = none &&
  row.leaseOwner = some event.leaseOwner && row.leaseToken = some event.leaseToken

def release (row : OutboxEventRow) : OutboxEventRow :=
  { row with leaseOwner := none, leaseToken := none, leaseUntil := none }

def markPublished (r : Readings) (row : OutboxEventRow) : OutboxEventRow :=
  { row.release with publishedAt := some (r.write row.id 0), observedAt := none }

end OutboxEventRow

def outboxCandidates (r : Readings) (limit : Int) (locked : UUID → Bool) (db : Database) :
    List OutboxEventRow :=
  batch (fun a b => Earlier (a.availableAt, a.createdAt) (b.availableAt, b.createdAt)) limit.toNat
    (fun row => row.claimable r && !locked row.id) db.outboxEvents

def claimOutbox (r : Readings) (owner : String) (leaseDuration : Duration) (limit : Int)
    (locked : UUID → Bool) (token : UUID) (db : Database) :
    Except StoreError (List OutboxEvent × Database) := do
  ensure (owner ≠ "" && 0 < leaseDuration && 0 < limit) .invalidArguments
  let candidates := outboxCandidates r limit locked db
  let chosen (row : OutboxEventRow) : Bool := candidates.any fun candidate => candidate.id = row.id
  let claimed ← db.updateEvents chosen (OutboxEventRow.claim r owner token leaseDuration)
  return ((db.outboxEvents.filter chosen).map (OutboxEventRow.load owner token), claimed)

def markOutboxPublished (r : Readings) (event : OutboxEvent) (db : Database) :
    Except StoreError Database := do
  let matching (row : OutboxEventRow) : Bool :=
    row.held event && row.leaseUntil.any (r.scan row.id 0 < ·)
  let marked ← db.updateEvents matching (OutboxEventRow.markPublished r)
  ensure (db.outboxEvents.countP matching = 1) .outboxLeaseLost
  return marked

def releaseOutbox (event : OutboxEvent) (db : Database) : Except StoreError Database := do
  let released ← db.updateEvents (·.held event) OutboxEventRow.release
  if db.outboxEvents.countP (·.held event) = 0 then
    ensure (db.outboxEvents.any fun row => row.id = event.id && row.publishedAt.isSome) .outboxLeaseLost
  return released

section Accepted

variable {r : Readings} {event : OutboxEvent} {db db' : Database}

theorem OutboxEventRow.claimable_iff {row : OutboxEventRow} :
    row.claimable r = true ↔ row.publishedAt = none ∧ row.availableAt ≤ r.scan row.id 0 ∧
      (row.leaseUntil = none ∨ ∃ t, row.leaseUntil = some t ∧ t ≤ r.scan row.id 1) := by
  simp only [OutboxEventRow.claimable, Bool.and_eq_true, Bool.or_eq_true, decide_eq_true_eq,
    Option.any_eq_true, and_assoc]

theorem claimOutbox_ok {owner : String} {leaseDuration : Duration} {limit : Int} {locked : UUID → Bool}
    {token : UUID} {reply : List OutboxEvent}
    (h : claimOutbox r owner leaseDuration limit locked token db = .ok (reply, db')) :
    0 < limit ∧
      db.updateEvents (fun row => (outboxCandidates r limit locked db).any fun candidate => candidate.id = row.id)
        (OutboxEventRow.claim r owner token leaseDuration) = .ok db' ∧
      reply = (db.outboxEvents.filter fun row =>
        (outboxCandidates r limit locked db).any fun candidate => candidate.id = row.id).map
          (OutboxEventRow.load owner token) := by
  simp only [claimOutbox, bind_ok_iff, ensure_ok_iff, pure_ok_iff] at h
  obtain ⟨_, hArguments, claimed, hUpdate, hReply⟩ := h
  obtain ⟨rfl, rfl⟩ := Prod.mk.inj hReply
  simp only [Bool.and_eq_true, decide_eq_true_eq] at hArguments
  exact ⟨hArguments.2, hUpdate, rfl⟩

theorem markOutboxPublished_ok (h : markOutboxPublished r event db = .ok db') :
    db.updateEvents (fun row => row.held event && row.leaseUntil.any (r.scan row.id 0 < ·))
      (OutboxEventRow.markPublished r) = .ok db' ∧
    db.outboxEvents.countP (fun row => row.held event && row.leaseUntil.any (r.scan row.id 0 < ·)) = 1 := by
  simp only [markOutboxPublished, bind_ok_iff, ensure_ok_iff, pure_ok_iff, decide_eq_true_eq] at h
  obtain ⟨marked, hUpdate, _, hCount, rfl⟩ := h
  exact ⟨hUpdate, hCount⟩

theorem releaseOutbox_ok (h : releaseOutbox event db = .ok db') :
    db.updateEvents (·.held event) OutboxEventRow.release = .ok db' := by
  simp only [releaseOutbox, bind_ok_iff] at h
  obtain ⟨released, hUpdate, h⟩ := h
  split at h
  · simp only [bind_ok_iff, ensure_ok_iff, pure_ok_iff] at h
    obtain ⟨_, _, rfl⟩ := h
    exact hUpdate
  · cases h
    exact hUpdate

/-- A release is refused only where there is nothing to release. -/
theorem releaseOutbox_error {err : StoreError} (h : releaseOutbox event db = .error err) :
    ∀ row ∈ db.outboxEvents, row.held event ≠ true := by
  rw [releaseOutbox, Database.updateEvents_eq fun _ _ _ => rfl] at h
  rw [← List.countP_eq_zero]
  by_contra hCount
  simp only [if_neg hCount] at h
  cases h

end Accepted

end ReliableNotifier
