import Mathlib.Algebra.Order.Ring.Int
import Mathlib.Tactic.Common

/-! # Length-prefixed fields

Fields written one after the other, each behind its length in eight bytes. The fields can
be read back, whatever bytes they hold and however many there are.
-/

namespace Framing

/-- `binary.BigEndian.PutUint64`. -/
def putUint64 (n : Nat) : List UInt8 :=
  [.ofNat (n / 2 ^ 56), .ofNat (n / 2 ^ 48), .ofNat (n / 2 ^ 40), .ofNat (n / 2 ^ 32), .ofNat (n / 2 ^ 24),
    .ofNat (n / 2 ^ 16), .ofNat (n / 2 ^ 8), .ofNat n]

/-- A field behind its length, which is counted modulo `2 ^ 64`. -/
def frame (field : List UInt8) : List UInt8 := putUint64 field.length ++ field

theorem putUint64_injective {m n : Nat} (hm : m < 2 ^ 64) (hn : n < 2 ^ 64) (h : putUint64 m = putUint64 n) :
    m = n := by
  simp only [putUint64, List.cons.injEq, ← UInt8.toNat_inj, UInt8.toNat_ofNat', and_true] at h
  omega

variable {field field' rest rest' : List UInt8}

theorem frame_append_injective (hField : field.length < 2 ^ 64) (hField' : field'.length < 2 ^ 64)
    (h : frame field ++ rest = frame field' ++ rest') : field = field' ∧ rest = rest' := by
  rw [frame, frame, List.append_assoc, List.append_assoc] at h
  obtain ⟨hPrefix, hRest⟩ := List.append_inj h rfl
  exact List.append_inj hRest (putUint64_injective hField hField' hPrefix)

theorem flatMap_frame_injective {fields fields' : List (List UInt8)} (hFields : ∀ field ∈ fields, field.length < 2 ^ 64)
    (hFields' : ∀ field ∈ fields', field.length < 2 ^ 64) (h : fields.flatMap frame = fields'.flatMap frame) :
    fields = fields' := by
  -- a frame is never empty, so neither list can stop before the other
  have hSome (field rest : List UInt8) : frame field ++ rest ≠ [] := nofun
  induction fields generalizing fields' with
  | nil =>
    cases fields' with
    | nil => rfl
    | cons field' rest' => exact absurd h.symm (hSome field' _)
  | cons field rest ih =>
    cases fields' with
    | nil => exact absurd h (hSome field _)
    | cons field' rest' =>
      obtain ⟨hField, hFields⟩ := List.forall_mem_cons.mp hFields
      obtain ⟨hField', hFields'⟩ := List.forall_mem_cons.mp hFields'
      rw [List.flatMap_cons, List.flatMap_cons] at h
      obtain ⟨hSame, hRest⟩ := frame_append_injective hField hField' h
      rw [hSame, ih hFields hFields' hRest]

end Framing
