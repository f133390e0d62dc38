import Mathlib.Tactic.Ring
import ReliableNotifier.Schema

/-! # The text of an identifier

A `uuid` is written in five groups of lower-case hexadecimal digits. The groups after the
first have a fixed width, so the text can be read back.
-/

namespace ReliableNotifier

/-- `fromHexChar` of `encoding/hex`. -/
def hexDigit (c : Char) : Option Nat :=
  if '0' ≤ c ∧ c ≤ '9' then some (c.toNat - 48)
  else if 'a' ≤ c ∧ c ≤ 'f' then some (c.toNat - 87)
  else if 'A' ≤ c ∧ c ≤ 'F' then some (c.toNat - 55)
  else none

def hexNumber (digits : List Char) : Nat := digits.foldl (fun n c => 16 * n + (hexDigit c).getD 0) 0

theorem hexDigit_digitChar : ∀ {n : Nat}, n < 16 → hexDigit n.digitChar = some n := by
  decide

theorem foldl_hex (digits : List Char) (n : Nat) :
    digits.foldl (fun n c => 16 * n + (hexDigit c).getD 0) n = n * 16 ^ digits.length + hexNumber digits := by
  induction digits generalizing n with
  | nil => simp [hexNumber]
  | cons c rest ih =>
    rw [hexNumber, List.foldl_cons, ih, List.foldl_cons, ih, List.length_cons, pow_succ]
    ring

theorem hexNumber_append (a b : List Char) : hexNumber (a ++ b) = hexNumber a * 16 ^ b.length + hexNumber b := by
  rw [hexNumber, List.foldl_append, foldl_hex]
  rfl

theorem hexNumber_replicate_zero (k : Nat) : hexNumber (List.replicate k '0') = 0 := by
  induction k with
  | zero => rfl
  | succ k ih =>
    rw [List.replicate_succ', hexNumber_append, ih]
    rfl

theorem hexNumber_toDigits (n : Nat) : hexNumber (Nat.toDigits 16 n) = n := by
  induction n using Nat.strongRecOn with
  | ind n ih =>
    rw [Nat.toDigits_eq_if (by decide)]
    split
    · rename_i hSmall
      simp [hexNumber, hexDigit_digitChar hSmall]
    · rw [hexNumber_append, ih (n / 16) (by omega)]
      simp only [hexNumber, List.length_singleton, List.foldl_cons, List.foldl_nil,
        hexDigit_digitChar (Nat.mod_lt n (by decide)), Option.getD_some]
      omega

theorem hexNumber_hexGroup (width n : Nat) : hexNumber (hexGroup width n) = n := by
  rw [hexGroup, hexNumber_append, hexNumber_replicate_zero, hexNumber_toDigits, Nat.zero_mul, Nat.zero_add]

theorem hexGroup_length {width n : Nat} (hWidth : 0 < width) (h : n < 16 ^ width) :
    (hexGroup width n).length = width := by
  have hDigits : (Nat.toDigits 16 n).length ≤ width := (Nat.length_toDigits_le_iff (by decide) hWidth).mpr h
  simp only [hexGroup, List.length_append, List.length_replicate]
  omega

theorem mem_toDigits {n : Nat} {c : Char} (h : c ∈ Nat.toDigits 16 n) : ∃ k < 16, c = Nat.digitChar k := by
  induction n using Nat.strongRecOn with
  | ind n ih =>
    rw [Nat.toDigits_eq_if (by decide)] at h
    split at h
    · exact ⟨n, ‹_›, List.mem_singleton.mp h⟩
    · rcases List.mem_append.mp h with hOld | hLast
      · exact ih (n / 16) (by omega) hOld
      · exact ⟨n % 16, Nat.mod_lt n (by decide), List.mem_singleton.mp hLast⟩

/-- A group is made of lower-case hexadecimal digits. -/
theorem mem_hexGroup {width n : Nat} {c : Char} (h : c ∈ hexGroup width n) : ∃ k < 16, c = Nat.digitChar k := by
  rcases List.mem_append.mp h with hPad | hDigit
  · exact ⟨0, by decide, List.eq_of_mem_replicate hPad⟩
  · exact mem_toDigits hDigit

theorem digitChar_ne_dash : ∀ {k : Nat}, k < 16 → Nat.digitChar k ≠ '-' := by
  decide

theorem filter_hexGroup (width n : Nat) : (hexGroup width n).filter (· ≠ '-') = hexGroup width n := by
  refine List.filter_eq_self.mpr fun c hc => ?_
  obtain ⟨k, hk, rfl⟩ := mem_hexGroup hc
  exact decide_eq_true (digitChar_ne_dash hk)

/-- The number that the text stands for. -/
def uuidNumber (text : String) : Nat := hexNumber (text.toList.filter (· ≠ '-'))

theorem uuidNumber_uuidText (id : UUID) : uuidNumber (uuidText id) = id := by
  have hGroups : (uuidText id).toList.filter (· ≠ '-') =
      hexGroup 8 (id / 16 ^ 24) ++ (hexGroup 4 (id / 16 ^ 20 % 16 ^ 4) ++ (hexGroup 4 (id / 16 ^ 16 % 16 ^ 4) ++
        (hexGroup 4 (id / 16 ^ 12 % 16 ^ 4) ++ hexGroup 12 (id % 16 ^ 12)))) := by
    simp only [uuidText, String.toList_ofList, List.intercalate, List.intersperse, List.flatten_cons, List.flatten_nil,
      List.filter_append, filter_hexGroup, List.append_nil]
    rfl
  have hFour (n : Nat) : (hexGroup 4 (n % 16 ^ 4)).length = 4 :=
    hexGroup_length (by decide) (Nat.mod_lt n (by decide))
  have hTwelve (n : Nat) : (hexGroup 12 (n % 16 ^ 12)).length = 12 :=
    hexGroup_length (by decide) (Nat.mod_lt n (by decide))
  rw [uuidNumber, hGroups]
  simp only [hexNumber_append, List.length_append, hFour, hTwelve, hexNumber_hexGroup]
  have hSplit (id : Nat) : id / 16 ^ 24 * 16 ^ (4 + (4 + (4 + 12))) + (id / 16 ^ 20 % 16 ^ 4 * 16 ^ (4 + (4 + 12)) +
      (id / 16 ^ 16 % 16 ^ 4 * 16 ^ (4 + 12) + (id / 16 ^ 12 % 16 ^ 4 * 16 ^ 12 + id % 16 ^ 12))) = id := by
    omega
  exact hSplit id

theorem uuidText_injective : Function.Injective uuidText :=
  Function.LeftInverse.injective uuidNumber_uuidText

end ReliableNotifier
