import Mathlib.Data.List.Nodup
import Mathlib.Data.List.Perm.Basic
import Mathlib.Tactic.Common

/-! # Finite maps

A map is the list of its entries in the order of their keys, so that maps with the same
entries are equal, in whatever order the entries were put in.
-/

structure SortedMap (α β : Type) [LT α] where
  entries : List (α × β)
  sorted : entries.Pairwise fun a b => a.1 < b.1
  deriving DecidableEq

namespace SortedMap

variable {α β : Type} [LT α] {m m' : SortedMap α β} {key : α} {value : β}

def empty : SortedMap α β := ⟨[], .nil⟩

section Lookup

variable [DecidableEq α]

def contains (m : SortedMap α β) (key : α) : Bool := m.entries.any fun entry => entry.1 = key

theorem contains_eq_false_iff : m.contains key = false ↔ key ∉ m.entries.map Prod.fst := by
  rw [contains, List.any_eq_false, List.mem_map, not_exists]
  simp only [decide_eq_true_eq, not_and]

def find? (m : SortedMap α β) (key : α) : Option β := (m.entries.find? (·.1 = key)).map Prod.snd

variable [LE α] [Std.LawfulOrderLT α]

omit [DecidableEq α] in
theorem nodup_keys (m : SortedMap α β) : (m.entries.map Prod.fst).Nodup :=
  List.pairwise_map.mpr (m.sorted.imp fun h => Std.ne_of_lt h)

theorem find?_eq_some_iff : m.find? key = some value ↔ (key, value) ∈ m.entries := by
  constructor
  · intro h
    obtain ⟨entry, hFound, rfl⟩ := Option.map_eq_some_iff.mp h
    have hKey : entry.1 = key := by simpa using List.find?_some hFound
    exact hKey ▸ List.mem_of_find?_eq_some hFound
  · intro h
    have hSome : (m.entries.find? (·.1 = key)).isSome = true := List.find?_isSome.mpr ⟨_, h, decide_eq_true rfl⟩
    obtain ⟨entry, hFound⟩ := Option.isSome_iff_exists.mp hSome
    have hKey : entry.1 = key := by simpa using List.find?_some hFound
    have hSame := List.inj_on_of_nodup_map m.nodup_keys (List.mem_of_find?_eq_some hFound) h hKey
    rw [find?, hFound, hSame, Option.map_some]

end Lookup

variable [LE α] [Std.IsLinearOrder α] [Std.LawfulOrderLT α]

theorem eq_of_perm (h : m.entries.Perm m'.entries) : m = m' := by
  have hEntries := h.eq_of_pairwise
    (fun a b _ _ hab hba => absurd (Std.lt_trans hab hba) Std.lt_irrefl) m.sorted m'.sorted
  cases m
  cases m'
  cases hEntries
  rfl

variable [DecidableLT α]

/-- `m[key] = value`. -/
def insert (m : SortedMap α β) (key : α) (value : β) : SortedMap α β where
  entries := m.entries.filter (fun entry => entry.1 < key) ++
    (key, value) :: m.entries.filter (fun entry => key < entry.1)
  sorted := by
    refine List.pairwise_append.mpr ⟨m.sorted.filter _, List.pairwise_cons.mpr ⟨?_, m.sorted.filter _⟩, ?_⟩
    · intro entry hEntry
      exact of_decide_eq_true (List.mem_filter.mp hEntry).2
    · intro entry hEntry other hOther
      have hBefore : entry.1 < key := of_decide_eq_true (List.mem_filter.mp hEntry).2
      rcases List.mem_cons.mp hOther with rfl | hOther
      · exact hBefore
      · exact Std.lt_trans hBefore (of_decide_eq_true (List.mem_filter.mp hOther).2)

/-- The new entry and the entries under other keys. -/
theorem mem_insert_iff {entry : α × β} :
    entry ∈ (m.insert key value).entries ↔ entry = (key, value) ∨ entry ∈ m.entries ∧ entry.1 ≠ key := by
  have hKey : entry.1 ≠ key ↔ entry.1 < key ∨ key < entry.1 := by
    constructor
    · intro hOther
      rcases Std.lt_trichotomy entry.1 key with hLess | hSame | hMore
      · exact .inl hLess
      · exact absurd hSame hOther
      · exact .inr hMore
    · rintro (hLess | hMore)
      · exact Std.ne_of_lt hLess
      · exact (Std.ne_of_lt hMore).symm
  simp only [insert, List.mem_append, List.mem_filter, List.mem_cons, decide_eq_true_eq, hKey]
  tauto

variable [DecidableEq α]

theorem perm_insert (h : m.contains key = false) (value : β) :
    (m.insert key value).entries.Perm ((key, value) :: m.entries) := by
  have hNodup (m : SortedMap α β) : m.entries.Nodup := .of_map _ m.nodup_keys
  have hNew := contains_eq_false_iff.mp h
  refine (List.perm_ext_iff_of_nodup (hNodup _) (List.nodup_cons.mpr ⟨fun hMem => ?_, hNodup m⟩)).mpr fun entry => ?_
  · exact hNew (List.mem_map_of_mem hMem)
  · have hOther : entry ∈ m.entries → entry.1 ≠ key := fun hEntry hKey => hNew (hKey ▸ List.mem_map_of_mem hEntry)
    rw [mem_insert_iff, List.mem_cons, and_iff_left_of_imp hOther]

theorem contains_insert_eq_false_iff {other : α} :
    (m.insert key value).contains other = false ↔ other ≠ key ∧ m.contains other = false := by
  simp only [contains_eq_false_iff, List.mem_map, mem_insert_iff, not_exists, not_and]
  constructor
  · intro h
    refine ⟨fun hSame => h (key, value) (.inl rfl) hSame.symm, fun entry hEntry hKey => ?_⟩
    by_cases hSame : entry.1 = key
    · exact h (key, value) (.inl rfl) (hSame.symm.trans hKey)
    · exact h entry (.inr ⟨hEntry, hSame⟩) hKey
  · rintro ⟨hOther, hNew⟩ entry (rfl | ⟨hEntry, _⟩) hKey
    · exact hOther hKey.symm
    · exact hNew entry hEntry hKey

/-- The entries put in one after the other. -/
def fill (m : SortedMap α β) (entries : List (α × β)) : SortedMap α β :=
  entries.foldl (fun m entry => m.insert entry.1 entry.2) m

omit [DecidableEq α] in
theorem mem_of_mem_fill {entries : List (α × β)} {entry : α × β} (h : entry ∈ (m.fill entries).entries) :
    entry ∈ entries ∨ entry ∈ m.entries := by
  induction entries generalizing m with
  | nil => exact .inr h
  | cons first rest ih =>
    rcases ih h with hRest | hInserted
    · exact .inl (List.mem_cons_of_mem _ hRest)
    · rcases mem_insert_iff.mp hInserted with rfl | ⟨hOld, _⟩
      · exact .inl List.mem_cons_self
      · exact .inr hOld

/-- Entries under new and distinct keys are all kept. -/
theorem perm_fill {entries : List (α × β)} (hKeys : (entries.map Prod.fst).Nodup)
    (hNew : ∀ entry ∈ entries, m.contains entry.1 = false) : (m.fill entries).entries.Perm (entries ++ m.entries) := by
  induction entries generalizing m with
  | nil => exact .refl _
  | cons entry rest ih =>
    obtain ⟨hFirst, hRest⟩ := List.nodup_cons.mp hKeys
    obtain ⟨hEntry, hNew⟩ := List.forall_mem_cons.mp hNew
    refine (ih hRest fun other hOther => ?_).trans
      (((perm_insert hEntry entry.2).append_left rest).trans List.perm_middle)
    refine contains_insert_eq_false_iff.mpr ⟨fun hSame => hFirst ?_, hNew other hOther⟩
    exact hSame ▸ List.mem_map_of_mem hOther

theorem perm_fill_empty {entries : List (α × β)} (hKeys : (entries.map Prod.fst).Nodup) :
    (empty.fill entries).entries.Perm entries := by
  have hFill := perm_fill (m := empty) hKeys fun _ _ => rfl
  rwa [empty, List.append_nil] at hFill

end SortedMap
