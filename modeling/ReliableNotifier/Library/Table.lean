import Mathlib.Data.List.Sort
import Mathlib.Tactic.Common

/-! # Keyed tables as lists of rows

A table is the list of its rows. An `UPDATE ... WHERE` rewrites the rows that
satisfy a predicate, an `ORDER BY ... LIMIT` statement picks a batch, and a key
column selects one row or the rows of one owner. No fact below depends on what
the rows hold.
-/

namespace RowTable

variable {α β κ : Type*}

def updateWhere (p : α → Bool) (f : α → α) (rows : List α) : List α :=
  rows.map fun row => if p row then f row else row

/-- The rows that satisfy `p`, in the order `le`, at most `limit` of them. -/
def batch (le : α → α → Prop) [DecidableRel le] (limit : Nat) (p : α → Bool)
    (rows : List α) : List α :=
  ((rows.filter p).insertionSort le).take limit

section Keys

variable [DecidableEq κ] (key : α → κ)

def lookup (k : κ) (rows : List α) : Option α := rows.find? fun row => key row = k

def owned (k : κ) (rows : List α) : List α := rows.filter fun row => key row = k

theorem key_of_lookup {k : κ} {rows : List α} {row : α} (h : lookup key k rows = some row) :
    key row = k := by
  simpa using List.find?_some h

theorem mem_of_lookup {k : κ} {rows : List α} {row : α} (h : lookup key k rows = some row) :
    row ∈ rows :=
  List.mem_of_find?_eq_some h

theorem lookup_eq_none_iff {k : κ} {rows : List α} :
    lookup key k rows = none ↔ ∀ row ∈ rows, key row ≠ k := by
  simp [lookup]

theorem lookup_of_mem {rows : List α} (hKeys : (rows.map key).Nodup) {row : α}
    (h : row ∈ rows) : lookup key (key row) rows = some row := by
  induction rows with
  | nil => cases h
  | cons head rest ih =>
    simp only [List.map_cons, List.nodup_cons, List.mem_map, not_exists, not_and] at hKeys
    rcases List.mem_cons.mp h with rfl | h
    · simp [lookup]
    · have hHead : key head ≠ key row := fun he => hKeys.1 row h he.symm
      have hRest := ih hKeys.2 h
      simpa [lookup, hHead] using hRest

theorem lookup_eq_some_iff {rows : List α} (hKeys : (rows.map key).Nodup) {k : κ} {row : α} :
    lookup key k rows = some row ↔ row ∈ rows ∧ key row = k := by
  constructor
  · intro h
    exact ⟨mem_of_lookup key h, key_of_lookup key h⟩
  · rintro ⟨h, rfl⟩
    exact lookup_of_mem key hKeys h

theorem owned_eq_toList {rows : List α} (hKeys : (rows.map key).Nodup) (k : κ) :
    owned key k rows = (lookup key k rows).toList := by
  induction rows with
  | nil => rfl
  | cons head rest ih =>
    simp only [List.map_cons, List.nodup_cons, List.mem_map, not_exists, not_and] at hKeys
    by_cases hHead : key head = k
    · have hRest : owned key k rest = [] := by
        simp only [owned, List.filter_eq_nil_iff, decide_eq_true_eq]
        intro row hRow he
        exact hKeys.1 row hRow (he.trans hHead.symm)
      simp only [owned, lookup] at hRest ⊢
      simp [hHead, hRest]
    · have hRest := ih hKeys.2
      simp only [owned, lookup] at hRest ⊢
      simpa [hHead] using hRest

theorem owned_eq_nil_iff {k : κ} {rows : List α} :
    owned key k rows = [] ↔ ∀ row ∈ rows, key row ≠ k := by
  simp [owned]

theorem mem_owned {k : κ} {rows : List α} {row : α} :
    row ∈ owned key k rows ↔ row ∈ rows ∧ key row = k := by
  simp [owned]

theorem lookup_updateWhere {p : α → Bool} {f : α → α} (hf : ∀ row, key (f row) = key row)
    (k : κ) (rows : List α) :
    lookup key k (updateWhere p f rows) =
      (lookup key k rows).map fun row => if p row then f row else row := by
  have hKey : ∀ row, key (if p row then f row else row) = key row := by
    intro row
    split
    · exact hf row
    · rfl
  simp only [lookup, updateWhere, List.find?_map]
  congr 2
  funext row
  simp [hKey]

theorem owned_updateWhere {p : α → Bool} {f : α → α} (hf : ∀ row, key (f row) = key row)
    (k : κ) (rows : List α) :
    owned key k (updateWhere p f rows) = updateWhere p f (owned key k rows) := by
  have hKey : ∀ row, key (if p row then f row else row) = key row := by
    intro row
    split
    · exact hf row
    · rfl
  simp only [owned, updateWhere, List.filter_map]
  congr 2
  funext row
  simp [hKey]

theorem lookup_append (k : κ) (rows more : List α) :
    lookup key k (rows ++ more) = (lookup key k rows).or (lookup key k more) := by
  simp [lookup]

theorem owned_append (k : κ) (rows more : List α) :
    owned key k (rows ++ more) = owned key k rows ++ owned key k more := by
  simp [owned]

theorem owned_map {key' : β → κ} {g : α → β} (hg : ∀ row, key' (g row) = key row) (k : κ) (rows : List α) :
    owned key' k (rows.map g) = (owned key k rows).map g := by
  simp only [owned, List.filter_map]
  congr 2
  funext row
  simp [hg]

theorem owned_filter (p : α → Bool) (k : κ) (rows : List α) :
    owned key k (rows.filter p) = (owned key k rows).filter p := by
  simp [owned, List.filter_filter, Bool.and_comm]

/-- An update of encoded rows is the encoding of an update. -/
theorem updateWhere_map {p : α → Bool} {q : β → Bool} {f : α → α} {g : β → β} (encode : α → β)
    (hp : ∀ row, q (encode row) = p row) (hf : ∀ row, g (encode row) = encode (f row)) (rows : List α) :
    updateWhere q g (rows.map encode) = (updateWhere p f rows).map encode := by
  rw [updateWhere, updateWhere, List.map_map, List.map_map]
  refine List.map_congr_left fun row _ => ?_
  simp only [Function.comp, hp, hf]
  split <;> rfl

theorem map_key_updateWhere {p : α → Bool} {f : α → α} (g : α → β) (hf : ∀ row, g (f row) = g row)
    (rows : List α) : (updateWhere p f rows).map g = rows.map g := by
  simp only [updateWhere, List.map_map]
  apply List.map_congr_left
  intro row _
  simp only [Function.comp]
  split
  · exact hf row
  · rfl

/-- Two tables whose rows correspond owner by owner have corresponding rows, up to their order. -/
theorem exists_perm_of_owned {R : α → α → Prop} {rows rows' : List α}
    (h : ∀ k, List.Forall₂ R (owned key k rows) (owned key k rows')) :
    ∃ arranged, arranged.Perm rows' ∧ List.Forall₂ R rows arranged := by
  induction rows generalizing rows' with
  | nil =>
    cases rows' with
    | nil => exact ⟨[], .refl _, .nil⟩
    | cons row rest =>
      have hNone := List.forall₂_nil_left_iff.mp (h (key row))
      exact absurd rfl ((owned_eq_nil_iff key).mp hNone row List.mem_cons_self)
  | cons row rest ih =>
    have hHead := h (key row)
    have hOwn : owned key (key row) (row :: rest) = row :: owned key (key row) rest := by simp [owned]
    rw [hOwn] at hHead
    obtain ⟨row', others, hRow, hOthers, hSplit⟩ := List.forall₂_cons_left_iff.mp hHead
    obtain ⟨before, after, rfl, hBefore, hKey, hAfter⟩ := List.filter_eq_cons_iff.mp hSplit
    have hKey' : key row' = key row := by simpa using hKey
    obtain ⟨arranged, hPerm, hRest⟩ := @ih (before ++ after) fun k => by
      by_cases hk : k = key row
      · subst hk
        have hNone : owned key (key row) before = [] :=
          (owned_eq_nil_iff key).mpr fun other hOther => by simpa using hBefore other hOther
        have hRest : owned key (key row) after = others := hAfter
        rw [owned_append, hNone, List.nil_append, hRest]
        exact hOthers
      · have hOther := h k
        rw [owned_append] at hOther ⊢
        simpa [owned, Ne.symm hk, hKey'] using hOther
    exact ⟨row' :: arranged, (hPerm.cons row').trans List.perm_middle.symm, .cons hRow hRest⟩

theorem perm_of_owned {rows rows' : List α} (h : ∀ k, owned key k rows = owned key k rows') : rows.Perm rows' := by
  obtain ⟨arranged, hPerm, hSame⟩ := exists_perm_of_owned key fun k => List.forall₂_eq_eq_eq.symm ▸ h k
  rw [List.forall₂_eq_eq_eq] at hSame
  exact hSame ▸ hPerm

end Keys

theorem mem_updateWhere {p : α → Bool} {f : α → α} {rows : List α} {row : α} :
    row ∈ updateWhere p f rows ↔ ∃ old ∈ rows, (if p old then f old else old) = row := by
  rw [updateWhere, List.mem_map]

theorem exists_mem_updateWhere {p : α → Bool} {f : α → α} {rows : List α} {row : α} (key : α → β)
    (hf : ∀ row, key (f row) = key row) (hRow : row ∈ rows) : ∃ new ∈ updateWhere p f rows, key new = key row := by
  refine ⟨_, mem_updateWhere.mpr ⟨row, hRow, rfl⟩, ?_⟩
  split
  · exact hf row
  · rfl

theorem updateWhere_of_forall_not {p : α → Bool} {f : α → α} {rows : List α} (h : ∀ row ∈ rows, p row ≠ true) :
    updateWhere p f rows = rows := by
  rw [updateWhere, List.map_congr_left (fun row hRow => if_neg (h row hRow)), List.map_id']

/-- A new row is the one that is found if no old row is. -/
theorem find?_append_new {p : α → Bool} {rows : List α} {row : α} (hOld : ∀ old ∈ rows, p old = false)
    (hNew : p row = true) : (rows ++ [row]).find? p = some row := by
  rw [List.find?_append, List.find?_eq_none.mpr fun old hMem => by simp [hOld old hMem], Option.none_or,
    List.find?_cons_of_pos hNew]

/-- A loop that appends the rows one by one meets no conflict later if it meets none at its first row. -/
theorem apart_append {R : α → α → Prop} {rows rest : List α} {row : α} (hFirst : ∀ new ∈ rest, R new row)
    (h : ∀ new ∈ row :: rest, ∀ other ∈ rows, R new other) : ∀ new ∈ rest, ∀ other ∈ rows ++ [row], R new other := by
  intro new hNew other hOther
  rcases List.mem_append.mp hOther with hOld | hOther
  · exact h new (List.mem_cons_of_mem _ hNew) other hOld
  · rw [List.mem_singleton.mp hOther]
    exact hFirst new hNew

theorem countP_eq_one [DecidableEq β] {p : α → Bool} {rows : List α} {row : α} {key : α → β}
    (hKeys : (rows.map key).Nodup) (hRow : row ∈ rows) (hp : p row = true)
    (hOnly : ∀ other ∈ rows, p other = true → key other = key row) : rows.countP p = 1 := by
  have hSame : rows.countP p = (rows.map key).count (key row) := by
    rw [List.count, List.countP_map]
    refine List.countP_congr fun other hOther => ?_
    simp only [Function.comp_apply, beq_iff_eq]
    exact ⟨hOnly other hOther, fun hKey => List.inj_on_of_nodup_map hKeys hOther hRow hKey ▸ hp⟩
  rw [hSame, List.count_eq_one_of_mem hKeys (List.mem_map_of_mem hRow)]

/-- A change under which no row comes to satisfy `q` without having satisfied `p`. -/
theorem countP_map_le {p q : α → Bool} {f : α → α} {rows : List α}
    (hKeep : ∀ row ∈ rows, q (f row) = true → p row = true) : (rows.map f).countP q ≤ rows.countP p := by
  rw [List.countP_map]
  exact List.countP_mono_left hKeep

theorem countP_map_lt {p q : α → Bool} {f : α → α} {rows : List α} {row : α}
    (hKeep : ∀ row ∈ rows, q (f row) = true → p row = true) (hRow : row ∈ rows) (hBefore : p row = true)
    (hAfter : q (f row) = false) : (rows.map f).countP q < rows.countP p := by
  induction rows with
  | nil => cases hRow
  | cons head rest ih =>
    have hRest (other : α) (hOther : other ∈ rest) := hKeep other (List.mem_cons_of_mem _ hOther)
    rcases List.mem_cons.mp hRow with rfl | hMem
    · have hLe := countP_map_le hRest
      rw [List.map_cons, List.countP_cons_of_neg (by simp [hAfter]), List.countP_cons_of_pos hBefore]
      omega
    · have hLt := ih hRest hMem
      have hHead := hKeep head List.mem_cons_self
      rw [List.map_cons, List.countP_cons, List.countP_cons]
      split
      · rw [if_pos (hHead ‹_›)]
        omega
      · omega

section Batch

variable (le : α → α → Prop) [DecidableRel le]

theorem mem_of_mem_batch {limit : Nat} {p : α → Bool} {rows : List α} {row : α}
    (h : row ∈ batch le limit p rows) : row ∈ rows ∧ p row = true := by
  have hSorted := List.mem_of_mem_take h
  rw [List.mem_insertionSort] at hSorted
  exact List.mem_filter.mp hSorted

theorem batch_ne_nil {limit : Nat} {p : α → Bool} {rows : List α} {row : α}
    (hLimit : 0 < limit) (hRow : row ∈ rows) (hp : p row = true) : batch le limit p rows ≠ [] := by
  have hSorted : row ∈ (rows.filter p).insertionSort le :=
    (List.mem_insertionSort le).mpr (List.mem_filter.mpr ⟨hRow, hp⟩)
  intro h
  rcases List.take_eq_nil_iff.mp h with h | h
  · omega
  · rw [h] at hSorted
    cases hSorted

theorem length_batch {limit : Nat} {p : α → Bool} {rows : List α} :
    (batch le limit p rows).length = min limit (rows.countP p) := by
  rw [batch, List.length_take, List.length_insertionSort, List.countP_eq_length_filter]

/-- A limit that all rows keep within selects all of them. -/
theorem mem_batch_iff {limit : Nat} {p : α → Bool} {rows : List α} {row : α} (hEnough : rows.countP p ≤ limit) :
    row ∈ batch le limit p rows ↔ row ∈ rows ∧ p row = true := by
  refine ⟨mem_of_mem_batch le, fun h => ?_⟩
  have hLength : ((rows.filter p).insertionSort le).length ≤ limit := by
    rw [List.length_insertionSort, ← List.countP_eq_length_filter]
    exact hEnough
  rw [batch, List.take_of_length_le hLength, List.mem_insertionSort]
  exact List.mem_filter.mpr h

/-- What a batch leaves out comes after what it holds. -/
theorem batch_before [Std.Total le] [IsTrans α le] {limit : Nat} {p : α → Bool} {rows : List α} {row : α}
    (hRow : row ∈ rows) (hp : p row = true) (hOut : row ∉ batch le limit p rows) :
    (batch le limit p rows).length = limit ∧ ∀ other ∈ batch le limit p rows, le other row := by
  have hSorted := List.pairwise_insertionSort le (rows.filter p)
  have hMem : row ∈ (rows.filter p).insertionSort le :=
    (List.mem_insertionSort le).mpr (List.mem_filter.mpr ⟨hRow, hp⟩)
  rw [← List.take_append_drop limit ((rows.filter p).insertionSort le)] at hSorted hMem
  have hDrop := (List.mem_append.mp hMem).resolve_left hOut
  constructor
  · have hLength := List.length_pos_of_mem hDrop
    rw [List.length_drop] at hLength
    rw [batch, List.length_take]
    omega
  · exact fun other hOther => (List.pairwise_append.mp hSorted).2.2 other hOther row hDrop

theorem batch_map_nodup {limit : Nat} {p : α → Bool} {rows : List α} (g : α → β)
    (h : (rows.map g).Nodup) : ((batch le limit p rows).map g).Nodup := by
  have hFilter : ((rows.filter p).map g).Nodup := (List.filter_sublist.map g).nodup h
  have hSorted : (((rows.filter p).insertionSort le).map g).Nodup :=
    ((List.perm_insertionSort le _).map g).nodup_iff.mpr hFilter
  exact ((List.take_sublist _ _).map g).nodup hSorted

end Batch

end RowTable
