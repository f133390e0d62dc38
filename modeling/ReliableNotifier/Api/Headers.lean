import ReliableNotifier.Worker.Result

/-! # The headers of a submission

Names are trimmed and put into lower case before anything else looks at them, and what
is then stored under a name is a token of ASCII. A map of Go is ranged over in any order,
so the functions that range over one take its entries as a list.
-/

namespace ReliableNotifier

open Checked

/-- The tables of package `unicode` by which `strings` changes and compares case. In them a lower case is
never a capital letter of ASCII, and ASCII stays what it is. `fold` picks one rune of each folding orbit. -/
structure CaseTables where
  toLower : Char → Char
  toUpper : Char → Char
  fold : Char → Char
  toLower_ascii : ∀ c, c.toNat < 128 → toLower c = c.toLower
  toLower_image : ∀ c, (toLower c).isUpper = false

namespace CaseTables

variable (tables : CaseTables)

def lower (s : String) : String := String.ofList (s.toList.map tables.toLower)

def upper (s : String) : String := String.ofList (s.toList.map tables.toUpper)

def equalFold (a b : String) : Bool := a.toList.map tables.fold = b.toList.map tables.fold

end CaseTables

/-- `strings.TrimSpace`. -/
def trimmed (s : String) : String := String.ofList (trimSpace s.toList)

/-- `strings.ContainsAny`. -/
def containsAny (s chars : String) : Bool := s.toList.any fun c => chars.toList.contains c

/-- An order in which the entries of a map come when it is ranged over. -/
structure RangeOrder where
  range : Headers → List (String × String)
  perm : ∀ headers, (range headers).Perm headers.entries

namespace Headers

def insertEntry (name value : String) : List (String × String) → List (String × String)
  | [] => [(name, value)]
  | entry :: rest =>
    if name < entry.1 then (name, value) :: entry :: rest
    else if name = entry.1 then (name, value) :: rest
    else entry :: insertEntry name value rest

theorem mem_insertEntry {name value : String} {entry : String × String} {entries : List (String × String)}
    (h : entry ∈ insertEntry name value entries) : entry = (name, value) ∨ entry ∈ entries := by
  induction entries with
  | nil => exact .inl (List.mem_singleton.mp h)
  | cons first rest ih =>
    unfold insertEntry at h
    split at h
    · exact List.mem_cons.mp h
    · split at h
      · exact (List.mem_cons.mp h).imp_right (List.mem_cons_of_mem _)
      · rcases List.mem_cons.mp h with hFirst | hRest
        · exact .inr (hFirst ▸ List.mem_cons_self)
        · exact (ih hRest).imp_right (List.mem_cons_of_mem _)

theorem sorted_insertEntry {name value : String} {entries : List (String × String)}
    (h : entries.Pairwise fun a b => a.1 < b.1) : (insertEntry name value entries).Pairwise fun a b => a.1 < b.1 := by
  induction entries with
  | nil => exact List.pairwise_singleton _ _
  | cons first rest ih =>
    obtain ⟨hFirst, hRest⟩ := List.pairwise_cons.mp h
    unfold insertEntry
    split
    · rename_i hLess
      refine List.pairwise_cons.mpr ⟨fun entry hEntry => ?_, h⟩
      rcases List.mem_cons.mp hEntry with rfl | hLater
      · exact hLess
      · exact String.lt_trans hLess (hFirst entry hLater)
    · rename_i hLess
      split
      · rename_i hSame
        exact List.pairwise_cons.mpr ⟨fun entry hEntry => hSame ▸ hFirst entry hEntry, hRest⟩
      · rename_i hOther
        refine List.pairwise_cons.mpr ⟨fun entry hEntry => ?_, ih hRest⟩
        rcases mem_insertEntry hEntry with rfl | hLater
        · exact Std.lt_of_le_of_ne (String.not_lt.mp hLess) (Ne.symm hOther)
        · exact hFirst entry hLater

/-- `headers[name] = value`. -/
def insert (headers : Headers) (name value : String) : Headers :=
  ⟨insertEntry name value headers.entries, sorted_insertEntry headers.sorted⟩

def contains (headers : Headers) (name : String) : Bool := headers.entries.any fun entry => entry.1 = name

theorem perm_insert {headers : Headers} {name : String} (value : String) (h : headers.contains name = false) :
    (headers.insert name value).entries.Perm ((name, value) :: headers.entries) := by
  suffices ∀ entries : List (String × String), (∀ entry ∈ entries, entry.1 ≠ name) →
      (insertEntry name value entries).Perm ((name, value) :: entries) by
    refine this headers.entries fun entry hEntry hSame => ?_
    exact absurd (List.any_eq_true.mpr ⟨entry, hEntry, decide_eq_true hSame⟩) (Bool.eq_false_iff.mp h)
  intro entries hNew
  induction entries with
  | nil => exact .refl _
  | cons first rest ih =>
    obtain ⟨hFirst, hRest⟩ := List.forall_mem_cons.mp hNew
    rw [insertEntry, if_neg (Ne.symm hFirst)]
    split
    · exact .refl _
    · exact ((ih hRest).cons first).trans (.swap ..)

end Headers

inductive HeaderError where
  | duplicateHeader
  | invalidHeader
  deriving DecidableEq

def headerSeparators : String := "()<>@,;:\\\"/[]?=\x7b\x7d \t"

def validHeaderName (name : String) : Bool :=
  name ≠ "" && name.toList.all fun c =>
    33 ≤ c.toNat && c.toNat ≤ 126 && !headerSeparators.toList.contains c

def validHeaderValue (value : String) : Bool :=
  value.toList.all fun c =>
    !(c = '\r' || c = '\n' || c.toNat = 0x7F || (c.toNat < 0x20 && c ≠ '\t'))

/-- `strings.Trim(value, " \t")`. -/
def trimOptionalWhitespace (value : String) : String :=
  let blank (c : Char) : Bool := c = ' ' || c = '\t'
  String.ofList ((value.toList.dropWhile blank).reverse.dropWhile blank).reverse

section Canonical

variable (tables : CaseTables)

/-- One round of the loop of `CanonicalCallerHeaders`. -/
def canonicalHeader (headers : Headers) (entry : String × String) : Except HeaderError Headers := do
  let name := tables.lower (trimmed entry.1)
  ensure (validHeaderName name && validHeaderValue entry.2) .invalidHeader
  ensure (!headers.contains name) .duplicateHeader
  return headers.insert name (trimOptionalWhitespace entry.2)

def canonicalCallerHeaders (input : List (String × String)) : Except HeaderError Headers :=
  input.foldlM (canonicalHeader tables) Headers.empty

def protectedHeaders (destination : DestinationVersion) : List String :=
  ["authorization", "proxy-authorization", "host", "connection", "keep-alive", "proxy-authenticate", "te", "trailer",
   "transfer-encoding", "upgrade", "cookie", "set-cookie", "content-length",
   tables.lower destination.idempotencyHeader, tables.lower destination.credentialHeader]

def allowedHeaderNames (destination : DestinationVersion) : List String :=
  (elements destination.allowedHeaders).map fun name => tables.lower (trimmed name)

/-- `validateCallerHeaders`, with the texts of its errors. -/
def validateCallerHeaders (headers : List (String × String)) (destination : DestinationVersion) : Except String Unit :=
  headers.forM fun entry => do
    ensure (!(protectedHeaders tables destination).contains entry.1) "caller attempted to set a protected Header"
    ensure ((allowedHeaderNames tables destination).contains entry.1) "caller Header is not allowlisted"

/-- `containsFold` of package `delivery`, which trims only the configured values. -/
def containsFold (values : Slice String) (candidate : String) : Bool :=
  (elements values).any fun value => tables.equalFold (trimmed value) candidate

end Canonical

theorem trimSpace_eq_self {cs : List Char} (h : ∀ c ∈ cs, isSpace c = false) : trimSpace cs = cs := by
  have hDrop (ds : List Char) (hds : ∀ c ∈ ds, isSpace c = false) : ds.dropWhile isSpace = ds := by
    cases ds with
    | nil => rfl
    | cons d rest => simp [hds d List.mem_cons_self]
  rw [trimSpace, hDrop cs h, hDrop _ fun c hc => h c (List.mem_reverse.mp hc), List.reverse_reverse]

theorem trimmed_eq_self {s : String} (h : ∀ c ∈ s.toList, isSpace c = false) : trimmed s = s := by
  rw [trimmed, trimSpace_eq_self h, String.ofList_toList]

theorem isSpace_graphic {c : Char} (h : 33 ≤ c.toNat ∧ c.toNat ≤ 126) : isSpace c = false := by
  simp only [isSpace, List.contains_eq_mem, List.mem_cons, List.not_mem_nil, or_false, Bool.decide_or,
    Bool.or_eq_false_iff, decide_eq_false_iff_not, Bool.and_eq_false_imp, decide_eq_true_eq, not_le]
  omega

theorem validHeaderName_iff {name : String} :
    validHeaderName name = true ↔ name ≠ "" ∧ ∀ c ∈ name.toList, (33 ≤ c.toNat ∧ c.toNat ≤ 126) ∧
      c ∉ headerSeparators.toList := by
  simp [validHeaderName]

theorem trimmed_of_valid {name : String} (h : validHeaderName name = true) : trimmed name = name :=
  trimmed_eq_self fun c hc => isSpace_graphic ((validHeaderName_iff.mp h).2 c hc).1

namespace CaseTables

variable (tables : CaseTables)

/-- A lower case that is ASCII is its own lower case. -/
theorem toLower_fixed {c : Char} (h : (tables.toLower c).toNat < 128) :
    tables.toLower (tables.toLower c) = tables.toLower c := by
  have hImage := tables.toLower_image c
  rw [tables.toLower_ascii _ h]
  exact dif_neg (of_decide_eq_false hImage)

theorem lower_fixed {s : String} (h : ∀ c ∈ (tables.lower s).toList, c.toNat < 128) :
    tables.lower (tables.lower s) = tables.lower s := by
  simp only [lower, String.toList_ofList, List.mem_map, forall_exists_index, and_imp, forall_apply_eq_imp_iff₂,
    List.map_map] at h ⊢
  refine congrArg String.ofList (List.map_congr_left fun c hc => ?_)
  exact tables.toLower_fixed (h c hc)

end CaseTables

/-- What is stored under a name in lower case that is a token, with a value of one line. -/
structure Headers.Canonical (tables : CaseTables) (headers : Headers) : Prop where
  name : ∀ entry ∈ headers.entries, validHeaderName entry.1 = true
  lower : ∀ entry ∈ headers.entries, tables.lower entry.1 = entry.1
  value : ∀ entry ∈ headers.entries, validHeaderValue entry.2 = true

theorem validHeaderValue_trim {value : String} (h : validHeaderValue value = true) :
    validHeaderValue (trimOptionalWhitespace value) = true := by
  rw [validHeaderValue, List.all_eq_true] at h ⊢
  intro c hc
  simp only [trimOptionalWhitespace, String.toList_ofList, List.mem_reverse] at hc
  exact h c ((List.dropWhile_sublist _).subset (List.mem_reverse.mp ((List.dropWhile_sublist _).subset hc)))

theorem canonicalHeader_ok {tables : CaseTables} {headers headers' : Headers} {entry : String × String}
    (h : canonicalHeader tables headers entry = .ok headers') :
    validHeaderName (tables.lower (trimmed entry.1)) = true ∧ validHeaderValue entry.2 = true ∧
      headers.contains (tables.lower (trimmed entry.1)) = false ∧
      headers' = headers.insert (tables.lower (trimmed entry.1)) (trimOptionalWhitespace entry.2) := by
  simp only [canonicalHeader, bind_ok_iff, ensure_ok_iff, pure_ok_iff, Bool.and_eq_true, Bool.not_eq_true'] at h
  obtain ⟨_, ⟨hName, hValue⟩, _, hNew, rfl⟩ := h
  exact ⟨hName, hValue, hNew, rfl⟩

theorem canonicalCallerHeaders_canonical {tables : CaseTables} {input : List (String × String)} {headers : Headers}
    (h : canonicalCallerHeaders tables input = .ok headers) : headers.Canonical tables := by
  refine foldlM_invariant (P := Headers.Canonical tables)
    ⟨fun _ h => (by cases h), fun _ h => (by cases h), fun _ h => (by cases h)⟩ ?_ h
  intro headers entry next hHeaders hNext
  obtain ⟨hName, hValue, _, rfl⟩ := canonicalHeader_ok hNext
  have hLower := tables.lower_fixed fun c hc => by
    have := ((validHeaderName_iff.mp hName).2 c hc).1
    omega
  refine ⟨?_, ?_, ?_⟩ <;> intro other hOther <;> rcases Headers.mem_insertEntry hOther with rfl | hOld
  · exact hName
  · exact hHeaders.name other hOld
  · exact hLower
  · exact hHeaders.lower other hOld
  · exact validHeaderValue_trim hValue
  · exact hHeaders.value other hOld

namespace Sample

theorem isUpper_toLower (c : Char) : c.toLower.isUpper = false := by
  by_cases hCapital : c.val ≥ 'A'.val ∧ c.val ≤ 'Z'.val
  · have hLower : c.toLower.val = c.val + ('a'.val - 'A'.val) := congrArg Char.val (dif_pos hCapital)
    have hLow : 65 ≤ c.val.toNat := UInt32.le_iff_toNat_le.mp hCapital.1
    have hHigh : c.val.toNat ≤ 90 := UInt32.le_iff_toNat_le.mp hCapital.2
    refine decide_eq_false ?_
    rw [hLower]
    rintro ⟨_, hUpper⟩
    have hBound := UInt32.le_iff_toNat_le.mp hUpper
    rw [UInt32.toNat_add] at hBound
    have hShift : ('a'.val - 'A'.val).toNat = 32 := rfl
    have hLast : 'Z'.val.toNat = 90 := rfl
    omega
  · have hSame : c.toLower = c := dif_neg hCapital
    rw [hSame]
    exact decide_eq_false hCapital

/-- The tables as far as ASCII and the three runes go that are one case step away from it. -/
def caseTables : CaseTables where
  toLower c := if c.toNat = 0x212A then 'k' else if c.toNat = 0x130 then 'i' else c.toLower
  toUpper c := if c.toNat = 0x17F then 'S' else c.toUpper
  fold := foldRune
  toLower_ascii c h := by rw [if_neg (by omega), if_neg (by omega)]
  toLower_image c := by
    split
    · rfl
    · split
      · rfl
      · exact isUpper_toLower c

end Sample

end ReliableNotifier
