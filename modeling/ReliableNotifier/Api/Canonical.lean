import ReliableNotifier.Api.Headers
import ReliableNotifier.Library.GoStrings
import ReliableNotifier.Library.SortedMap

/-! # Canonical headers, byte by byte

The names and values of headers are Go strings, which need not be UTF-8. `CanonicalCallerHeaders`
over bytes succeeds or fails, and returns what it returns, whatever the order in which the
map is ranged over, and its results are fixed points. On texts it is the function over
texts.
-/

namespace ReliableNotifier.Raw

open Checked GoStrings

abbrev Bytes := Json.Bytes

/-- `map[string]string`. -/
abbrev HeaderMap := SortedMap Bytes Bytes

/-- `headers[name] = value`. -/
abbrev HeaderMap.put (headers : HeaderMap) (name value : Bytes) : HeaderMap := headers.insert name value

/-- An order in which the entries of a map come when it is ranged over. -/
structure RangeOrder where
  range : HeaderMap → List (Bytes × Bytes)
  perm : ∀ headers, (range headers).Perm headers.entries

variable (tables : CaseTables)

/-- `strings.ToLower`. -/
def toLower (s : Bytes) : Bytes := mapRunes tables.toLower s

/-- `strings.TrimSpace`. -/
def trimSpace (s : Bytes) : Bytes := trimFunc isSpace s

def validHeaderName (name : Bytes) : Bool :=
  name ≠ [] && (runes 0 name).all fun rune =>
    33 ≤ runeValue rune && runeValue rune ≤ 126 && !(headerSeparators.toList.map Char.toNat).contains (runeValue rune)

def validHeaderValue (value : Bytes) : Bool :=
  (runes 0 value).all fun rune =>
    !(runeValue rune = 13 || runeValue rune = 10 || runeValue rune = 0x7F ||
      (runeValue rune < 0x20 && runeValue rune ≠ 9))

def trimOptionalWhitespace (value : Bytes) : Bytes := trim (fun c => c = 32 || c = 9) value

/-- The name and the value that an entry is stored with. -/
def canonical (entry : Bytes × Bytes) : Bytes × Bytes :=
  (toLower tables (trimSpace entry.1), trimOptionalWhitespace entry.2)

/-- One round of the loop of `CanonicalCallerHeaders`. -/
def canonicalHeader (headers : HeaderMap) (entry : Bytes × Bytes) : Except HeaderError HeaderMap := do
  let name := toLower tables (trimSpace entry.1)
  ensure (validHeaderName name && validHeaderValue entry.2) .invalidHeader
  ensure (!headers.contains name) .duplicateHeader
  return headers.insert name (trimOptionalWhitespace entry.2)

def canonicalCallerHeaders (input : List (Bytes × Bytes)) : Except HeaderError HeaderMap :=
  input.foldlM (canonicalHeader tables) SortedMap.empty

variable {tables} {input : List (Bytes × Bytes)} {headers result : HeaderMap}

/-- The name in lower case and the value pass their tests. -/
def Valid (tables : CaseTables) (entry : Bytes × Bytes) : Prop :=
  validHeaderName (canonical tables entry).1 = true ∧ validHeaderValue entry.2 = true

theorem canonicalHeader_ok_iff {entry : Bytes × Bytes} :
    canonicalHeader tables headers entry = .ok result ↔ Valid tables entry ∧
      headers.contains (canonical tables entry).1 = false ∧
      result = headers.insert (canonical tables entry).1 (canonical tables entry).2 := by
  simp only [canonicalHeader, bind_ok_iff, ensure_ok_iff, pure_ok_iff, Bool.and_eq_true, Bool.not_eq_true', Valid,
    canonical, exists_const, @eq_comm _ result]

theorem contains_insert_canonical {entry later : Bytes × Bytes} {rest : List (Bytes × Bytes)} {value : Bytes}
    (hFirst : (canonical tables entry).1 ∉ (rest.map (canonical tables)).map Prod.fst) (hLater : later ∈ rest)
    (hNew : headers.contains (canonical tables later).1 = false) :
    (headers.insert (canonical tables entry).1 value).contains (canonical tables later).1 = false := by
  refine SortedMap.contains_insert_eq_false_iff.mpr ⟨fun hSame => hFirst ?_, hNew⟩
  exact hSame ▸ List.mem_map_of_mem (List.mem_map_of_mem hLater)

/-- The loop ends well if all entries are valid and their names are new and distinct, and then it has put in all of
them. -/
theorem foldlM_canonicalHeader_ok_iff :
    input.foldlM (canonicalHeader tables) headers = .ok result ↔
      (∀ entry ∈ input, Valid tables entry ∧ headers.contains (canonical tables entry).1 = false) ∧
        ((input.map (canonical tables)).map Prod.fst).Nodup ∧ result = headers.fill (input.map (canonical tables)) := by
  induction input generalizing headers with
  | nil =>
    refine ⟨fun h => ⟨List.forall_mem_nil _, List.nodup_nil, (pure_ok_iff.mp h).symm⟩, fun h => ?_⟩
    rw [h.2.2]
    rfl
  | cons entry rest ih =>
    rw [List.foldlM_cons, bind_ok_iff, List.forall_mem_cons, List.map_cons, List.map_cons, List.nodup_cons]
    constructor
    · rintro ⟨next, hNext, hRest⟩
      obtain ⟨hValid, hNew, rfl⟩ := canonicalHeader_ok_iff.mp hNext
      obtain ⟨hLater, hDistinct, rfl⟩ := ih.mp hRest
      have hOther (later : Bytes × Bytes) (hMem : later ∈ rest) :=
        SortedMap.contains_insert_eq_false_iff.mp (hLater later hMem).2
      refine ⟨⟨⟨hValid, hNew⟩, fun later hMem => ⟨(hLater later hMem).1, (hOther later hMem).2⟩⟩, ⟨?_, hDistinct⟩, rfl⟩
      intro hAgain
      obtain ⟨_, hMem, hSame⟩ := List.mem_map.mp hAgain
      obtain ⟨later, hLaterMem, rfl⟩ := List.mem_map.mp hMem
      exact (hOther later hLaterMem).1 hSame
    · rintro ⟨⟨⟨hValid, hNew⟩, hLater⟩, ⟨hFirst, hDistinct⟩, rfl⟩
      refine ⟨_, canonicalHeader_ok_iff.mpr ⟨hValid, hNew, rfl⟩, ih.mpr ⟨fun later hMem => ⟨(hLater later hMem).1, ?_⟩,
        hDistinct, rfl⟩⟩
      exact contains_insert_canonical hFirst hMem (hLater later hMem).2

theorem canonicalCallerHeaders_ok_iff :
    canonicalCallerHeaders tables input = .ok result ↔ (∀ entry ∈ input, Valid tables entry) ∧
      ((input.map (canonical tables)).map Prod.fst).Nodup ∧
      result = SortedMap.empty.fill (input.map (canonical tables)) := by
  have hEmpty (name : Bytes) : (SortedMap.empty : HeaderMap).contains name = false := rfl
  simp only [canonicalCallerHeaders, foldlM_canonicalHeader_ok_iff, hEmpty, and_true]

theorem canonicalCallerHeaders_perm (h : canonicalCallerHeaders tables input = .ok result) :
    result.entries.Perm (input.map (canonical tables)) := by
  obtain ⟨_, hDistinct, rfl⟩ := canonicalCallerHeaders_ok_iff.mp h
  exact SortedMap.perm_fill_empty hDistinct

theorem canonicalCallerHeaders_of_perm {input' : List (Bytes × Bytes)} (hPerm : input.Perm input')
    (h : canonicalCallerHeaders tables input = .ok result) : canonicalCallerHeaders tables input' = .ok result := by
  obtain ⟨hValid, hDistinct, hResult⟩ := canonicalCallerHeaders_ok_iff.mp h
  have hValid' : ∀ entry ∈ input', Valid tables entry := fun entry hEntry => hValid entry (hPerm.mem_iff.mpr hEntry)
  have hDistinct' := ((hPerm.map (canonical tables)).map Prod.fst).nodup_iff.mp hDistinct
  have hOk := canonicalCallerHeaders_ok_iff.mpr ⟨hValid', hDistinct', rfl⟩
  have hSame := ((canonicalCallerHeaders_perm h).trans (hPerm.map _)).trans (canonicalCallerHeaders_perm hOk).symm
  rw [hOk, SortedMap.eq_of_perm hSame]

theorem foldlM_avoids_duplicate (hDistinct : ((input.map (canonical tables)).map Prod.fst).Nodup)
    (hNew : ∀ entry ∈ input, headers.contains (canonical tables entry).1 = false) :
    Avoids (· = .duplicateHeader) (input.foldlM (canonicalHeader tables) headers) := by
  induction input generalizing headers with
  | nil => exact .ok _
  | cons entry rest ih =>
    obtain ⟨hEntry, hRest⟩ := List.forall_mem_cons.mp hNew
    obtain ⟨hFirst, hLater⟩ := List.nodup_cons.mp hDistinct
    rw [List.foldlM_cons]
    refine .bind ?_ fun next hNext => ih hLater fun later hMem => ?_
    · have hUnseen : (!headers.contains (canonical tables entry).1) = true := by rw [hEntry, Bool.not_false]
      exact .bind (.ensure (.inr nofun)) fun _ _ => .bind (.ensure (.inl hUnseen)) fun _ _ => .ok _
    · obtain ⟨_, _, rfl⟩ := canonicalHeader_ok_iff.mp hNext
      exact contains_insert_canonical hFirst hMem (hRest later hMem)

/-! ## Fixed points -/

theorem graphic_of_valid {name : Bytes} (h : validHeaderName name = true) :
    ∀ c ∈ name, c < 0x80 ∧ 33 ≤ c.toNat ∧ c.toNat ≤ 126 := by
  refine ascii_of_forall_runes (p := fun n => 33 ≤ n ∧ n ≤ 126) (fun n hn => by omega) fun rune hRune => ?_
  have hAll := List.all_eq_true.mp (Bool.and_eq_true_iff.mp h).2 rune hRune
  simp only [Bool.and_eq_true, decide_eq_true_eq] at hAll
  exact hAll.1

theorem toLower_of_valid {s : Bytes} (h : validHeaderName (toLower tables s) = true) :
    toLower tables (toLower tables s) = toLower tables s := by
  have hAscii := graphic_of_valid h
  refine mapRunes_eq_self (fun c hc => (hAscii c hc).1) fun c hc => ?_
  obtain ⟨x, hSmall, rfl⟩ := mem_mapRunes (hAscii c hc).1 hc
  have hValue : (UInt8.ofNat (tables.toLower x).toNat).toNat = (tables.toLower x).toNat :=
    UInt8.toNat_ofNat_of_lt (Nat.lt_trans hSmall (by decide))
  rw [hValue, Char.ofNat_toNat]
  exact tables.toLower_fixed hSmall

theorem trimSpace_of_valid {name : Bytes} (h : validHeaderName name = true) : trimSpace name = name := by
  have hAscii := graphic_of_valid h
  refine trimFunc_eq_self fun rune hRune => ?_
  rw [runes_ascii fun c hc => (hAscii c hc).1] at hRune
  obtain ⟨c, hc, rfl⟩ := List.mem_map.mp hRune
  have hSmall : c.toNat < 0x80 := UInt8.lt_iff_toNat_lt.mp (hAscii c hc).1
  rw [runeValue, if_pos (hAscii c hc).1]
  exact isSpace_graphic (by rw [toNat_ofNat hSmall]; exact (hAscii c hc).2)

theorem validHeaderValue_iff {value : Bytes} :
    validHeaderValue value = true ↔ ∀ c ∈ value, c < 0x80 →
      ¬(c.toNat = 13 ∨ c.toNat = 10 ∨ c.toNat = 0x7F ∨ c.toNat < 0x20 ∧ c.toNat ≠ 9) := by
  rw [← forall_runes_iff (p := fun n => ¬(n = 13 ∨ n = 10 ∨ n = 0x7F ∨ n < 0x20 ∧ n ≠ 9)) fun n hn => by omega,
    validHeaderValue, List.all_eq_true]
  simp only [Bool.not_eq_true', Bool.or_eq_false_iff, decide_eq_false_iff_not, Bool.and_eq_false_imp,
    decide_eq_true_eq, not_or, not_and, and_assoc]

theorem validHeaderValue_trim {value : Bytes} (h : validHeaderValue value = true) :
    validHeaderValue (trimOptionalWhitespace value) = true :=
  validHeaderValue_iff.mpr fun c hc => validHeaderValue_iff.mp h c ((trim_sublist _ _).subset hc)

theorem canonical_fixed {entry : Bytes × Bytes} (h : Valid tables entry) :
    canonical tables (canonical tables entry) = canonical tables entry ∧ Valid tables (canonical tables entry) := by
  have hFixed : canonical tables (canonical tables entry) = canonical tables entry := by
    refine Prod.ext ?_ (trim_trim _ _)
    rw [canonical, trimSpace_of_valid h.1]
    exact toLower_of_valid h.1
  refine ⟨hFixed, ?_, validHeaderValue_trim h.2⟩
  rw [hFixed]
  exact h.1

/-- A result passes again, in any order, and is returned as it is. -/
theorem canonicalCallerHeaders_fixed {again : List (Bytes × Bytes)}
    (h : canonicalCallerHeaders tables input = .ok result) (hAgain : again.Perm result.entries) :
    canonicalCallerHeaders tables again = .ok result := by
  have hPerm := canonicalCallerHeaders_perm h
  obtain ⟨hValid, _, _⟩ := canonicalCallerHeaders_ok_iff.mp h
  have hEntry (entry : Bytes × Bytes) (hMem : entry ∈ result.entries) :
      canonical tables entry = entry ∧ Valid tables entry := by
    obtain ⟨raw, hRaw, rfl⟩ := List.mem_map.mp (hPerm.mem_iff.mp hMem)
    exact canonical_fixed (hValid raw hRaw)
  have hSame : result.entries.map (canonical tables) = result.entries :=
    (List.map_congr_left fun entry hMem => (hEntry entry hMem).1).trans (List.map_id' _)
  refine canonicalCallerHeaders_of_perm hAgain.symm (canonicalCallerHeaders_ok_iff.mpr
    ⟨fun entry hMem => (hEntry entry hMem).2, ?_, SortedMap.eq_of_perm ?_⟩)
  · rw [hSame]
    exact result.nodup_keys
  · rw [hSame]
    exact (SortedMap.perm_fill_empty result.nodup_keys).symm

/-! ## On texts -/

def encode (s : String) : Bytes := utf8 s.toList

def encodeEntry (entry : String × String) : Bytes × Bytes := (encode entry.1, encode entry.2)

theorem encode_injective {s t : String} (h : encode s = encode t) : s = t := String.toList_inj.mp (utf8_injective h)

theorem toLower_encode (s : String) : toLower tables (encode s) = encode (tables.lower s) := by
  rw [toLower, encode, mapRunes_utf8, encode, CaseTables.lower, String.toList_ofList]

theorem trimSpace_encode (s : String) : trimSpace (encode s) = encode (trimmed s) := by
  rw [trimSpace, encode, trimFunc_utf8, encode, trimmed, String.toList_ofList, List.rdropWhile,
    ReliableNotifier.trimSpace]

theorem all_runes_encode (p : Nat → Bool) (s : String) :
    (runes 0 (encode s)).all (fun rune => p (runeValue rune)) = s.toList.all fun c => p c.toNat := by
  rw [encode, runes_utf8, List.all_map]
  refine List.all_congr rfl fun c => ?_
  rw [Function.comp, (encodeRune_spec c).2.1]

theorem validHeaderName_encode (name : String) :
    validHeaderName (encode name) = ReliableNotifier.validHeaderName name := by
  have hEmpty : encode name = [] ↔ name = "" := ⟨fun h => encode_injective h, fun h => h ▸ rfl⟩
  have hSeparator (c : Char) :
      (headerSeparators.toList.map Char.toNat).contains c.toNat = headerSeparators.toList.contains c := by
    simp [List.contains_eq_mem, Char.toNat_inj]
  have hAll := all_runes_encode
    (fun n => 33 ≤ n && n ≤ 126 && !(headerSeparators.toList.map Char.toNat).contains n) name
  rw [validHeaderName, hAll, ReliableNotifier.validHeaderName]
  simp only [ne_eq, hEmpty, hSeparator]

theorem validHeaderValue_encode (value : String) :
    validHeaderValue (encode value) = ReliableNotifier.validHeaderValue value := by
  have hAll := all_runes_encode (fun n => !(n = 13 || n = 10 || n = 0x7F || (n < 0x20 && n ≠ 9))) value
  rw [validHeaderValue, hAll, ReliableNotifier.validHeaderValue]
  refine List.all_congr rfl fun c => ?_
  have hReturn : c.toNat = 13 ↔ c = '\r' := @Char.toNat_inj c '\r'
  have hNewline : c.toNat = 10 ↔ c = '\n' := @Char.toNat_inj c '\n'
  have hTab : c.toNat = 9 ↔ c = '\t' := @Char.toNat_inj c '\t'
  simp only [hReturn, hNewline, ne_eq, hTab]

theorem trimOptionalWhitespace_encode (value : String) :
    trimOptionalWhitespace (encode value) = encode (ReliableNotifier.trimOptionalWhitespace value) := by
  have hBlank : (fun c : Char => decide (c.toNat < 0x80) && (decide (UInt8.ofNat c.toNat = 32) ||
      decide (UInt8.ofNat c.toNat = 9))) = fun c => decide (c = ' ') || decide (c = '\t') := by
    funext c
    have hSpace : c.toNat = 32 ↔ c = ' ' := @Char.toNat_inj c ' '
    have hTab : c.toNat = 9 ↔ c = '\t' := @Char.toNat_inj c '\t'
    rw [Bool.eq_iff_iff]
    simp only [Bool.and_eq_true, Bool.or_eq_true, decide_eq_true_eq, ← hSpace, ← hTab, ← UInt8.toNat_inj,
      UInt8.toNat_ofNat']
    change c.toNat < 128 ∧ (c.toNat % 256 = 32 ∨ c.toNat % 256 = 9) ↔ _
    omega
  have hAscii (c : UInt8) (hc : 0x80 ≤ c) : (decide (c = 32) || decide (c = 9)) = false := by
    rw [Bool.or_eq_false_iff, decide_eq_false_iff_not, decide_eq_false_iff_not]
    constructor <;> rintro rfl <;> exact absurd hc (by decide)
  rw [trimOptionalWhitespace, encode, trim_utf8 hAscii, hBlank, encode, ReliableNotifier.trimOptionalWhitespace,
    String.toList_ofList, List.rdropWhile]

/-- The map has the bytes of the headers. -/
def Encodes (headers : Headers) (map : HeaderMap) : Prop := map.entries.Perm (headers.entries.map encodeEntry)

/-- Both functions fail with the same error, or return the same headers. -/
inductive Agree : Except HeaderError Headers → Except HeaderError HeaderMap → Prop
  | ok {headers : Headers} {map : HeaderMap} (h : Encodes headers map) : Agree (.ok headers) (.ok map)
  | error (err : HeaderError) : Agree (.error err) (.error err)

theorem encodes_empty : Encodes Headers.empty SortedMap.empty := List.Perm.nil

theorem Agree.bind {a : Except HeaderError Headers} {b : Except HeaderError HeaderMap}
    {f : Headers → Except HeaderError Headers} {g : HeaderMap → Except HeaderError HeaderMap} (h : Agree a b)
    (hNext : ∀ texts map, Encodes texts map → Agree (f texts) (g map)) : Agree (a >>= f) (b >>= g) := by
  cases h with
  | ok h => exact hNext _ _ h
  | error err => exact .error err

theorem contains_encode {texts : Headers} {map : HeaderMap} (h : Encodes texts map) (name : String) :
    map.contains (encode name) = texts.contains name := by
  have hSame (s : String) : encode s = encode name ↔ s = name := ⟨encode_injective, congrArg encode⟩
  rw [SortedMap.contains, Headers.contains, h.any_eq, List.any_map]
  simp only [Function.comp_def, encodeEntry, hSame]

theorem canonicalHeader_agree {texts : Headers} {map : HeaderMap} (h : Encodes texts map) (entry : String × String) :
    Agree (ReliableNotifier.canonicalHeader tables texts entry) (canonicalHeader tables map (encodeEntry entry)) := by
  unfold ReliableNotifier.canonicalHeader canonicalHeader
  simp only [encodeEntry, trimSpace_encode, toLower_encode, validHeaderName_encode, validHeaderValue_encode,
    contains_encode h, trimOptionalWhitespace_encode]
  cases ReliableNotifier.validHeaderName (tables.lower (trimmed entry.1)) &&
      ReliableNotifier.validHeaderValue entry.2 with
  | false => exact .error _
  | true =>
    cases hNew : texts.contains (tables.lower (trimmed entry.1)) with
    | true => exact .error _
    | false =>
      refine .ok ((SortedMap.perm_insert ?_ _).trans ((h.cons _).trans ?_))
      · rw [contains_encode h, hNew]
      · exact ((Headers.perm_insert _ hNew).map encodeEntry).symm

theorem foldlM_agree {texts : Headers} {map : HeaderMap} (h : Encodes texts map) (input : List (String × String)) :
    Agree (input.foldlM (ReliableNotifier.canonicalHeader tables) texts)
      ((input.map encodeEntry).foldlM (canonicalHeader tables) map) := by
  induction input generalizing texts map with
  | nil => exact .ok h
  | cons entry rest ih =>
    rw [List.map_cons, List.foldlM_cons, List.foldlM_cons]
    exact (canonicalHeader_agree h entry).bind fun _ _ hNext => ih hNext

/-- On texts the function over bytes is the function over texts. -/
theorem canonicalCallerHeaders_agree (input : List (String × String)) :
    Agree (ReliableNotifier.canonicalCallerHeaders tables input)
      (canonicalCallerHeaders tables (input.map encodeEntry)) :=
  foldlM_agree encodes_empty input

end ReliableNotifier.Raw
