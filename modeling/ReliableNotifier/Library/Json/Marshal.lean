import ReliableNotifier.Library.GoStrings
import ReliableNotifier.Library.Json.Decode
import ReliableNotifier.Library.SortedMap

/-! # Strings and maps of strings that are written and read back

`json.Marshal` writes any Go string as a JSON string. Reading it back gives the same string with
every byte that is not UTF-8 replaced, so exactly the strings in UTF-8 survive, and exactly the
maps all of whose names and values are such strings.
-/

namespace Json

open GoStrings

/-- What `quote` puts between the quotes. -/
def quoted (text : Bytes) : Bytes := transcribe quoteUnit 0 text

/-- How a rune is written. -/
def spell : Bytes → Bytes
  | [c] => if c < 0x80 then if isSafe c then [c] else escapeByte c else ascii "\\ufffd"
  | rune =>
    if rune = [0xE2, 0x80, 0xA8] then ascii "\\u2028"
    else if rune = [0xE2, 0x80, 0xA9] then ascii "\\u2029"
    else rune

/-- A rune as it is read back. -/
def mend (rune : Bytes) : Bytes := if 1 < rune.length || rune.all (· < 0x80) then rune else replacement

/-- The text with every byte that is not UTF-8 replaced. -/
def replaceInvalid (text : Bytes) : Bytes := (runes 0 text).flatMap mend

/-! ## Writing rune by rune -/

theorem quoteUnit_eq (c : UInt8) (rest : Bytes) :
    quoteUnit c rest = (spell (c :: rest.take (continuation c rest)), continuation c rest) := by
  rcases UInt8.lt_or_le c 0x80 with hAscii | hHigh
  · simp [quoteUnit, spell, hAscii, continuation_ascii hAscii]
  · have hNot : ¬c < 0x80 := UInt8.not_lt.mpr hHigh
    rcases continuation_cases c rest with hNone | ⟨b, more, rfl, hTwo, hWidth⟩ | ⟨b, d, more, rfl, hThree, hWidth⟩ |
      ⟨b, d, e, more, rfl, hFour, hWidth⟩
    · simp [quoteUnit, spell, hNot, hNone]
    · have hLead : c ≠ 0xE2 := by
        rintro rfl
        simp [continuation.two] at hTwo
      simp [quoteUnit, spell, hNot, hWidth, hLead]
    · by_cases hFirst : c = 0xE2 ∧ b = 0x80 ∧ d = 0xA8
      · obtain ⟨rfl, rfl, rfl⟩ := hFirst
        simp [quoteUnit, spell, hWidth]
      · by_cases hSecond : c = 0xE2 ∧ b = 0x80 ∧ d = 0xA9
        · obtain ⟨rfl, rfl, rfl⟩ := hSecond
          simp [quoteUnit, spell, hWidth]
        · simp [quoteUnit, spell, hNot, hWidth, hFirst, hSecond]
    · have hLead : c ≠ 0xE2 := by
        rintro rfl
        simp [continuation.four] at hFour
      simp [quoteUnit, spell, hNot, hWidth, hLead]

theorem transcribe_quoteUnit (used : Nat) (text : Bytes) :
    transcribe quoteUnit used text = (runes used text).flatMap spell := by
  induction text generalizing used with
  | nil => rw [transcribe, runes, List.flatMap_nil]
  | cons c rest ih =>
    cases used with
    | zero => rw [transcribe, quoteUnit_eq, ih, runes, List.flatMap_cons]
    | succ used => rw [transcribe, ih, runes]

/-! ## Reading rune by rune -/

section Transcribe

variable {unit : UInt8 → Bytes → Bytes × Nat}

theorem transcribe_used (used rest : Bytes) :
    transcribe unit used.length (used ++ rest) = transcribe unit 0 rest := by
  induction used with
  | nil => rfl
  | cons c used ih => exact ih

theorem transcribe_unit (c : UInt8) (used rest : Bytes) {written : Bytes}
    (h : unit c (used ++ rest) = (written, used.length)) :
    transcribe unit 0 (c :: used ++ rest) = written ++ transcribe unit 0 rest := by
  rw [List.cons_append, transcribe, h, transcribe_used]

end Transcribe

/-- A unit between the quotes, and what is read for it. -/
inductive Spelling : Bytes → Bytes → Prop
  | plain {c : UInt8} (hAscii : c < 0x80) (hPlain : isPlain c = true) : Spelling [c] [c]
  | letter {e : UInt8} (hEscape : isEscape e = true) : Spelling [92, e] [unescape e]
  | number {a b c d : UInt8} (hDigits : ∀ digit ∈ [a, b, c, d], isHex digit = true)
      (hAlone : isSurrogate (getu4 a b c d) = false) : Spelling [92, 117, a, b, c, d] (encodeRune (getu4 a b c d))
  | rune {c b : UInt8} {tail : Bytes} (hHigh : ∀ d ∈ c :: b :: tail, 0x80 ≤ d)
      (hWidth : ∀ rest, continuation c (b :: tail ++ rest) = tail.length + 1) :
      Spelling (c :: b :: tail) (c :: b :: tail)

theorem Spelling.unquote {raw text : Bytes} (h : Spelling raw text) (rest : Bytes) :
    Json.unquote (raw ++ rest) = text ++ Json.unquote rest := by
  cases h with
  | @plain c hAscii hPlain =>
    have hEscape : c ≠ 92 := by
      rintro rfl
      exact absurd hPlain (by decide)
    exact transcribe_unit c [] rest (by simp [unquoteUnit, hAscii, hEscape])
  | @letter e hEscape =>
    have hNot : e ≠ 117 := by
      rintro rfl
      exact absurd hEscape (by decide)
    exact transcribe_unit 92 [e] rest (by simp [unquoteUnit, hNot])
  | @number a b c d _ hAlone => exact transcribe_unit 92 [117, a, b, c, d] rest (by simp [unquoteUnit, hAlone])
  | @rune c b tail hHigh hWidth =>
    have hFirst := hHigh c List.mem_cons_self
    have hEscape : c ≠ 92 := by
      rintro rfl
      exact absurd hFirst (by decide)
    have hRest := hWidth rest
    rw [List.cons_append] at hRest
    exact transcribe_unit c (b :: tail) rest
      (by simp [unquoteUnit, hEscape, UInt8.not_lt.mpr hFirst, hRest])

theorem isPlain_of_high {c : UInt8} (h : 0x80 ≤ c) : isPlain c = true := by
  simp only [UInt8.le_iff_toNat_le] at h
  change 128 ≤ c.toNat at h
  simp only [isPlain, UInt8.le_iff_toNat_le, ← UInt8.toNat_inj, ne_eq, Bool.and_eq_true, decide_eq_true_eq]
  change (32 ≤ c.toNat ∧ ¬c.toNat = 34) ∧ ¬c.toNat = 92
  omega

theorem chars_of_plain {raw rest : Bytes} (h : ∀ c ∈ raw, isPlain c = true) (hRest : Chars rest) :
    Chars (raw ++ rest) := by
  induction raw with
  | nil => exact hRest
  | cons c raw ih =>
    obtain ⟨hc, hRaw⟩ := List.forall_mem_cons.mp h
    exact .plain hc (ih hRaw)

theorem Spelling.chars {raw text rest : Bytes} (h : Spelling raw text) (hRest : Chars rest) : Chars (raw ++ rest) := by
  cases h with
  | plain _ hPlain => exact .plain hPlain hRest
  | letter hEscape => exact .escape hEscape hRest
  | number hDigits _ =>
    simp only [List.forall_mem_cons] at hDigits
    obtain ⟨ha, hb, hc, hd, _⟩ := hDigits
    exact .unicode ha hb hc hd hRest
  | rune hHigh _ => exact chars_of_plain (fun c hc => isPlain_of_high (hHigh c hc)) hRest

theorem digitChar_hex : ∀ {n : Nat}, n < 16 →
    isHex (byte (Nat.digitChar n)) = true ∧ hexValue (byte (Nat.digitChar n)) = n := by
  decide

theorem spelling_escapeByte {c : UInt8} (hAscii : c < 0x80) : Spelling (escapeByte c) [c] := by
  have hSmall : c.toNat < 128 := UInt8.lt_iff_toNat_lt.mp hAscii
  unfold escapeByte
  split
  · rename_i hSame
    simp only [Bool.or_eq_true, decide_eq_true_eq] at hSame
    rcases hSame with rfl | rfl
    · exact .letter (e := 92) rfl
    · exact .letter (e := 34) rfl
  · split
    · subst c
      exact .letter (e := 98) rfl
    · split
      · subst c
        exact .letter (e := 102) rfl
      · split
        · subst c
          exact .letter (e := 110) rfl
        · split
          · subst c
            exact .letter (e := 114) rfl
          · split
            · subst c
              exact .letter (e := 116) rfl
            · obtain ⟨hFirst, hSixteens⟩ := @digitChar_hex (c.toNat / 16) (by omega)
              obtain ⟨hSecond, hOnes⟩ := @digitChar_hex (c.toNat % 16) (Nat.mod_lt _ (by decide))
              generalize byte (Nat.digitChar (c.toNat / 16)) = a at hFirst hSixteens ⊢
              generalize byte (Nat.digitChar (c.toNat % 16)) = b at hSecond hOnes ⊢
              have hValue : getu4 48 48 a b = c.toNat := by
                rw [getu4, hSixteens, hOnes]
                change (0 * 16 + c.toNat / 16) * 16 + c.toNat % 16 = c.toNat
                omega
              have hRead : encodeRune (getu4 48 48 a b) = [c] := by
                rw [hValue, encodeRune_ascii hSmall, UInt8.ofNat_toNat]
              rw [← hRead]
              refine .number ?_ ?_
              · simp only [List.forall_mem_cons, hFirst, hSecond]
                exact ⟨rfl, rfl, trivial, trivial, nofun⟩
              · rw [hValue, isSurrogate, decide_eq_false (by omega), Bool.false_and]

theorem spelling_spell {rune : Bytes} (h : IsRune rune) : Spelling (spell rune) (mend rune) := by
  cases h with
  | @ascii c hc =>
    rw [show mend [c] = [c] by simp [mend, hc]]
    simp only [spell, if_pos hc]
    split
    · rename_i hSafe
      refine .plain hc ?_
      simp only [isSafe, Bool.and_eq_true, decide_eq_true_eq] at hSafe
      simp [isPlain, hSafe]
    · exact spelling_escapeByte hc
  | @stray c hc =>
    have hNot : ¬c < 0x80 := UInt8.not_lt.mpr hc
    rw [show mend [c] = replacement by simp [mend, hNot]]
    simp only [spell, if_neg hNot]
    exact @Spelling.number 102 102 102 100 (List.all_eq_true.mp (by decide)) (by decide)
  | two h => simpa [spell, mend] using Spelling.rune (IsRune.two h).high (continuation_two h)
  | three h =>
    simp only [spell]
    split
    · rename_i hSame
      cases hSame
      exact @Spelling.number 50 48 50 56 (List.all_eq_true.mp (by decide)) (by decide)
    · split
      · rename_i hSame
        cases hSame
        exact @Spelling.number 50 48 50 57 (List.all_eq_true.mp (by decide)) (by decide)
      · exact .rune (IsRune.three h).high (continuation_three h)
  | four h => simpa [spell, mend] using Spelling.rune (IsRune.four h).high (continuation_four h)

/-! ## The whole string -/

theorem flatMap_spell {pieces : List Bytes} (h : ∀ rune ∈ pieces, IsRune rune) :
    Chars (pieces.flatMap spell) ∧ unquote (pieces.flatMap spell) = pieces.flatMap mend := by
  induction pieces with
  | nil => exact ⟨.nil, rfl⟩
  | cons rune rest ih =>
    obtain ⟨hRune, hRest⟩ := List.forall_mem_cons.mp h
    obtain ⟨hChars, hUnquote⟩ := ih hRest
    have hSpelling := spelling_spell hRune
    rw [List.flatMap_cons, List.flatMap_cons, ← hUnquote]
    exact ⟨hSpelling.chars hChars, hSpelling.unquote _⟩

theorem chars_quoted (text : Bytes) : Chars (quoted text) := by
  rw [quoted, transcribe_quoteUnit]
  exact (flatMap_spell fun _ => isRune_of_mem).1

theorem unquote_quoted (text : Bytes) : unquote (quoted text) = replaceInvalid text := by
  rw [quoted, transcribe_quoteUnit]
  exact (flatMap_spell fun _ => isRune_of_mem).2

/-! ## What survives -/

theorem mend_eq_self_iff {rune : Bytes} :
    mend rune = rune ↔ (1 < rune.length || rune.all (· < 0x80)) = true := by
  constructor
  · intro h
    by_contra hStray
    rw [mend, if_neg hStray] at h
    subst h
    exact hStray rfl
  · intro h
    exact if_pos h

theorem runes_flatMap_mend {pieces : List Bytes} (h : ∀ rune ∈ pieces, IsRune rune) :
    runes 0 (pieces.flatMap mend) = pieces.map mend := by
  induction pieces with
  | nil => rfl
  | cons rune rest ih =>
    obtain ⟨hRune, hRest⟩ := List.forall_mem_cons.mp h
    have hMended : IsRune (mend rune) ∧ ((mend rune).length = 1 → ∀ c ∈ mend rune, c < 0x80) := by
      unfold mend
      split
      · rename_i hKept
        refine ⟨hRune, fun hOne => ?_⟩
        simpa [hOne] using hKept
      · exact ⟨.three (by decide), nofun⟩
    rw [List.flatMap_cons, runes_append_of_isRune hMended.1 hMended.2, ih hRest, List.map_cons]

/-- Exactly the strings in UTF-8 are read back as they were written. -/
theorem replaceInvalid_eq_self_iff {text : Bytes} : replaceInvalid text = text ↔ validString text = true := by
  have hFlat : (runes 0 text).flatten = text := flatten_runes
  constructor
  · intro h
    have hRunes := runes_flatMap_mend fun rune => @isRune_of_mem 0 text rune
    rw [← replaceInvalid, h] at hRunes
    refine List.all_eq_true.mpr fun rune hRune => mend_eq_self_iff.mp ?_
    exact List.map_inj_left.mp (hRunes.symm.trans (List.map_id' _).symm) rune hRune
  · intro h
    have hKept (rune : Bytes) (hRune : rune ∈ runes 0 text) : mend rune = rune :=
      mend_eq_self_iff.mpr (List.all_eq_true.mp h rune hRune)
    rw [replaceInvalid, List.flatMap_congr hKept, List.flatMap_id', hFlat]

theorem validString_replaceInvalid (text : Bytes) : validString (replaceInvalid text) = true := by
  rw [validString, replaceInvalid, runes_flatMap_mend fun rune => @isRune_of_mem 0 text rune, List.all_map]
  refine List.all_eq_true.mpr fun rune _ => mend_eq_self_iff.mp ?_
  by_cases hKept : (1 < rune.length || rune.all (· < 0x80)) = true
  · rw [mend_eq_self_iff.mpr hKept, mend_eq_self_iff.mpr hKept]
  · rw [show mend rune = replacement from if_neg hKept]
    rfl

/-! ## Maps of strings -/

def marshalEntry (entry : Bytes × Bytes) : Bytes := quote entry.1 ++ 58 :: quote entry.2

def marshalMore : List (Bytes × Bytes) → Bytes
  | [] => [125]
  | entry :: rest => 44 :: (marshalEntry entry ++ marshalMore rest)

/-- A map of strings, the entries in the order of their keys. -/
def marshalMap (m : SortedMap Bytes Bytes) : Bytes :=
  match m.entries with
  | [] => [123, 125]
  | entry :: rest => 123 :: (marshalEntry entry ++ marshalMore rest)

/-- The value that makes up the whole text. -/
def document (text : Bytes) : Option Value :=
  match next text with
  | .value v rest => if skipSpace rest = [] then some v else none
  | .eof | .malformed => none

def stringMember : Bytes × Value → Option (Bytes × Bytes)
  | (name, .string raw) => some (unquote name, unquote raw)
  | _ => none

/-- The strings of an object, by their names. -/
def stringMembers : Value → Option (List (Bytes × Bytes))
  | .object members => members.mapM stringMember
  | _ => none

/-- A map as it is read back. The last of several members of one name decides. -/
def mendMap (m : SortedMap Bytes Bytes) : SortedMap Bytes Bytes :=
  .fill .empty (m.entries.map fun entry => (replaceInvalid entry.1, replaceInvalid entry.2))

/-- The member that is written for an entry. -/
def member (entry : Bytes × Bytes) : Bytes × Value := (quoted entry.1, .string (quoted entry.2))

theorem reads_entry {members : List (Bytes × Value)} {middle rest : Bytes} (entry : Bytes × Bytes)
    (h : Reads (.moreMembers members) middle rest) :
    Reads (.members (member entry :: members)) (marshalEntry entry ++ middle) rest := by
  have hSpace : Space [] := nofun
  have hRead := Reads.members hSpace (chars_quoted entry.1) hSpace hSpace (.string (chars_quoted entry.2)) h
  simpa [marshalEntry, quote, quoted, member] using hRead

theorem reads_more (entries : List (Bytes × Bytes)) :
    Reads (.moreMembers (entries.map member)) (marshalMore entries) [] := by
  induction entries with
  | nil => exact @Reads.endMembers [] [] nofun
  | cons entry rest ih => exact @Reads.moreMembers _ [] _ _ nofun (reads_entry entry ih)

theorem reads_marshalMap (m : SortedMap Bytes Bytes) :
    Reads (.value (.object (m.entries.map member))) (marshalMap m) [] := by
  unfold marshalMap
  cases m.entries with
  | nil => exact @Reads.emptyObject [] [] nofun
  | cons entry rest => exact .object (reads_entry entry (reads_more rest))

theorem document_of_reads {text : Bytes} {v : Value} (h : Reads (.value v) text []) : document text = some v := by
  have hNext : next text = .value v [] := next_eq_value_iff.mpr ⟨[], text, nofun, rfl, h⟩
  rw [document, hNext]
  rfl

theorem stringMembers_members (entries : List (Bytes × Bytes)) :
    stringMembers (.object (entries.map member)) =
      some (entries.map fun entry => (replaceInvalid entry.1, replaceInvalid entry.2)) := by
  unfold stringMembers
  induction entries with
  | nil => rfl
  | cons entry rest ih => simp [member, stringMember, unquote_quoted, ih]

theorem map_replaceInvalid {entries : List (Bytes × Bytes)}
    (h : ∀ entry ∈ entries, validString entry.1 = true ∧ validString entry.2 = true) :
    (entries.map fun entry => (replaceInvalid entry.1, replaceInvalid entry.2)) = entries := by
  refine (List.map_congr_left fun entry hEntry => ?_).trans (List.map_id' _)
  obtain ⟨hName, hValue⟩ := h entry hEntry
  rw [replaceInvalid_eq_self_iff.mpr hName, replaceInvalid_eq_self_iff.mpr hValue]

/-- Exactly the maps of strings in UTF-8 are read back as they were written. -/
theorem mendMap_eq_self_iff {m : SortedMap Bytes Bytes} :
    mendMap m = m ↔ ∀ entry ∈ m.entries, validString entry.1 = true ∧ validString entry.2 = true := by
  constructor
  · intro h entry hEntry
    rw [← h] at hEntry
    rcases SortedMap.mem_of_mem_fill hEntry with hMended | hNone
    · obtain ⟨_, _, rfl⟩ := List.mem_map.mp hMended
      exact ⟨validString_replaceInvalid _, validString_replaceInvalid _⟩
    · cases hNone
  · intro h
    rw [mendMap, map_replaceInvalid h]
    exact SortedMap.eq_of_perm (SortedMap.perm_fill_empty m.nodup_keys)

end Json
