import ReliableNotifier.Api.RequestHash
import ReliableNotifier.Library.Json.Token

/-! # The headers of a submission

`decodeCallerHeaders` takes the `headers` member of a submission apart token by token. On the
text of an object it does what a loop over the members would do: it refuses a name that
another one turns into when both are trimmed and in lower case, and a value that does not
decode as a string. A null decodes as the empty string, so it passes where the error text
asks for a string.
-/

namespace ReliableNotifier.Raw

open Checked Json

inductive DecodeError where
  | message (text : String)
  | fault (fault : Fault)
  | unfinished
  deriving DecidableEq

def ensureJSONEOF (decoder : Decoder) : Except DecodeError Unit :=
  match decoder.decode some with
  | .error .eof => .ok ()
  | .error fault => .error (.fault fault)
  | .ok _ => .error (.message "multiple JSON values")

/-- A token that has to be this bracket. -/
def bracket (c : UInt8) (text : String) (decoder : Decoder) : Except DecodeError Decoder :=
  match decoder.token with
  | .ok (.delim d, decoder) => if d = c then .ok decoder else .error (.message text)
  | _ => .error (.message text)

def isSeen (seen : List Bytes) (name : Bytes) : Bool := seen.any fun other => other = name

theorem isSeen_eq_false_iff {seen : List Bytes} {name : Bytes} : isSeen seen name = false ↔ name ∉ seen := by
  simp only [isSeen, List.any_eq_false, decide_eq_true_eq]
  exact ⟨fun h hSeen => h _ hSeen rfl, fun h other hOther hSame => h (hSame ▸ hOther)⟩

variable (tables : CaseTables)

/-- The loop of `decodeCallerHeaders`, with a bound on its rounds. -/
def readMembers : Nat → List Bytes → HeaderMap → Decoder → Except DecodeError (HeaderMap × Decoder)
  | 0, _, _, _ => .error .unfinished
  | fuel + 1, seen, headers, decoder =>
    if decoder.more then do
      let (token, decoder) ← decoder.token.mapError .fault
      match token with
      | .string name => do
        let canonical := toLower tables (trimSpace name)
        ensure (!isSeen seen canonical) (.message "duplicate caller Header name")
        let (value, decoder) ←
          (decoder.decode Decoder.stringTarget).mapError fun _ => .message "caller Header value must be a string"
        readMembers fuel (canonical :: seen) (headers.put name value) decoder
      | _ => .error (.message "caller Header name is invalid")
    else .ok (headers, decoder)

def decodeCallerHeaders (raw : Bytes) : Except DecodeError HeaderMap :=
  if raw = [] ∨ trimSpace raw = nullToken then .ok .empty
  else do
    let decoder ← bracket 123 "caller Headers must be a JSON object" (.new raw)
    let (headers, decoder) ← readMembers tables raw.length [] .empty decoder
    let decoder ← bracket 125 "caller Headers object is invalid" decoder
    ensureJSONEOF decoder
    return headers

variable {tables} {members : List (Bytes × Value)} {seen : List Bytes} {headers result : HeaderMap}

/-! ## The loop as a fold over the members -/

/-- The name under which a member counts as seen. -/
def canonicalName (tables : CaseTables) (member : Bytes × Value) : Bytes :=
  toLower tables (trimSpace (unquote member.1))

/-- The name and the value that a member decodes to. -/
def entryOf (member : Bytes × Value) : Bytes × Bytes :=
  (unquote member.1, (Decoder.stringTarget member.2).getD [])

/-- A round of the loop, for a member of the object. -/
def addMember (tables : CaseTables) (state : List Bytes × HeaderMap) (member : Bytes × Value) :
    Except DecodeError (List Bytes × HeaderMap) := do
  ensure (!isSeen state.1 (canonicalName tables member)) (.message "duplicate caller Header name")
  ensure (Decoder.stringTarget member.2).isSome (.message "caller Header value must be a string")
  return (canonicalName tables member :: state.1, state.2.put (entryOf member).1 (entryOf member).2)

theorem readMembers_eq {outer : TokenState} {stack : List TokenState} {rest : Bytes} {decoder : Decoder}
    (hInside : Decoder.Inside (outer :: stack) rest members decoder) :
    ∃ last, Decoder.Inside (outer :: stack) rest [] last ∧ ∀ fuel seen headers, members.length < fuel →
      readMembers tables fuel seen headers decoder =
        (fun state => (state.2, last)) <$> members.foldlM (addMember tables) (seen, headers) := by
  induction members generalizing decoder with
  | nil =>
    refine ⟨decoder, hInside, fun fuel seen headers hFuel => ?_⟩
    obtain ⟨fuel, rfl⟩ := Nat.exists_eq_succ_of_ne_zero (Nat.ne_zero_of_lt hFuel)
    rw [readMembers, hInside.close.1]
    rfl
  | cons member members ih =>
    obtain ⟨hMore, before, after, hToken, hAfter, hDecode⟩ := hInside.next
    obtain ⟨last, hLast, hRun⟩ := ih hAfter
    refine ⟨last, hLast, fun fuel seen headers hFuel => ?_⟩
    obtain ⟨fuel, rfl⟩ := Nat.exists_eq_succ_of_ne_zero (Nat.ne_zero_of_lt hFuel)
    rw [List.foldlM_cons, readMembers, hMore, hToken]
    rcases Bool.eq_false_or_eq_true (isSeen seen (toLower tables (trimSpace (unquote member.1)))) with hSeen | hSeen
    · simp only [addMember, canonicalName, ensure, hSeen, bind, Except.bind, Except.mapError, if_true]
      rfl
    · simp only [addMember, canonicalName, entryOf, ensure, hSeen, hDecode, bind, Except.bind, Except.mapError, if_true,
        Bool.not_false]
      cases Decoder.stringTarget member.2 with
      | none => rfl
      | some value => exact hRun fuel _ _ (Nat.lt_of_succ_lt_succ hFuel)

theorem addMember_ok_iff {member : Bytes × Value} {next : List Bytes × HeaderMap} :
    addMember tables (seen, headers) member = .ok next ↔
      (Decoder.stringTarget member.2).isSome = true ∧ canonicalName tables member ∉ seen ∧
        next = (canonicalName tables member :: seen, headers.put (entryOf member).1 (entryOf member).2) := by
  simp only [addMember, bind_ok_iff, ensure_ok_iff, pure_ok_iff, Bool.not_eq_true', isSeen_eq_false_iff, exists_const,
    @eq_comm _ next]
  exact and_left_comm

theorem foldlM_addMember_ok_iff :
    (∃ last, members.foldlM (addMember tables) (seen, headers) = .ok (last, result)) ↔
      (∀ member ∈ members, (Decoder.stringTarget member.2).isSome = true ∧ canonicalName tables member ∉ seen) ∧
        (members.map (canonicalName tables)).Nodup ∧ result = headers.fill (members.map entryOf) := by
  induction members generalizing seen headers with
  | nil =>
    constructor
    · rintro ⟨last, h⟩
      cases pure_ok_iff.mp h
      exact ⟨List.forall_mem_nil _, List.nodup_nil, rfl⟩
    · rintro ⟨_, _, rfl⟩
      exact ⟨seen, rfl⟩
  | cons member members ih =>
    rw [List.forall_mem_cons, List.map_cons, List.nodup_cons]
    constructor
    · rintro ⟨last, h⟩
      obtain ⟨next, hNext, hRest⟩ := bind_ok_iff.mp h
      obtain ⟨hString, hNew, rfl⟩ := addMember_ok_iff.mp hNext
      obtain ⟨hLater, hDistinct, rfl⟩ := ih.mp ⟨last, hRest⟩
      have hFirst : canonicalName tables member ∉ members.map (canonicalName tables) := fun hAgain => by
        obtain ⟨later, hMem, hSame⟩ := List.mem_map.mp hAgain
        exact (hLater later hMem).2 (hSame ▸ .head _)
      refine ⟨⟨⟨hString, hNew⟩, fun later hMem => ⟨(hLater later hMem).1, ?_⟩⟩, ⟨hFirst, hDistinct⟩, rfl⟩
      exact fun hSeen => (hLater later hMem).2 (.tail _ hSeen)
    · rintro ⟨⟨⟨hString, hNew⟩, hLater⟩, ⟨hFirst, hDistinct⟩, rfl⟩
      have hFresh (later : Bytes × Value) (hMem : later ∈ members) :
          canonicalName tables later ∉ canonicalName tables member :: seen := by
        refine List.not_mem_cons_of_ne_of_not_mem (fun hSame => hFirst ?_) (hLater later hMem).2
        exact hSame ▸ List.mem_map_of_mem hMem
      obtain ⟨last, hLast⟩ :=
        ih.mpr ⟨fun later hMem => ⟨(hLater later hMem).1, hFresh later hMem⟩, hDistinct, rfl⟩
      exact ⟨last, bind_ok_iff.mpr ⟨_, addMember_ok_iff.mpr ⟨hString, hNew, rfl⟩, hLast⟩⟩

/-! ## The text of a value -/

theorem null_of_trimSpace {v : Value} {raw : Bytes} (h : Reads (.value v) raw [])
    (hTrim : trimSpace raw = nullToken) : v = .null := by
  obtain ⟨c, more, rfl, _⟩ := h.head
  have hGraphic := h.head_graphic
  have hSmall : c.toNat < 0x80 := Nat.lt_of_le_of_lt hGraphic.2 (by decide)
  obtain ⟨back, hBack⟩ := GoStrings.exists_trimFunc_append (UInt8.lt_iff_toNat_lt.mpr hSmall)
    (isSpace_graphic (by rwa [GoStrings.toNat_ofNat hSmall])) more
  change trimSpace (c :: more) ++ back = _ at hBack
  rw [hTrim] at hBack
  generalize hText : c :: more = text at h
  rw [← hBack] at hText
  cases h with
  | null => rfl
  | boolTrue | boolFalse | string | emptyArray | array | emptyObject | object => cases hText
  | number hNumber =>
    obtain ⟨c, more, rfl, hPart⟩ := isNumber_cons hNumber
    obtain ⟨rfl, _⟩ := List.cons.inj hText
    cases hPart

theorem trimSpace_null : trimSpace nullToken = nullToken := by decide

theorem bracket_ok_iff {c : UInt8} {text : String} {decoder after : Decoder} :
    bracket c text decoder = .ok after ↔ decoder.token = .ok (.delim c, after) := by
  unfold bracket
  split
  · rename_i d next hToken
    rw [hToken]
    by_cases hSame : d = c <;> simp [hSame]
  · rename_i hOther
    exact ⟨fun h => (by cases h), fun h => absurd h (hOther _ _)⟩

theorem ensureJSONEOF_ok {rest : Bytes} (h : Space rest) : ensureJSONEOF (.new rest) = .ok () := by
  have hEof : (Decoder.new rest).decode some = .error .eof := Decoder.decode_eof h
  rw [ensureJSONEOF, hEof]

/-- The members decode as strings, and their names are distinct once they are canonical. -/
def Decodable (tables : CaseTables) (members : List (Bytes × Value)) : Prop :=
  (∀ member ∈ members, (Decoder.stringTarget member.2).isSome = true) ∧ (members.map (canonicalName tables)).Nodup

theorem decodeCallerHeaders_object {raw : Bytes} (h : Reads (.value (.object members)) raw []) :
    decodeCallerHeaders tables raw = .ok result ↔
      Decodable tables members ∧ result = SortedMap.empty.fill (members.map entryOf) := by
  obtain ⟨input, rfl⟩ : ∃ input, raw = 123 :: input := by
    cases h <;> exact ⟨_, rfl⟩
  have hNotNull : ¬(123 :: input = [] ∨ trimSpace (123 :: input) = nullToken) := by
    rintro (hEmpty | hNull)
    · cases hEmpty
    · cases null_of_trimSpace h hNull
  have hInside : Decoder.Inside [.topValue] [] members ⟨input, .objectStart, [.topValue]⟩ := Decoder.inside_of_reads h
  obtain ⟨last, hLast, hRun⟩ := @readMembers_eq tables _ _ _ _ _ hInside
  have hClose := hLast.close.2
  have hFuel : members.length < (123 :: input).length := Nat.lt_succ_of_lt hInside.length_lt
  have hEof : ensureJSONEOF ⟨[], TokenState.topValue.valueEnd, []⟩ = .ok () := ensureJSONEOF_ok (List.forall_mem_nil _)
  have hFold : (∃ seen, members.foldlM (addMember tables) ([], .empty) = .ok (seen, result)) ↔
      Decodable tables members ∧ result = SortedMap.empty.fill (members.map entryOf) := by
    simp only [foldlM_addMember_ok_iff, Decodable, List.not_mem_nil, not_false_eq_true, and_true, and_assoc]
  rw [← hFold, decodeCallerHeaders, if_neg hNotNull]
  simp only [bind_ok_iff, bracket_ok_iff, Decoder.token_open, Except.ok.injEq, Prod.mk.injEq, true_and,
    exists_eq_left', hRun _ _ _ hFuel]
  constructor
  · rintro ⟨_, hMap, _, _, _, _, hResult⟩
    obtain ⟨⟨seen, found⟩, hFound, rfl⟩ := map_ok_iff.mp hMap
    cases pure_ok_iff.mp hResult
    exact ⟨seen, hFound⟩
  · rintro ⟨seen, hFound⟩
    exact ⟨_, map_ok_iff.mpr ⟨_, hFound, rfl⟩, _, hClose, (), hEof, rfl⟩

theorem decodeCallerHeaders_other {v : Value} {raw : Bytes} (h : Reads (.value v) raw []) (hNull : v ≠ .null)
    (hObject : ∀ members, v ≠ .object members) : decodeCallerHeaders tables raw ≠ .ok result := by
  obtain ⟨c, more, rfl, hSpace, _⟩ := h.head
  intro hOk
  rw [decodeCallerHeaders, if_neg] at hOk
  · obtain ⟨after, hOpen, _⟩ := bind_ok_iff.mp hOk
    obtain ⟨rest, hRest⟩ := Decoder.delim_of_token (bracket_ok_iff.mp hOpen)
    rw [skipSpace_cons hSpace] at hRest
    obtain ⟨members, rfl⟩ := Decoder.object_of_reads (hRest ▸ h)
    exact hObject members rfl
  · rintro (hEmpty | hTrim)
    · cases hEmpty
    · exact hNull (null_of_trimSpace h hTrim)

theorem decodeCallerHeaders_null {raw : Bytes} (h : Reads (.value .null) raw []) :
    decodeCallerHeaders tables raw = .ok .empty := by
  cases h
  exact if_pos (.inr trimSpace_null)

/-! ## The grammar -/

/-- The `headers` member of a submission, and the bytes of the `json.RawMessage` that it leaves. -/
inductive Given : Option Value → Bytes → Prop
  | absent : Given none []
  | present {v : Value} {raw : Bytes} (h : Reads (.value v) raw []) : Given (some v) raw

/-- The entries that a `headers` member stands for. They are written down as the spellings of names and values. -/
inductive Denotes (tables : CaseTables) : Option Value → List (Bytes × Bytes) → Prop
  | absent : Denotes tables none []
  | null : Denotes tables (some .null) []
  | object {texts : List (Bytes × Bytes)}
      (hDistinct : (texts.map fun text => toLower tables (trimSpace (unquote text.1))).Nodup) :
      Denotes tables (some (.object (texts.map fun text => (text.1, .string text.2))))
        (texts.map fun text => (unquote text.1, unquote text.2))

/-- What is accepted is what stands for some entries, and those are returned. -/
def Exact (tables : CaseTables) (member : Option Value) (raw : Bytes) : Prop :=
  ((∃ headers, decodeCallerHeaders tables raw = .ok headers) ↔ ∃ entries, Denotes tables member entries) ∧
    ∀ headers entries, decodeCallerHeaders tables raw = .ok headers → Denotes tables member entries →
      headers.entries.Perm entries

/-- An object with a null among its values. -/
def HoldsNull (tables : CaseTables) : Option Value → Prop
  | some (.object members) =>
    (∀ member ∈ members, isNull member.2 = true ∨ ∃ raw, member.2 = .string raw) ∧
      (members.map (canonicalName tables)).Nodup ∧ ∃ member ∈ members, isNull member.2 = true
  | _ => False

theorem stringTarget_isSome_iff {v : Value} :
    (Decoder.stringTarget v).isSome = true ↔ isNull v = true ∨ ∃ raw, v = .string raw := by
  cases v <;> simp [Decoder.stringTarget, storeString, isNull]

theorem holdsNull_object_iff :
    HoldsNull tables (some (.object members)) ↔
      Decodable tables members ∧ ∃ member ∈ members, isNull member.2 = true := by
  simp only [HoldsNull, Decodable, stringTarget_isSome_iff, and_assoc]

theorem exists_texts (h : ∀ member ∈ members, ∃ raw, member.2 = .string raw) :
    ∃ texts : List (Bytes × Bytes), members = texts.map fun text => (text.1, .string text.2) := by
  induction members with
  | nil => exact ⟨[], rfl⟩
  | cons member members ih =>
    obtain ⟨⟨raw, hRaw⟩, hLater⟩ := List.forall_mem_cons.mp h
    obtain ⟨texts, rfl⟩ := ih hLater
    exact ⟨(member.1, raw) :: texts, by rw [List.map_cons, ← hRaw]⟩

/-- Without a null, the members that decode are those that stand for their entries. -/
theorem denotes_object_iff {entries : List (Bytes × Bytes)} :
    Denotes tables (some (.object members)) entries ↔ Decodable tables members ∧
      (∀ member ∈ members, isNull member.2 = false) ∧ entries = members.map entryOf := by
  constructor
  · intro h
    cases h with
    | object hDistinct =>
      refine ⟨⟨?_, by rwa [List.map_map]⟩, ?_, by rw [List.map_map]; rfl⟩
      all_goals
        intro member hMember
        obtain ⟨text, _, rfl⟩ := List.mem_map.mp hMember
        rfl
  · rintro ⟨⟨hStrings, hDistinct⟩, hNotNull, rfl⟩
    obtain ⟨texts, rfl⟩ := exists_texts fun member hMember =>
      (stringTarget_isSome_iff.mp (hStrings member hMember)).resolve_left (by simp [hNotNull member hMember])
    rw [List.map_map] at hDistinct ⊢
    exact .object hDistinct

theorem perm_entryOf (h : Decodable tables members) :
    (SortedMap.empty.fill (members.map entryOf)).entries.Perm (members.map entryOf) := by
  have hNames : (((members.map entryOf).map Prod.fst).map fun name => toLower tables (trimSpace name)).Nodup := by
    rw [List.map_map, List.map_map]
    exact h.2
  exact SortedMap.perm_fill_empty (.of_map _ hNames)

theorem exact_of_refused {member : Option Value} {raw : Bytes}
    (hRefused : ∀ headers, decodeCallerHeaders tables raw ≠ .ok headers)
    (hNothing : ∀ entries, ¬Denotes tables member entries) : Exact tables member raw :=
  ⟨iff_of_false (fun ⟨headers, hOk⟩ => hRefused headers hOk) fun ⟨entries, hDenotes⟩ => hNothing entries hDenotes,
    fun headers _ hOk => absurd hOk (hRefused headers)⟩

theorem exact_object_iff {raw : Bytes} (h : Reads (.value (.object members)) raw []) :
    Exact tables (some (.object members)) raw ↔ ¬HoldsNull tables (some (.object members)) := by
  rw [holdsNull_object_iff]
  by_cases hDecodable : Decodable tables members
  · have hOk := (decodeCallerHeaders_object h).mpr ⟨hDecodable, rfl⟩
    by_cases hNull : ∃ member ∈ members, isNull member.2 = true
    · refine iff_of_false (fun hExact => ?_) (not_not_intro ⟨hDecodable, hNull⟩)
      obtain ⟨entries, hDenotes⟩ := hExact.1.mp ⟨_, hOk⟩
      obtain ⟨member, hMember, hIsNull⟩ := hNull
      exact absurd ((denotes_object_iff.mp hDenotes).2.1 member hMember) (by simp [hIsNull])
    · have hStrings (member : Bytes × Value) (hMember : member ∈ members) : isNull member.2 = false :=
        Bool.eq_false_iff.mpr fun hIsNull => hNull ⟨member, hMember, hIsNull⟩
      have hDenotes := denotes_object_iff.mpr ⟨hDecodable, hStrings, rfl⟩
      refine iff_of_true ⟨iff_of_true ⟨_, hOk⟩ ⟨_, hDenotes⟩, fun headers entries hOk hDenotes => ?_⟩ fun h => hNull h.2
      obtain ⟨_, rfl⟩ := (decodeCallerHeaders_object h).mp hOk
      obtain ⟨_, _, rfl⟩ := denotes_object_iff.mp hDenotes
      exact perm_entryOf hDecodable
  · refine iff_of_true (exact_of_refused ?_ ?_) fun hHolds => hDecodable hHolds.1
    · exact fun headers hOk => hDecodable ((decodeCallerHeaders_object h).mp hOk).1
    · exact fun entries hDenotes => hDecodable (denotes_object_iff.mp hDenotes).1

theorem exact_of_empty {member : Option Value} {raw : Bytes} (hOk : decodeCallerHeaders tables raw = .ok .empty)
    (hDenotes : ∀ entries, Denotes tables member entries ↔ entries = []) : Exact tables member raw := by
  refine ⟨iff_of_true ⟨_, hOk⟩ ⟨[], (hDenotes _).mpr rfl⟩, fun headers entries hAgain hEntries => ?_⟩
  cases hOk.symm.trans hAgain
  rw [(hDenotes _).mp hEntries]
  exact .nil

/-- `decodeCallerHeaders` is exact but for nulls: an object in which a null takes the place of a string is accepted. -/
theorem headers_exact_iff {member : Option Value} {raw : Bytes} (h : Given member raw) :
    Exact tables member raw ↔ ¬HoldsNull tables member := by
  cases h with
  | absent =>
    refine iff_of_true (exact_of_empty rfl fun entries => ⟨fun hDenotes => ?_, ?_⟩) id
    · cases hDenotes
      rfl
    · rintro rfl
      exact .absent
  | @present v raw h =>
    cases v with
    | null =>
      refine iff_of_true (exact_of_empty (decodeCallerHeaders_null h) fun entries => ⟨fun hDenotes => ?_, ?_⟩) id
      · cases hDenotes
        rfl
      · rintro rfl
        exact .null
    | object members => exact exact_object_iff h
    | bool | number | string | array =>
      refine iff_of_true (exact_of_refused ?_ fun entries hDenotes => (by cases hDenotes)) id
      exact fun headers => decodeCallerHeaders_other h nofun nofun

namespace Sample

/-- The text of an object whose only member has the name `x-a`. -/
def headersText (value : Bytes) : Bytes := 123 :: 34 :: 120 :: 45 :: 97 :: 34 :: 58 :: (value ++ [125])

theorem reads_headersText {v : Value} {value : Bytes} (h : Reads (.value v) (value ++ [125]) [125]) :
    Reads (.value (.object [([120, 45, 97], v)])) (headersText value) [] :=
  .object (@Reads.members _ _ _ [] [] [] _ _ _ (List.forall_mem_nil _) (.plain rfl (.plain rfl (.plain rfl .nil)))
    (List.forall_mem_nil _) (List.forall_mem_nil _) h (@Reads.endMembers [] _ (List.forall_mem_nil _)))

theorem reads_padded :
    Reads (.value (.object [([120, 45, 97], .string [32, 118])])) (headersText [34, 32, 118, 34]) [] :=
  reads_headersText (@Reads.string [32, 118] _ (.plain rfl (.plain rfl .nil)))

end Sample

/-- A string passes, and is returned as it is. -/
theorem headers_exact_iff_string :
    Given (some (.object [([120, 45, 97], .string [32, 118])])) (Sample.headersText [34, 32, 118, 34]) ∧
      Exact ReliableNotifier.Sample.caseTables (some (.object [([120, 45, 97], .string [32, 118])]))
        (Sample.headersText [34, 32, 118, 34]) := by
  refine ⟨.present Sample.reads_padded, (headers_exact_iff (.present Sample.reads_padded)).mpr fun hHolds => ?_⟩
  obtain ⟨member, hMember, hNull⟩ := hHolds.2.2
  cases List.mem_singleton.mp hMember
  cases hNull

/-- A null passes as well, and is returned as the empty string. -/
theorem null_header_accepted :
    Given (some (.object [([120, 45, 97], .null)])) (Sample.headersText nullToken) ∧
      decodeCallerHeaders ReliableNotifier.Sample.caseTables (Sample.headersText nullToken) =
        .ok (SortedMap.empty.insert [120, 45, 97] []) ∧
      ¬Exact ReliableNotifier.Sample.caseTables (some (.object [([120, 45, 97], .null)]))
        (Sample.headersText nullToken) := by
  have hReads := Sample.reads_headersText (@Reads.null [125])
  refine ⟨.present hReads, by decide +kernel, fun hExact => (exact_object_iff hReads).mp hExact ⟨?_, ?_, ?_⟩⟩
  · exact List.forall_mem_singleton.mpr (.inl rfl)
  · exact List.nodup_singleton _
  · exact ⟨_, .head _, rfl⟩

/-! ## No header is lost -/

variable {input : List (Bytes × Bytes)}

theorem canonical_of_accepted (hDecodable : Decodable tables members)
    (hInput : input.Perm (SortedMap.empty.fill (members.map entryOf)).entries) :
    (input.map (canonical tables)).Perm (members.map fun member => canonical tables (entryOf member)) ∧
      ((input.map (canonical tables)).map Prod.fst).Nodup := by
  have hPerm := (hInput.trans (perm_entryOf hDecodable)).map (canonical tables)
  rw [List.map_map] at hPerm
  refine ⟨hPerm, (hPerm.map Prod.fst).nodup_iff.mpr ?_⟩
  rw [List.map_map]
  exact hDecodable.2

theorem canonicalCallerHeaders_of_accepted (hDecodable : Decodable tables members)
    (hInput : input.Perm (SortedMap.empty.fill (members.map entryOf)).entries) :
    canonicalCallerHeaders tables input = .error .invalidHeader ∨ ∃ result,
      canonicalCallerHeaders tables input = .ok result ∧
        result.entries.Perm (members.map fun member => canonical tables (entryOf member)) := by
  obtain ⟨hPerm, hDistinct⟩ := canonical_of_accepted hDecodable hInput
  cases hResult : canonicalCallerHeaders tables input with
  | ok result => exact .inr ⟨result, rfl, (canonicalCallerHeaders_perm hResult).trans hPerm⟩
  | error err =>
    cases err with
    | invalidHeader => exact .inl rfl
    | duplicateHeader => exact absurd rfl (foldlM_avoids_duplicate hDistinct (fun _ _ => rfl) _ hResult)

/-- The members of an object that is accepted become one entry each unless one of them is invalid, in whatever order
the map is ranged over; and the headers that come out pass again as they are, so they are the ones that are hashed. -/
theorem caller_headers_kept (tables : CaseTables) :
    (∀ members raw headers (order : RangeOrder), Reads (.value (.object members)) raw [] →
        decodeCallerHeaders tables raw = .ok headers →
        canonicalCallerHeaders tables (order.range headers) ≠ .error .duplicateHeader ∧
          (canonicalCallerHeaders tables (order.range headers) = .error .invalidHeader ∨ ∃ result,
            canonicalCallerHeaders tables (order.range headers) = .ok result ∧
              result.entries.Perm (members.map fun member =>
                (toLower tables (trimSpace (unquote member.1)), trimOptionalWhitespace (entryOf member).2)))) ∧
      (∀ input (order order' : RangeOrder),
        (canonicalCallerHeaders tables (order.range input)).toOption =
          (canonicalCallerHeaders tables (order'.range input)).toOption) ∧
      ∀ input (order : RangeOrder) result, canonicalCallerHeaders tables (order.range input) = .ok result →
        (∀ order' : RangeOrder, canonicalCallerHeaders tables (order'.range result) = .ok result) ∧
          ∀ first second (request : HashInput) bytes, request.callerHeaders = result →
            hashedBytes tables first second request = .ok bytes →
            bytes = (hashFields request.destinationID request.destinationVersion
              (GoStrings.mapRunes tables.toUpper request.method) result request.body).flatMap Framing.frame := by
  refine ⟨fun members raw headers order hReads hOk => ?_, fun input order order' => ?_,
    fun input order result hOk => ?_⟩
  · obtain ⟨hDecodable, rfl⟩ := (decodeCallerHeaders_object hReads).mp hOk
    have hResult := canonicalCallerHeaders_of_accepted hDecodable (order.perm _)
    refine ⟨fun hDuplicate => ?_, hResult⟩
    rcases hResult with hInvalid | ⟨result, hOk, _⟩
    · cases hInvalid.symm.trans hDuplicate
    · cases hOk.symm.trans hDuplicate
  · have hPerm := (order.perm input).trans (order'.perm input).symm
    refine Option.ext fun result => ?_
    simp only [toOption_eq_some_iff]
    exact ⟨canonicalCallerHeaders_of_perm hPerm, canonicalCallerHeaders_of_perm hPerm.symm⟩
  · have hFixed (order' : RangeOrder) := canonicalCallerHeaders_fixed hOk (order'.perm result)
    refine ⟨hFixed, fun first second request bytes hSame hBytes => ?_⟩
    obtain ⟨headers, hHeaders, _, rfl⟩ := hashedBytes_ok_iff.mp hBytes
    rw [hSame, hFixed first] at hHeaders
    rw [Except.ok.inj hHeaders]

/-- The blank in front of the value goes, and nothing else. -/
theorem caller_headers_kept_padded :
    decodeCallerHeaders ReliableNotifier.Sample.caseTables (Sample.headersText [34, 32, 118, 34]) =
        .ok (SortedMap.empty.insert [120, 45, 97] [32, 118]) ∧
      ∃ result, canonicalCallerHeaders ReliableNotifier.Sample.caseTables
          (Sample.mapOrder.range (SortedMap.empty.insert [120, 45, 97] [32, 118])) = .ok result ∧
        result.entries.Perm [([120, 45, 97], [118])] := by
  have hOk : decodeCallerHeaders ReliableNotifier.Sample.caseTables (Sample.headersText [34, 32, 118, 34]) =
      .ok (SortedMap.empty.insert [120, 45, 97] [32, 118]) := by
    decide +kernel
  have hForm : canonical ReliableNotifier.Sample.caseTables (entryOf ([120, 45, 97], .string [32, 118])) =
      ([120, 45, 97], [118]) := by
    decide +kernel
  obtain ⟨_, hInvalid | ⟨result, hResult, hPerm⟩⟩ :=
    (caller_headers_kept ReliableNotifier.Sample.caseTables).1 _ _ _ Sample.mapOrder Sample.reads_padded hOk
  · exact absurd hInvalid (by decide +kernel)
  · rw [← hForm]
    exact ⟨hOk, result, hResult, hPerm⟩

end ReliableNotifier.Raw
