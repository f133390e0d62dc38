import ReliableNotifier.Library.Json.Token

/-! # The texts of values

A `json.RawMessage` keeps the bytes of a value as they stand in the input. Those bytes spell
the same value on their own, so nothing is lost when they are decoded a second time.
-/

namespace Json

theorem ends_append {text rest rest' : Bytes} (hText : text ≠ []) (h : Ends (text ++ rest)) : Ends (text ++ rest') := by
  cases text with
  | nil => exact absurd rfl hText
  | cons c more => exact h

/-- A phrase is spelled by some bytes at the front of the input. They spell it in front of anything else as well, as
long as that does not continue a number. -/
theorem Reads.exists_text {phrase : Phrase} {input rest : Bytes} (h : Reads phrase input rest) :
    ∃ text, input = text ++ rest ∧ text ≠ [] ∧
      ∀ rest', (Ends rest → Ends rest') → Reads phrase (text ++ rest') rest' := by
  induction h with
  | null => exact ⟨nullToken, rfl, List.cons_ne_nil _ _, fun _ _ => .null⟩
  | boolTrue => exact ⟨trueToken, rfl, List.cons_ne_nil _ _, fun _ _ => .boolTrue⟩
  | boolFalse => exact ⟨falseToken, rfl, List.cons_ne_nil _ _, fun _ _ => .boolFalse⟩
  | number hNumber hEnds =>
    obtain ⟨c, more, rfl, _⟩ := isNumber_cons hNumber
    exact ⟨c :: more, rfl, List.cons_ne_nil _ _, fun _ hRest => .number hNumber (hRest hEnds)⟩
  | @string raw rest hChars =>
    refine ⟨34 :: (raw ++ [34]), by simp, List.cons_ne_nil _ _, fun rest' _ => ?_⟩
    simpa using Reads.string hChars
  | @emptyArray gap rest hGap =>
    refine ⟨91 :: (gap ++ [93]), by simp, List.cons_ne_nil _ _, fun rest' _ => ?_⟩
    simpa using Reads.emptyArray hGap
  | array _ ih =>
    obtain ⟨text, rfl, _, hText⟩ := ih
    exact ⟨91 :: text, rfl, List.cons_ne_nil _ _, fun rest' hRest => .array (hText rest' hRest)⟩
  | @items v items gap input middle rest hGap _ _ ihValue ihMore =>
    obtain ⟨more, rfl, hMoreSome, hMore⟩ := ihMore
    obtain ⟨text, rfl, hTextSome, hText⟩ := ihValue
    refine ⟨gap ++ text ++ more, by simp, by simp [hTextSome], fun rest' hRest => ?_⟩
    rw [List.append_assoc, List.append_assoc]
    exact .items hGap (hText _ (ends_append hMoreSome)) (hMore rest' hRest)
  | @endItems gap rest hGap =>
    refine ⟨gap ++ [93], by simp, by simp, fun rest' _ => ?_⟩
    simpa using Reads.endItems hGap
  | @moreItems items gap input rest hGap _ ih =>
    obtain ⟨text, rfl, _, hText⟩ := ih
    refine ⟨gap ++ 44 :: text, by simp, by simp, fun rest' hRest => ?_⟩
    rw [List.append_assoc]
    exact .moreItems hGap (hText rest' hRest)
  | @emptyObject gap rest hGap =>
    refine ⟨123 :: (gap ++ [125]), by simp, List.cons_ne_nil _ _, fun rest' _ => ?_⟩
    simpa using Reads.emptyObject hGap
  | object _ ih =>
    obtain ⟨text, rfl, _, hText⟩ := ih
    exact ⟨123 :: text, rfl, List.cons_ne_nil _ _, fun rest' hRest => .object (hText rest' hRest)⟩
  | @members name v members gap gapBefore gapAfter input middle rest hGap hName hBefore hAfter _ _ ihValue ihMore =>
    obtain ⟨more, rfl, hMoreSome, hMore⟩ := ihMore
    obtain ⟨text, rfl, _, hText⟩ := ihValue
    refine ⟨gap ++ 34 :: (name ++ 34 :: (gapBefore ++ 58 :: (gapAfter ++ (text ++ more)))), by simp, by simp,
      fun rest' hRest => ?_⟩
    simpa using Reads.members hGap hName hBefore hAfter (hText _ (ends_append hMoreSome)) (hMore rest' hRest)
  | @endMembers gap rest hGap =>
    refine ⟨gap ++ [125], by simp, by simp, fun rest' _ => ?_⟩
    simpa using Reads.endMembers hGap
  | @moreMembers members gap input rest hGap _ ih =>
    obtain ⟨text, rfl, _, hText⟩ := ih
    refine ⟨gap ++ 44 :: text, by simp, by simp, fun rest' hRest => ?_⟩
    rw [List.append_assoc]
    exact .moreMembers hGap (hText rest' hRest)

/-- The bytes of the input in front of `rest`. -/
def textBefore (input rest : Bytes) : Bytes := input.take (input.length - rest.length)

theorem reads_textBefore {v : Value} {input rest : Bytes} (h : Reads (.value v) input rest) :
    Reads (.value v) (textBefore input rest) [] := by
  obtain ⟨text, rfl, _, hText⟩ := h.exists_text
  have hEnds : Ends [] := fun c hc => absurd hc (by simp)
  have hTake : textBefore (text ++ rest) rest = text := by
    rw [textBefore, List.length_append, Nat.add_sub_cancel, List.take_left]
  rw [hTake]
  exact List.append_nil text ▸ hText [] fun _ => hEnds

/-! ## Members with their texts -/

/-- A member of an object: the spelling of its name, its value, and the text of the value. -/
structure Member where
  name : Bytes
  value : Value
  text : Bytes

def Member.pair (member : Member) : Bytes × Value := (member.name, member.value)

/-- The members from the first name on, up to the closing brace. -/
def memberTexts : Nat → Bytes → Option (List Member)
  | 0, _ => none
  | fuel + 1, input => do
    let input ← consume [34] (skipSpace input)
    let (name, input) ← chars input
    let input ← consume [58] (skipSpace input)
    let (v, rest) ← parse (skipSpace input)
    let member : Member := ⟨name, v, textBefore (skipSpace input) rest⟩
    match skipSpace rest with
    | 125 :: _ => some [member]
    | 44 :: rest => (memberTexts fuel rest).map (member :: ·)
    | _ => none

/-- The members of an object, from its opening brace on. -/
def objectTexts : Bytes → Option (List Member)
  | 123 :: input =>
    match skipSpace input with
    | 125 :: _ => some []
    | _ => memberTexts input.length input
  | _ => none

/-- The members found are those of the value, each with a text of its own that spells it. -/
def Spans (members : List (Bytes × Value)) (found : List Member) : Prop :=
  found.map Member.pair = members ∧ ∀ member ∈ found, Reads (.value member.value) member.text []

theorem memberTexts_of_reads {members : List (Bytes × Value)} {input rest : Bytes}
    (h : Reads (.members members) input rest) :
    ∀ fuel, members.length ≤ fuel → ∃ found, memberTexts fuel input = some found ∧ Spans members found := by
  induction members generalizing input with
  | nil => cases h
  | cons member members ih =>
    cases h with
    | @members name v _ gap gapBefore gapAfter input middle _ hGap hName hBefore hAfter hValue hMore =>
      intro fuel hFuel
      obtain ⟨fuel, rfl⟩ : ∃ k, fuel = k + 1 := Nat.exists_eq_succ_of_ne_zero (Nat.ne_zero_of_lt hFuel)
      have hText := reads_textBefore hValue
      simp only [memberTexts, skipSpace_append hGap, skipSpace_cons (show isSpace 34 = false by decide), consume_cons,
        chars_complete hName, skipSpace_append hBefore, skipSpace_cons (show isSpace 58 = false by decide),
        hValue.skip hAfter, parse_eq_some_iff.mpr hValue, Option.bind_eq_bind, Option.bind_some]
      cases hMore with
      | endMembers hEnd =>
        rw [skipSpace_append hEnd, skipSpace_cons (by decide)]
        exact ⟨_, rfl, rfl, List.forall_mem_singleton.mpr hText⟩
      | moreMembers hComma hRest =>
        rw [skipSpace_append hComma, skipSpace_cons (by decide)]
        obtain ⟨found, hFound, hPairs, hTexts⟩ := ih hRest fuel (Nat.le_of_succ_le_succ hFuel)
        simp only [hFound, Option.map_some]
        exact ⟨_, rfl, congrArg _ hPairs, List.forall_mem_cons.mpr ⟨hText, hTexts⟩⟩

theorem objectTexts_of_reads {members : List (Bytes × Value)} {text : Bytes}
    (h : Reads (.value (.object members)) text []) : ∃ found, objectTexts text = some found ∧ Spans members found := by
  cases h with
  | emptyObject hGap =>
    refine ⟨[], ?_, rfl, List.forall_mem_nil _⟩
    rw [objectTexts, skipSpace_append hGap, skipSpace_cons (by decide)]
    rfl
  | object h =>
    obtain ⟨more, hSkip⟩ := h.skip_members
    obtain ⟨found, hFound, hSpans⟩ := memberTexts_of_reads h _ (Nat.le_of_lt (Decoder.length_members_lt h))
    refine ⟨found, ?_, hSpans⟩
    rw [objectTexts, hSkip]
    exact hFound

/-! ## Writing an object -/

def memberText (member : Member) : Bytes := 34 :: (member.name ++ 34 :: 58 :: member.text)

def moreMemberTexts : List Member → Bytes
  | [] => [125]
  | member :: rest => 44 :: (memberText member ++ moreMemberTexts rest)

/-- The object with these members, without any space. -/
def objectText : List Member → Bytes
  | [] => [123, 125]
  | member :: rest => 123 :: (memberText member ++ moreMemberTexts rest)

def Member.Spelled (member : Member) : Prop := Chars member.name ∧ Reads (.value member.value) member.text []

theorem space_nil : Space [] := List.forall_mem_nil _

theorem reads_memberText {member : Member} {members : List (Bytes × Value)} {middle : Bytes}
    (h : member.Spelled) (hMore : Reads (.moreMembers members) middle []) (hEnds : Ends middle) :
    Reads (.members (member.pair :: members)) (memberText member ++ middle) [] := by
  obtain ⟨text, hText, _, hReads⟩ := h.2.exists_text
  rw [List.append_nil] at hText
  have hMembers := Reads.members space_nil h.1 space_nil space_nil (hReads middle fun _ => hEnds) hMore
  simpa [memberText, Member.pair, hText] using hMembers

theorem reads_moreMemberTexts {members : List Member} (h : ∀ member ∈ members, member.Spelled) :
    Reads (.moreMembers (members.map Member.pair)) (moreMemberTexts members) [] ∧ Ends (moreMemberTexts members) := by
  induction members with
  | nil =>
    refine ⟨.endMembers space_nil, fun c hc => ?_⟩
    cases hc
    decide
  | cons member rest ih =>
    obtain ⟨hFirst, hRest⟩ := List.forall_mem_cons.mp h
    obtain ⟨hMore, hEnds⟩ := ih hRest
    refine ⟨.moreMembers space_nil (reads_memberText hFirst hMore hEnds), fun c hc => ?_⟩
    cases hc
    decide

theorem reads_objectText {members : List Member} (h : ∀ member ∈ members, member.Spelled) :
    Reads (.value (.object (members.map Member.pair))) (objectText members) [] := by
  cases members with
  | nil => exact .emptyObject space_nil
  | cons member rest =>
    obtain ⟨hFirst, hRest⟩ := List.forall_mem_cons.mp h
    obtain ⟨hMore, hEnds⟩ := reads_moreMemberTexts hRest
    exact .object (reads_memberText hFirst hMore hEnds)

/-! ## Nesting -/

mutual

/-- How many brackets are open at once. -/
def Value.depth : Value → Nat
  | .array items => depthItems items + 1
  | .object members => depthMembers members + 1
  | _ => 0

def depthItems : List Value → Nat
  | [] => 0
  | v :: rest => max v.depth (depthItems rest)

def depthMembers : List (Bytes × Value) → Nat
  | [] => 0
  | (_, v) :: rest => max v.depth (depthMembers rest)

end

/-- Deeper than this the scanner of `encoding/json` does not go. -/
def maxNestingDepth : Nat := 10000

/-! ## Structs with raw fields -/

/-- A field that gets the text of its value, too. -/
structure RawField (σ : Type) where
  name : Bytes
  store : Value → Bytes → σ → Option σ

variable {σ : Type}

def RawField.withText (text : Bytes) (field : RawField σ) : StructField σ := ⟨field.name, fun v => field.store v text⟩

/-- A string, for which the text plays no role. -/
def RawField.string (name : Bytes) (set : Bytes → σ → σ) : RawField σ := ⟨name, fun v _ => storeString set v⟩

/-- A `json.RawMessage`, which takes any value, a null among them. -/
def RawField.raw (name : Bytes) (set : Bytes → σ → σ) : RawField σ := ⟨name, fun _ text s => some (set text s)⟩

def storeText (fields : List (RawField σ)) (s : σ) (member : Member) : Option σ :=
  storeMember (fields.map (RawField.withText member.text)) s (unquote member.name, member.value)

/-- `Decode` into a struct, given the value and its text. -/
def decodeRawStruct (fields : List (RawField σ)) (v : Value) (text : Bytes) (s : σ) : Option σ :=
  match v with
  | .null => some s
  | .object _ => (objectTexts text).bind fun found => found.foldlM (storeText fields) s
  | _ => none

end Json
