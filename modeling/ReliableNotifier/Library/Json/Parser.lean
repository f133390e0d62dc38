import ReliableNotifier.Library.Json.Grammar

/-! # A parser for the JSON grammar

The parser reads one value from the front of its input. It recurs on fuel, of which every
two bytes of input are enough for one, and it finds exactly what the grammar derives.
-/

namespace Json

def scalar (input : Bytes) : Option (Value × Bytes) :=
  if let some rest := consume nullToken input then some (.null, rest)
  else if let some rest := consume trueToken input then some (.bool true, rest)
  else if let some rest := consume falseToken input then some (.bool false, rest)
  else (number input).map fun (literal, rest) => (.number literal, rest)

mutual

def value : Nat → Bytes → Option (Value × Bytes)
  | 0, _ => none
  | _ + 1, [] => none
  | fuel + 1, c :: input =>
    if c = 123 then
      match skipSpace input with
      | 125 :: rest => some (.object [], rest)
      | _ => (members fuel input).map fun (members, rest) => (.object members, rest)
    else if c = 91 then
      match skipSpace input with
      | 93 :: rest => some (.array [], rest)
      | _ => (items fuel input).map fun (items, rest) => (.array items, rest)
    else if c = 34 then (chars input).map fun (raw, rest) => (.string raw, rest)
    else scalar (c :: input)

def items : Nat → Bytes → Option (List Value × Bytes)
  | 0, _ => none
  | fuel + 1, input => do
    let (v, middle) ← value fuel (skipSpace input)
    let (items, rest) ← moreItems fuel middle
    return (v :: items, rest)

def moreItems : Nat → Bytes → Option (List Value × Bytes)
  | 0, _ => none
  | fuel + 1, input =>
    match skipSpace input with
    | 93 :: rest => some ([], rest)
    | 44 :: input => items fuel input
    | _ => none

def members : Nat → Bytes → Option (List (Bytes × Value) × Bytes)
  | 0, _ => none
  | fuel + 1, input => do
    let input ← consume [34] (skipSpace input)
    let (name, input) ← chars input
    let input ← consume [58] (skipSpace input)
    let (v, middle) ← value fuel (skipSpace input)
    let (members, rest) ← moreMembers fuel middle
    return ((name, v) :: members, rest)

def moreMembers : Nat → Bytes → Option (List (Bytes × Value) × Bytes)
  | 0, _ => none
  | fuel + 1, input =>
    match skipSpace input with
    | 125 :: rest => some ([], rest)
    | 44 :: input => members fuel input
    | _ => none

end

/-- The value at the front of the input. -/
def parse (input : Bytes) : Option (Value × Bytes) := value (2 * input.length + 1) input

theorem scalar_sound {input rest : Bytes} {v : Value} (h : scalar input = some (v, rest)) :
    Reads (.value v) input rest := by
  unfold scalar at h
  split at h
  · rename_i hNull
    cases h
    rw [consume_eq_some_iff.mp hNull]
    exact .null
  split at h
  · rename_i hTrue
    cases h
    rw [consume_eq_some_iff.mp hTrue]
    exact .boolTrue
  split at h
  · rename_i hFalse
    cases h
    rw [consume_eq_some_iff.mp hFalse]
    exact .boolFalse
  obtain ⟨⟨literal, rest'⟩, hNumber, hPair⟩ := Option.map_eq_some_iff.mp h
  cases hPair
  obtain ⟨hLiteral, hEnds, rfl⟩ := number_sound hNumber
  exact .number hLiteral hEnds

/-- Whatever the functions of the parser find with `fuel`, the grammar derives. -/
structure Sound (fuel : Nat) : Prop where
  value : ∀ {input rest : Bytes} {v : Value}, value fuel input = some (v, rest) → Reads (.value v) input rest
  items : ∀ {input rest : Bytes} {found : List Value}, items fuel input = some (found, rest) →
    Reads (.items found) input rest
  moreItems : ∀ {input rest : Bytes} {found : List Value}, moreItems fuel input = some (found, rest) →
    Reads (.moreItems found) input rest
  members : ∀ {input rest : Bytes} {found : List (Bytes × Value)}, members fuel input = some (found, rest) →
    Reads (.members found) input rest
  moreMembers : ∀ {input rest : Bytes} {found : List (Bytes × Value)}, moreMembers fuel input = some (found, rest) →
    Reads (.moreMembers found) input rest

namespace Sound

variable {fuel : Nat} {input rest : Bytes}

theorem value_next {v : Value} (ih : Sound fuel) (h : Json.value (fuel + 1) input = some (v, rest)) :
    Reads (.value v) input rest := by
  cases input with
  | nil => cases h
  | cons c input =>
    obtain ⟨gap, hGap, hInput⟩ := exists_gap input
    rw [Json.value] at h
    split at h
    · rename_i hBrace
      rw [hBrace]
      split at h
      · rename_i hEmpty
        cases h
        rw [hInput, hEmpty]
        exact .emptyObject hGap
      · obtain ⟨⟨found, rest'⟩, hMembers, hPair⟩ := Option.map_eq_some_iff.mp h
        cases hPair
        exact .object (ih.members hMembers)
    · split at h
      · rename_i hBracket
        rw [hBracket]
        split at h
        · rename_i hEmpty
          cases h
          rw [hInput, hEmpty]
          exact .emptyArray hGap
        · obtain ⟨⟨found, rest'⟩, hItems, hPair⟩ := Option.map_eq_some_iff.mp h
          cases hPair
          exact .array (ih.items hItems)
      · split at h
        · rename_i hQuote
          rw [hQuote]
          obtain ⟨⟨raw, rest'⟩, hRaw, hPair⟩ := Option.map_eq_some_iff.mp h
          cases hPair
          obtain ⟨hChars, rfl⟩ := chars_sound hRaw
          exact .string hChars
        · exact scalar_sound h

theorem items_next {found : List Value} (ih : Sound fuel) (h : Json.items (fuel + 1) input = some (found, rest)) :
    Reads (.items found) input rest := by
  obtain ⟨gap, hGap, hInput⟩ := exists_gap input
  simp only [Json.items, Option.bind_eq_bind, Option.bind_eq_some_iff, Prod.exists, Option.pure_def,
    Option.some.injEq, Prod.mk.injEq] at h
  obtain ⟨v, middle, hValue, more, rest', hMore, rfl, rfl⟩ := h
  rw [hInput]
  exact .items hGap (ih.value hValue) (ih.moreItems hMore)

theorem moreItems_next {found : List Value} (ih : Sound fuel)
    (h : Json.moreItems (fuel + 1) input = some (found, rest)) : Reads (.moreItems found) input rest := by
  obtain ⟨gap, hGap, hInput⟩ := exists_gap input
  rw [Json.moreItems] at h
  split at h
  · rename_i hEnd
    cases h
    rw [hInput, hEnd]
    exact .endItems hGap
  · rename_i hComma
    rw [hInput, hComma]
    exact .moreItems hGap (ih.items h)
  · cases h

theorem members_next {found : List (Bytes × Value)} (ih : Sound fuel)
    (h : Json.members (fuel + 1) input = some (found, rest)) : Reads (.members found) input rest := by
  simp only [Json.members, Option.bind_eq_bind, Option.bind_eq_some_iff, Prod.exists, Option.pure_def,
    Option.some.injEq, Prod.mk.injEq] at h
  obtain ⟨opened, hOpen, name, named, hName, colon, hColon, v, middle, hValue, more, rest', hMore, rfl, rfl⟩ := h
  obtain ⟨gap, hGap, hInput⟩ := exists_gap input
  obtain ⟨gapBefore, hBefore, hNamed⟩ := exists_gap named
  obtain ⟨gapAfter, hAfter, hColoned⟩ := exists_gap colon
  obtain ⟨hChars, hOpened⟩ := chars_sound hName
  rw [consume_eq_some_iff, List.singleton_append] at hOpen hColon
  rw [hInput, hOpen, hOpened, hNamed, hColon, hColoned]
  exact .members hGap hChars hBefore hAfter (ih.value hValue) (ih.moreMembers hMore)

theorem moreMembers_next {found : List (Bytes × Value)} (ih : Sound fuel)
    (h : Json.moreMembers (fuel + 1) input = some (found, rest)) : Reads (.moreMembers found) input rest := by
  obtain ⟨gap, hGap, hInput⟩ := exists_gap input
  rw [Json.moreMembers] at h
  split at h
  · rename_i hEnd
    cases h
    rw [hInput, hEnd]
    exact .endMembers hGap
  · rename_i hComma
    rw [hInput, hComma]
    exact .moreMembers hGap (ih.members h)
  · cases h

end Sound

theorem sound (fuel : Nat) : Sound fuel := by
  induction fuel with
  | zero => constructor <;> intros <;> contradiction
  | succ fuel ih =>
    exact ⟨ih.value_next, ih.items_next, ih.moreItems_next, ih.members_next, ih.moreMembers_next⟩

/-! ## Every phrase is found -/

theorem isNumber_cons {literal : Bytes} (h : isNumber literal = true) :
    ∃ c rest, literal = c :: rest ∧ NumberState.isPart c = true := by
  cases literal with
  | nil => cases h
  | cons c rest => exact ⟨c, rest, rfl, isPart_of_isNumber h c List.mem_cons_self⟩

theorem Reads.length_lt {phrase : Phrase} {input rest : Bytes} (h : Reads phrase input rest) :
    rest.length < input.length := by
  induction h with
  | number hNumber =>
    obtain ⟨c, more, rfl, _⟩ := isNumber_cons hNumber
    simp only [List.cons_append, List.length_cons, List.length_append]
    omega
  | null | boolTrue | boolFalse =>
    simp only [nullToken, trueToken, falseToken, List.length_append, List.length_cons, List.length_nil]
    omega
  | string | emptyArray | endItems | emptyObject | endMembers =>
    simp only [List.length_append, List.length_cons]
    omega
  | array _ ih | moreItems _ _ ih | object _ ih | moreMembers _ _ ih =>
    simp only [List.length_append, List.length_cons]
    omega
  | items _ _ _ ihValue ihMore | members _ _ _ _ _ _ ihValue ihMore =>
    simp only [List.length_append, List.length_cons]
    omega

/-- What a value cannot begin with. -/
theorem isPart_apart {c : UInt8} (h : NumberState.isPart c = true) :
    isSpace c = false ∧ c ≠ 93 ∧ c ≠ 123 ∧ c ≠ 91 ∧ c ≠ 34 ∧ c ≠ 110 ∧ c ≠ 116 ∧ c ≠ 102 := by
  refine ⟨?_, ?_, ?_, ?_, ?_, ?_, ?_, ?_⟩
  · by_contra hSpace
    simp only [isSpace, Bool.or_eq_true, decide_eq_true_eq, Bool.not_eq_false] at hSpace
    rcases hSpace with ((rfl | rfl) | rfl) | rfl <;> exact absurd h (by decide)
  all_goals
    rintro rfl
    exact absurd h (by decide)

theorem Reads.head {v : Value} {input rest : Bytes} (h : Reads (.value v) input rest) :
    ∃ c more, input = c :: more ∧ isSpace c = false ∧ c ≠ 93 := by
  cases h with
  | null | boolTrue | boolFalse | string | emptyArray | array | emptyObject | object =>
    exact ⟨_, _, rfl, by decide, by decide⟩
  | number hNumber =>
    obtain ⟨c, more, rfl, hPart⟩ := isNumber_cons hNumber
    exact ⟨c, _, rfl, (isPart_apart hPart).1, (isPart_apart hPart).2.1⟩

theorem isPart_graphic {c : UInt8} (h : NumberState.isPart c = true) : 33 ≤ c.toNat ∧ c.toNat ≤ 126 := by
  simp only [NumberState.isPart, NumberState.isDigit, NumberState.isE, Bool.or_eq_true, Bool.and_eq_true,
    decide_eq_true_eq, UInt8.le_iff_toNat_le] at h
  rcases h with ((((⟨hLow, hHigh⟩ | (rfl | rfl)) | rfl) | rfl) | rfl)
  · exact ⟨Nat.le_trans (by decide) hLow, Nat.le_trans hHigh (by decide)⟩
  all_goals decide

theorem Reads.head_graphic {v : Value} {c : UInt8} {more rest : Bytes} (h : Reads (.value v) (c :: more) rest) :
    33 ≤ c.toNat ∧ c.toNat ≤ 126 := by
  generalize hText : c :: more = text at h
  cases h with
  | null | boolTrue | boolFalse | string | emptyArray | array | emptyObject | object =>
    cases hText
    decide
  | number hNumber =>
    obtain ⟨c, more, rfl, hPart⟩ := isNumber_cons hNumber
    cases hText
    exact isPart_graphic hPart

theorem Reads.skip {v : Value} {gap input rest : Bytes} (h : Reads (.value v) input rest) (hGap : Space gap) :
    skipSpace (gap ++ input) = input := by
  obtain ⟨c, more, rfl, hSpace, _⟩ := h.head
  rw [skipSpace_append hGap, skipSpace_cons hSpace]

theorem Reads.skip_items {found : List Value} {input rest : Bytes} (h : Reads (.items found) input rest) :
    ∃ c more, skipSpace input = c :: more ∧ c ≠ 93 := by
  cases h with
  | items hGap hValue _ =>
    obtain ⟨c, more, hInput, _, hOther⟩ := hValue.head
    exact ⟨c, more, (hValue.skip hGap).trans hInput, hOther⟩

theorem Reads.skip_members {found : List (Bytes × Value)} {input rest : Bytes}
    (h : Reads (.members found) input rest) : ∃ more, skipSpace input = 34 :: more := by
  cases h with
  | members hGap _ _ _ _ _ => exact ⟨_, (skipSpace_append hGap).trans (skipSpace_cons (by decide))⟩

theorem scalar_number {literal rest : Bytes} (hNumber : isNumber literal = true) (hEnds : Ends rest) :
    scalar (literal ++ rest) = some (.number literal, rest) := by
  have hApart (b : UInt8) (token : Bytes) (hb : NumberState.isPart b = false) :
      consume (b :: token) (literal ++ rest) = none := by
    obtain ⟨c, more, rfl, hPart⟩ := isNumber_cons hNumber
    have hNe : b ≠ c := by
      rintro rfl
      cases hb.symm.trans hPart
    rw [List.cons_append, consume, if_neg hNe]
  rw [scalar, nullToken, trueToken, falseToken, hApart 110 _ (by decide), hApart 116 _ (by decide),
    hApart 102 _ (by decide), number_complete hNumber hEnds]
  rfl

def Phrase.weight : Phrase → Nat
  | .items _ => 1
  | _ => 0

/-- The function for the phrase finds it. -/
def Parsed (fuel : Nat) (input rest : Bytes) : Phrase → Prop
  | .value v => value fuel input = some (v, rest)
  | .items found => items fuel input = some (found, rest)
  | .moreItems found => moreItems fuel input = some (found, rest)
  | .members found => members fuel input = some (found, rest)
  | .moreMembers found => moreMembers fuel input = some (found, rest)

theorem value_scalar {fuel : Nat} {c : UInt8} {input : Bytes} (h : c ≠ 123 ∧ c ≠ 91 ∧ c ≠ 34) :
    value (fuel + 1) (c :: input) = scalar (c :: input) := by
  rw [value, if_neg h.1, if_neg h.2.1, if_neg h.2.2]

theorem Parsed.of_succ {n : Nat} {input rest : Bytes} {phrase : Phrase}
    (h : ∀ fuel, n ≤ fuel → Parsed (fuel + 1) input rest phrase) : ∀ fuel, n < fuel → Parsed fuel input rest phrase
  | fuel + 1, hFuel => h fuel (Nat.le_of_lt_succ hFuel)

theorem Reads.complete {phrase : Phrase} {input rest : Bytes} (h : Reads phrase input rest) :
    ∀ fuel, 2 * input.length + phrase.weight < fuel → Parsed fuel input rest phrase := by
  induction h with
  | null | boolTrue | boolFalse =>
    refine Parsed.of_succ fun fuel hFuel => ?_
    exact (value_scalar (by decide)).trans rfl
  | number hNumber hEnds =>
    refine Parsed.of_succ fun fuel hFuel => ?_
    have hScalar := scalar_number hNumber hEnds
    obtain ⟨c, more, rfl, hPart⟩ := isNumber_cons hNumber
    obtain ⟨_, _, hBrace, hBracket, hQuote, _⟩ := isPart_apart hPart
    exact (value_scalar ⟨hBrace, hBracket, hQuote⟩).trans hScalar
  | string hChars =>
    refine Parsed.of_succ fun fuel hFuel => ?_
    rw [Parsed, value, if_neg (by decide), if_neg (by decide), if_pos rfl, chars_complete hChars]
    rfl
  | emptyArray hGap =>
    refine Parsed.of_succ fun fuel hFuel => ?_
    rw [Parsed, value, if_neg (by decide), if_pos rfl, skipSpace_append hGap, skipSpace_cons (by decide)]
    rfl
  | array hItems ih =>
    refine Parsed.of_succ fun fuel hFuel => ?_
    obtain ⟨c, more, hSkip, hOther⟩ := hItems.skip_items
    have hFound := ih fuel (by simp only [List.length_cons, Phrase.weight] at hFuel ⊢; omega)
    simp only [Parsed] at hFound ⊢
    rw [value, if_neg (by decide), if_pos rfl, hSkip, hFound]
    split
    · rename_i hEmpty
      exact absurd (List.cons.inj hEmpty).1 hOther
    · rfl
  | items hGap hValue hMore ihValue ihMore =>
    refine Parsed.of_succ fun fuel hFuel => ?_
    have hShorter := hValue.length_lt
    simp only [List.length_append, Phrase.weight] at hFuel
    have hFirst := ihValue fuel (by simp only [Phrase.weight]; omega)
    have hRest := ihMore fuel (by simp only [Phrase.weight]; omega)
    simp only [Parsed] at hFirst hRest ⊢
    rw [Json.items, hValue.skip hGap, hFirst]
    simp [hRest]
  | endItems hGap =>
    refine Parsed.of_succ fun fuel hFuel => ?_
    rw [Parsed, Json.moreItems, skipSpace_append hGap, skipSpace_cons (by decide)]
    rfl
  | moreItems hGap hItems ih =>
    refine Parsed.of_succ fun fuel hFuel => ?_
    simp only [List.length_append, List.length_cons, Phrase.weight] at hFuel
    have hFound := ih fuel (by simp only [Phrase.weight]; omega)
    simp only [Parsed] at hFound ⊢
    rw [Json.moreItems, skipSpace_append hGap, skipSpace_cons (by decide)]
    exact hFound
  | emptyObject hGap =>
    refine Parsed.of_succ fun fuel hFuel => ?_
    rw [Parsed, value, if_pos rfl, skipSpace_append hGap, skipSpace_cons (by decide)]
    rfl
  | object hMembers ih =>
    refine Parsed.of_succ fun fuel hFuel => ?_
    obtain ⟨more, hSkip⟩ := hMembers.skip_members
    have hFound := ih fuel (by simp only [List.length_cons, Phrase.weight] at hFuel ⊢; omega)
    simp only [Parsed] at hFound ⊢
    rw [value, if_pos rfl, hSkip, hFound]
    rfl
  | members hGap hName hBefore hAfter hValue hMore ihValue ihMore =>
    refine Parsed.of_succ fun fuel hFuel => ?_
    have hShorter := hValue.length_lt
    simp only [List.length_append, List.length_cons, Phrase.weight] at hFuel
    have hFirst := ihValue fuel (by simp only [Phrase.weight]; omega)
    have hRest := ihMore fuel (by simp only [Phrase.weight]; omega)
    simp only [Parsed] at hFirst hRest ⊢
    simp only [Json.members, skipSpace_append hGap, skipSpace_cons (show isSpace 34 = false by decide),
      consume_cons, chars_complete hName, skipSpace_append hBefore,
      skipSpace_cons (show isSpace 58 = false by decide), hValue.skip hAfter, hFirst, hRest, Option.bind_eq_bind,
      Option.bind_some]
    rfl
  | endMembers hGap =>
    refine Parsed.of_succ fun fuel hFuel => ?_
    rw [Parsed, Json.moreMembers, skipSpace_append hGap, skipSpace_cons (by decide)]
    rfl
  | moreMembers hGap hMembers ih =>
    refine Parsed.of_succ fun fuel hFuel => ?_
    simp only [List.length_append, List.length_cons, Phrase.weight] at hFuel
    have hFound := ih fuel (by simp only [Phrase.weight]; omega)
    simp only [Parsed] at hFound ⊢
    rw [Json.moreMembers, skipSpace_append hGap, skipSpace_cons (by decide)]
    exact hFound

/-- The parser finds the value that the grammar reads from the front of the input, and no other. -/
theorem parse_eq_some_iff {input rest : Bytes} {v : Value} :
    parse input = some (v, rest) ↔ Reads (.value v) input rest := by
  constructor
  · exact (sound _).value
  · intro h
    exact h.complete _ (Nat.lt_succ_self _)

end Json
