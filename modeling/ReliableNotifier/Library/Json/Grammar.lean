import Mathlib.Tactic.Common

/-! # The JSON grammar over bytes

`Reads` says which bytes spell which value and what is left behind it. Names, strings and
numbers keep their spelling, so that a decoder can give them a meaning. The scanners of
strings and numbers find the one spelling that the grammar allows.
-/

namespace Json

abbrev Bytes := List UInt8

/-! ## Space -/

def isSpace (c : UInt8) : Bool := c = 32 || c = 9 || c = 10 || c = 13

def Space (gap : Bytes) : Prop := ∀ c ∈ gap, isSpace c = true

def skipSpace (input : Bytes) : Bytes := input.dropWhile isSpace

theorem exists_gap (input : Bytes) : ∃ gap, Space gap ∧ input = gap ++ skipSpace input :=
  ⟨input.takeWhile isSpace, List.all_eq_true.mp List.all_takeWhile, List.takeWhile_append_dropWhile.symm⟩

theorem skipSpace_append {gap rest : Bytes} (h : Space gap) : skipSpace (gap ++ rest) = skipSpace rest :=
  List.dropWhile_append_of_pos h

theorem skipSpace_cons {c : UInt8} {rest : Bytes} (h : isSpace c = false) : skipSpace (c :: rest) = c :: rest :=
  List.dropWhile_cons_of_neg (by simp [h])

/-! ## Tokens -/

def consume : Bytes → Bytes → Option Bytes
  | [], input => some input
  | _ :: _, [] => none
  | b :: token, c :: input => if b = c then consume token input else none

theorem consume_eq_some_iff {token input rest : Bytes} :
    consume token input = some rest ↔ input = token ++ rest := by
  induction token generalizing input with
  | nil => simp [consume]
  | cons b token ih =>
    cases input with
    | nil => simp [consume]
    | cons c input =>
      by_cases hSame : b = c
      · simp [consume, hSame, ih]
      · simp [consume, hSame, Ne.symm hSame]

theorem consume_cons (c : UInt8) (rest : Bytes) : consume [c] (c :: rest) = some rest :=
  consume_eq_some_iff.mpr rfl

/-! ## Strings -/

def isHex (c : UInt8) : Bool := 48 ≤ c && c ≤ 57 || 97 ≤ c && c ≤ 102 || 65 ≤ c && c ≤ 70

/-- What may follow a backslash, the letter `u` apart. -/
def isEscape (c : UInt8) : Bool :=
  c = 34 || c = 92 || c = 47 || c = 98 || c = 102 || c = 110 || c = 114 || c = 116

def isPlain (c : UInt8) : Bool := 32 ≤ c && c ≠ 34 && c ≠ 92

/-- What may stand between the quotes. -/
inductive Chars : Bytes → Prop
  | nil : Chars []
  | plain {c : UInt8} {rest : Bytes} (hc : isPlain c = true) (h : Chars rest) : Chars (c :: rest)
  | escape {c : UInt8} {rest : Bytes} (hc : isEscape c = true) (h : Chars rest) : Chars (92 :: c :: rest)
  | unicode {a b c d : UInt8} {rest : Bytes} (ha : isHex a = true) (hb : isHex b = true) (hc : isHex c = true)
      (hd : isHex d = true) (h : Chars rest) : Chars (92 :: 117 :: a :: b :: c :: d :: rest)

/-- The spelling up to the closing quote, and what follows the quote. -/
def chars : Bytes → Option (Bytes × Bytes)
  | 34 :: input => some ([], input)
  | 92 :: 117 :: a :: b :: c :: d :: input =>
    if isHex a && isHex b && isHex c && isHex d then
      (chars input).map fun (raw, rest) => (92 :: 117 :: a :: b :: c :: d :: raw, rest)
    else none
  | 92 :: c :: input => if isEscape c then (chars input).map fun (raw, rest) => (92 :: c :: raw, rest) else none
  | c :: input => if isPlain c then (chars input).map fun (raw, rest) => (c :: raw, rest) else none
  | [] => none

theorem chars_sound {input raw rest : Bytes} (h : chars input = some (raw, rest)) :
    Chars raw ∧ input = raw ++ 34 :: rest := by
  fun_induction chars input generalizing raw with
  | case1 input =>
    cases h
    exact ⟨.nil, rfl⟩
  | case2 a b c d input hHex ih =>
    obtain ⟨⟨raw', rest'⟩, hRest, hPair⟩ := Option.map_eq_some_iff.mp h
    cases hPair
    obtain ⟨hChars, rfl⟩ := ih hRest
    simp only [Bool.and_eq_true] at hHex
    exact ⟨.unicode hHex.1.1.1 hHex.1.1.2 hHex.1.2 hHex.2 hChars, rfl⟩
  | case3 => cases h
  | case4 c input _ hEscape ih =>
    obtain ⟨⟨raw', rest'⟩, hRest, hPair⟩ := Option.map_eq_some_iff.mp h
    cases hPair
    obtain ⟨hChars, rfl⟩ := ih hRest
    exact ⟨.escape hEscape hChars, rfl⟩
  | case5 => cases h
  | case6 c input _ _ _ hPlain ih =>
    obtain ⟨⟨raw', rest'⟩, hRest, hPair⟩ := Option.map_eq_some_iff.mp h
    cases hPair
    obtain ⟨hChars, rfl⟩ := ih hRest
    exact ⟨.plain hPlain hChars, rfl⟩
  | case7 => cases h
  | case8 => cases h

theorem chars_complete {raw : Bytes} (h : Chars raw) (rest : Bytes) :
    chars (raw ++ 34 :: rest) = some (raw, rest) := by
  induction h with
  | nil => rfl
  | plain hc _ ih =>
    have hPlain := hc
    simp only [isPlain, Bool.and_eq_true, decide_eq_true_eq] at hPlain
    simp [chars, hPlain.1.2, hPlain.2, hc, ih]
  | @escape c raw hc _ ih =>
    have hNot : c ≠ 117 := by
      rintro rfl
      exact absurd hc (by decide)
    simp [chars, hNot, hc, ih]
  | unicode ha hb hc hd _ ih => simp [chars, ha, hb, hc, hd, ih]

/-! ## Numbers -/

inductive NumberState where
  | begin | neg | zero | digits | dot | fraction | e | sign | exponent
  deriving DecidableEq

namespace NumberState

def isDigit (c : UInt8) : Bool := 48 ≤ c && c ≤ 57

def isE (c : UInt8) : Bool := c = 101 || c = 69

def step (state : NumberState) (c : UInt8) : Option NumberState :=
  match state with
  | begin => if c = 45 then some neg else if c = 48 then some zero else if isDigit c then some digits else none
  | neg => if c = 48 then some zero else if isDigit c then some digits else none
  | zero => if c = 46 then some dot else if isE c then some e else none
  | digits => if isDigit c then some digits else if c = 46 then some dot else if isE c then some e else none
  | dot => if isDigit c then some fraction else none
  | fraction => if isDigit c then some fraction else if isE c then some e else none
  | e => if c = 43 || c = 45 then some sign else if isDigit c then some exponent else none
  | sign => if isDigit c then some exponent else none
  | exponent => if isDigit c then some exponent else none

def accepting : NumberState → Bool
  | zero | digits | fraction | exponent => true
  | _ => false

def isPart (c : UInt8) : Bool := isDigit c || isE c || c = 43 || c = 45 || c = 46

theorem step_eq_none {state : NumberState} {c : UInt8} (h : isPart c = false) : state.step c = none := by
  simp only [isPart, Bool.or_eq_false_iff, decide_eq_false_iff_not] at h
  obtain ⟨⟨⟨⟨hDigit, hE⟩, hPlus⟩, hMinus⟩, hDot⟩ := h
  have hZero : c ≠ 48 := by
    rintro rfl
    exact absurd hDigit (by decide)
  cases state <;> simp [step, hDigit, hE, hPlus, hMinus, hDot, hZero]

end NumberState

open NumberState in
def isNumber (literal : Bytes) : Bool := (literal.foldlM step begin).any accepting

open NumberState in
theorem isPart_of_isNumber {literal : Bytes} (h : isNumber literal = true) : ∀ c ∈ literal, isPart c = true := by
  have hRun (state : NumberState) (h : (literal.foldlM step state).isSome = true) :
      ∀ c ∈ literal, isPart c = true := by
    clear * - h
    induction literal generalizing state with
    | nil => exact List.forall_mem_nil _
    | cons c rest ih =>
      rw [List.foldlM_cons] at h
      cases hStep : state.step c with
      | none => simp [hStep] at h
      | some next =>
        rw [hStep] at h
        refine List.forall_mem_cons.mpr ⟨?_, ih next h⟩
        by_contra hPart
        cases hStep.symm.trans (step_eq_none (Bool.eq_false_iff.mpr hPart))
  refine hRun begin ?_
  obtain ⟨last, hLast, _⟩ := (Option.any_eq_true _ _).mp h
  rw [hLast]
  rfl

/-- No byte of a number stands at the front. -/
def Ends (rest : Bytes) : Prop := ∀ c ∈ rest.head?, NumberState.isPart c = false

open NumberState in
def number (input : Bytes) : Option (Bytes × Bytes) :=
  if isNumber (input.takeWhile isPart) then some (input.takeWhile isPart, input.dropWhile isPart) else none

theorem number_sound {input literal rest : Bytes} (h : number input = some (literal, rest)) :
    isNumber literal = true ∧ Ends rest ∧ input = literal ++ rest := by
  unfold number at h
  split at h
  · rename_i hNumber
    cases h
    refine ⟨hNumber, fun c hc => ?_, List.takeWhile_append_dropWhile.symm⟩
    have hHead := List.head?_dropWhile_not NumberState.isPart input
    rw [hc] at hHead
    simpa using hHead
  · cases h

theorem number_complete {literal rest : Bytes} (hNumber : isNumber literal = true) (hEnds : Ends rest) :
    number (literal ++ rest) = some (literal, rest) := by
  have hParts := isPart_of_isNumber hNumber
  have hTake : rest.takeWhile NumberState.isPart = [] ∧ rest.dropWhile NumberState.isPart = rest := by
    cases rest with
    | nil => exact ⟨rfl, rfl⟩
    | cons c rest =>
      have hEnd := hEnds c rfl
      simp [hEnd]
  rw [number, List.takeWhile_append_of_pos hParts, List.dropWhile_append_of_pos hParts, hTake.1, hTake.2,
    List.append_nil, if_pos hNumber]

/-! ## Values -/

def nullToken : Bytes := [110, 117, 108, 108]

def trueToken : Bytes := [116, 114, 117, 101]

def falseToken : Bytes := [102, 97, 108, 115, 101]

inductive Value where
  | null
  | bool (value : Bool)
  | number (literal : Bytes)
  | string (raw : Bytes)
  | array (items : List Value)
  | object (members : List (Bytes × Value))

/-- What the productions of the grammar derive: a value, or the rest of an array or object behind its bracket,
behind a comma, or behind one of its parts. -/
inductive Phrase where
  | value (v : Value)
  | items (items : List Value)
  | moreItems (items : List Value)
  | members (members : List (Bytes × Value))
  | moreMembers (members : List (Bytes × Value))

/-- The input spells the phrase, and `rest` is what follows it. -/
inductive Reads : Phrase → Bytes → Bytes → Prop
  | null {rest : Bytes} : Reads (.value .null) (nullToken ++ rest) rest
  | boolTrue {rest : Bytes} : Reads (.value (.bool true)) (trueToken ++ rest) rest
  | boolFalse {rest : Bytes} : Reads (.value (.bool false)) (falseToken ++ rest) rest
  | number {literal rest : Bytes} (hNumber : isNumber literal = true) (hEnds : Ends rest) :
      Reads (.value (.number literal)) (literal ++ rest) rest
  | string {raw rest : Bytes} (hChars : Chars raw) : Reads (.value (.string raw)) (34 :: (raw ++ 34 :: rest)) rest
  | emptyArray {gap rest : Bytes} (hGap : Space gap) : Reads (.value (.array [])) (91 :: (gap ++ 93 :: rest)) rest
  | array {items : List Value} {input rest : Bytes} (h : Reads (.items items) input rest) :
      Reads (.value (.array items)) (91 :: input) rest
  | items {v : Value} {items : List Value} {gap input middle rest : Bytes} (hGap : Space gap)
      (hValue : Reads (.value v) input middle) (hMore : Reads (.moreItems items) middle rest) :
      Reads (.items (v :: items)) (gap ++ input) rest
  | endItems {gap rest : Bytes} (hGap : Space gap) : Reads (.moreItems []) (gap ++ 93 :: rest) rest
  | moreItems {items : List Value} {gap input rest : Bytes} (hGap : Space gap) (h : Reads (.items items) input rest) :
      Reads (.moreItems items) (gap ++ 44 :: input) rest
  | emptyObject {gap rest : Bytes} (hGap : Space gap) : Reads (.value (.object [])) (123 :: (gap ++ 125 :: rest)) rest
  | object {members : List (Bytes × Value)} {input rest : Bytes} (h : Reads (.members members) input rest) :
      Reads (.value (.object members)) (123 :: input) rest
  | members {name : Bytes} {v : Value} {members : List (Bytes × Value)}
      {gap gapBefore gapAfter input middle rest : Bytes} (hGap : Space gap) (hName : Chars name)
      (hBefore : Space gapBefore) (hAfter : Space gapAfter) (hValue : Reads (.value v) input middle)
      (hMore : Reads (.moreMembers members) middle rest) :
      Reads (.members ((name, v) :: members))
        (gap ++ 34 :: (name ++ 34 :: (gapBefore ++ 58 :: (gapAfter ++ input)))) rest
  | endMembers {gap rest : Bytes} (hGap : Space gap) : Reads (.moreMembers []) (gap ++ 125 :: rest) rest
  | moreMembers {members : List (Bytes × Value)} {gap input rest : Bytes} (hGap : Space gap)
      (h : Reads (.members members) input rest) : Reads (.moreMembers members) (gap ++ 44 :: input) rest

end Json
