import Mathlib.Algebra.Order.Ring.Int
import Mathlib.Tactic.IntervalCases
import ReliableNotifier.Library.Json.Grammar

/-! # Strings, names and integers of `encoding/json`

What Go makes of the spelling of a string or an integer, and how it spells them itself.
A Go string is a list of bytes. Reading replaces what is not UTF-8, so that only spellings
without escapes and without bytes beyond ASCII are certain to be kept.
-/

namespace Json

/-! ## UTF-8 -/

def isTail (c : UInt8) : Bool := 0x80 ≤ c && c ≤ 0xBF

/-- How many bytes of the input continue the rune that `a` begins; none if they are not UTF-8. -/
def continuation (a : UInt8) : Bytes → Nat
  | b :: c :: d :: _ =>
    if two a b then 1 else if three a b c then 2 else if four a b c d then 3 else 0
  | [b, c] => if two a b then 1 else if three a b c then 2 else 0
  | [b] => if two a b then 1 else 0
  | [] => 0
where
  two (a b : UInt8) : Bool := 0xC2 ≤ a && a ≤ 0xDF && isTail b
  three (a b c : UInt8) : Bool :=
    (a = 0xE0 && 0xA0 ≤ b && b ≤ 0xBF || 0xE1 ≤ a && a ≤ 0xEC && isTail b ||
      a = 0xED && 0x80 ≤ b && b ≤ 0x9F || 0xEE ≤ a && a ≤ 0xEF && isTail b) && isTail c
  four (a b c d : UInt8) : Bool :=
    (a = 0xF0 && 0x90 ≤ b && b ≤ 0xBF || 0xF1 ≤ a && a ≤ 0xF3 && isTail b ||
      a = 0xF4 && 0x80 ≤ b && b ≤ 0x8F) && isTail c && isTail d

/-- The bytes of the replacement rune. -/
def replacement : Bytes := [0xEF, 0xBF, 0xBD]

/-- `utf8.AppendRune`, for runes that are not surrogates. -/
def encodeRune (r : Nat) : Bytes :=
  if r < 0x80 then [.ofNat r]
  else if r < 0x800 then [.ofNat (0xC0 + r / 64), .ofNat (0x80 + r % 64)]
  else if r < 0x10000 then [.ofNat (0xE0 + r / 4096), .ofNat (0x80 + r / 64 % 64), .ofNat (0x80 + r % 64)]
  else [.ofNat (0xF0 + r / 262144), .ofNat (0x80 + r / 4096 % 64), .ofNat (0x80 + r / 64 % 64),
    .ofNat (0x80 + r % 64)]

/-! ## Reading a string -/

def hexValue (c : UInt8) : Nat :=
  if c ≤ 57 then c.toNat - 48 else if c ≤ 70 then c.toNat - 55 else c.toNat - 87

/-- `getu4` on the digits of an escape. -/
def getu4 (a b c d : UInt8) : Nat := ((hexValue a * 16 + hexValue b) * 16 + hexValue c) * 16 + hexValue d

def isSurrogate (r : Nat) : Bool := 0xD800 ≤ r && r < 0xE000

/-- `utf16.DecodeRune`, where the two escapes are a pair. -/
def surrogatePair (r s : Nat) : Option Nat :=
  if 0xD800 ≤ r ∧ r < 0xDC00 ∧ 0xDC00 ≤ s ∧ s < 0xE000 then some ((r - 0xD800) * 1024 + (s - 0xDC00) + 0x10000)
  else none

def unescape (c : UInt8) : UInt8 :=
  if c = 98 then 8 else if c = 102 then 12 else if c = 110 then 10 else if c = 114 then 13 else if c = 116 then 9
  else c

/-- The rune of the escape at the front, if it is the other half of the surrogate `r`. -/
def otherHalf (r : Nat) : Bytes → Option Nat
  | 92 :: 117 :: a :: b :: c :: d :: _ => surrogatePair r (getu4 a b c d)
  | _ => none

/-- What `unquoteBytes` writes for the escape, the rune or the stray byte that `c` begins, and how many of the
bytes behind it are used up. -/
def unquoteUnit (c : UInt8) (rest : Bytes) : Bytes × Nat :=
  if c = 92 then
    match rest with
    | 117 :: a :: b :: c :: d :: more =>
      if isSurrogate (getu4 a b c d) then
        match otherHalf (getu4 a b c d) more with
        | some r => (encodeRune r, 11)
        | none => (replacement, 5)
      else (encodeRune (getu4 a b c d), 5)
    | e :: _ => ([unescape e], 1)
    | [] => ([], 0)
  else if c < 0x80 then ([c], 0)
  else if continuation c rest = 0 then (replacement, 0)
  else (c :: rest.take (continuation c rest), continuation c rest)

/-- Writes a text anew, unit by unit. The count is of bytes that are used up already. -/
def transcribe (unit : UInt8 → Bytes → Bytes × Nat) : Nat → Bytes → Bytes
  | _, [] => []
  | used + 1, _ :: rest => transcribe unit used rest
  | 0, c :: rest => (unit c rest).1 ++ transcribe unit (unit c rest).2 rest

theorem transcribe_eq_self {unit : UInt8 → Bytes → Bytes × Nat} {raw : Bytes}
    (h : ∀ c ∈ raw, ∀ rest, unit c rest = ([c], 0)) : transcribe unit 0 raw = raw := by
  induction raw with
  | nil => rfl
  | cons c rest ih =>
    obtain ⟨hUnit, hRest⟩ := List.forall_mem_cons.mp h
    rw [transcribe, hUnit rest]
    exact congrArg (c :: ·) (ih hRest)

/-- `unquoteBytes`, on what stands between the quotes. -/
def unquote (raw : Bytes) : Bytes := transcribe unquoteUnit 0 raw

/-- The bytes that neither reading nor writing changes: ASCII without controls, quotes, backslashes and what is
special in HTML. -/
def isSafe (c : UInt8) : Bool := 32 ≤ c && c < 0x80 && c ≠ 34 && c ≠ 38 && c ≠ 60 && c ≠ 62 && c ≠ 92

theorem unquote_of_safe {raw : Bytes} (h : ∀ c ∈ raw, isSafe c = true) : unquote raw = raw := by
  refine transcribe_eq_self fun c hc rest => ?_
  have hSafe := h c hc
  simp only [isSafe, Bool.and_eq_true, decide_eq_true_eq] at hSafe
  simp [unquoteUnit, hSafe]

theorem chars_of_safe {raw : Bytes} (h : ∀ c ∈ raw, isSafe c = true) : Chars raw := by
  induction raw with
  | nil => exact .nil
  | cons c rest ih =>
    obtain ⟨hSafe, hRest⟩ := List.forall_mem_cons.mp h
    refine .plain ?_ (ih hRest)
    simp only [isSafe, Bool.and_eq_true, decide_eq_true_eq] at hSafe
    simp [isPlain, hSafe]

/-! ## Writing a string -/

def byte (c : Char) : UInt8 := .ofNat c.toNat

/-- The bytes of a text in ASCII. -/
def ascii (text : String) : Bytes := text.toList.map byte

/-- How `appendString` writes an ASCII byte that it does not keep. -/
def escapeByte (c : UInt8) : Bytes :=
  if c = 92 || c = 34 then [92, c]
  else if c = 8 then [92, 98]
  else if c = 12 then [92, 102]
  else if c = 10 then [92, 110]
  else if c = 13 then [92, 114]
  else if c = 9 then [92, 116]
  else [92, 117, 48, 48, byte (Nat.digitChar (c.toNat / 16)), byte (Nat.digitChar (c.toNat % 16))]

def quoteUnit (c : UInt8) (rest : Bytes) : Bytes × Nat :=
  if c < 0x80 then (if isSafe c then [c] else escapeByte c, 0)
  else if continuation c rest = 0 then (ascii "\\ufffd", 0)
  else if c = 0xE2 && rest.take 2 = [0x80, 0xA8] then (ascii "\\u2028", 2)
  else if c = 0xE2 && rest.take 2 = [0x80, 0xA9] then (ascii "\\u2029", 2)
  else (c :: rest.take (continuation c rest), continuation c rest)

/-- `appendString` with HTML escapes, as `json.Marshal` uses it. -/
def quote (text : Bytes) : Bytes := 34 :: (transcribe quoteUnit 0 text ++ [34])

theorem quote_of_safe {text : Bytes} (h : ∀ c ∈ text, isSafe c = true) : quote text = 34 :: (text ++ [34]) := by
  rw [quote, transcribe_eq_self]
  intro c hc rest
  have hSafe := h c hc
  have hSmall := hSafe
  simp only [isSafe, Bool.and_eq_true, decide_eq_true_eq] at hSmall
  simp [quoteUnit, hSafe, hSmall]

/-! ## Names -/

/-- `foldName`, as far as a name in ASCII can tell: two runes beyond ASCII fold into it, and the others fold
into each other. -/
def foldName : Bytes → Bytes
  | 0xC5 :: 0xBF :: rest => 83 :: foldName rest
  | 0xE2 :: 0x84 :: 0xAA :: rest => 75 :: foldName rest
  | c :: rest => (if 97 ≤ c && c ≤ 122 then c - 32 else c) :: foldName rest
  | [] => []

/-! ## Integers -/

def Digits (digits : Bytes) : Prop := digits ≠ [] ∧ ∀ c ∈ digits, NumberState.isDigit c = true

instance (digits : Bytes) : Decidable (Digits digits) := inferInstanceAs (Decidable (_ ∧ _))

def decimal (digits : Bytes) : Nat := digits.foldl (fun n c => 10 * n + (c.toNat - 48)) 0

/-- The literal is an integer, without fraction and exponent. -/
inductive Spells : Bytes → Int → Prop
  | plain {digits : Bytes} (hDigits : Digits digits) : Spells digits (decimal digits)
  | minus {digits : Bytes} (hDigits : Digits digits) : Spells (45 :: digits) (-(decimal digits : Int))

def natural (digits : Bytes) : Option Nat := if Digits digits then some (decimal digits) else none

theorem natural_eq_some_iff {digits : Bytes} {n : Nat} :
    natural digits = some n ↔ Digits digits ∧ decimal digits = n := by
  rw [natural, Option.ite_none_right_eq_some, Option.some_inj]

theorem Digits.ne_minus {digits : Bytes} : ¬Digits (45 :: digits) :=
  fun h => absurd (h.2 45 List.mem_cons_self) (by decide)

/-- `strconv.ParseInt` in base ten and 64 bits, on a number of the grammar, which has no plus sign. -/
def parseInt64 : Bytes → Option Int
  | 45 :: digits => (natural digits).bind fun n => if n ≤ 2 ^ 63 then some (-n) else none
  | digits => (natural digits).bind fun n => if n < 2 ^ 63 then some (n : Int) else none

theorem Spells.unique {literal : Bytes} {m n : Int} (hm : Spells literal m) (hn : Spells literal n) : m = n := by
  cases hm with
  | plain hDigits =>
    cases hn with
    | plain => rfl
    | minus => exact absurd hDigits Digits.ne_minus
  | minus =>
    cases hn with
    | plain hDigits => exact absurd hDigits Digits.ne_minus
    | minus => rfl

theorem parseInt64_eq_some_iff {literal : Bytes} {n : Int} :
    parseInt64 literal = some n ↔ Spells literal n ∧ -2 ^ 63 ≤ n ∧ n < 2 ^ 63 := by
  constructor
  · intro h
    unfold parseInt64 at h
    split at h
    · obtain ⟨k, hNatural, hBound⟩ := Option.bind_eq_some_iff.mp h
      obtain ⟨hDigits, rfl⟩ := natural_eq_some_iff.mp hNatural
      obtain ⟨hBound, rfl⟩ := Option.ite_none_right_eq_some.mp hBound |>.imp_right Option.some.inj
      exact ⟨.minus hDigits, by omega, by omega⟩
    · obtain ⟨k, hNatural, hBound⟩ := Option.bind_eq_some_iff.mp h
      obtain ⟨hDigits, rfl⟩ := natural_eq_some_iff.mp hNatural
      obtain ⟨hBound, rfl⟩ := Option.ite_none_right_eq_some.mp hBound |>.imp_right Option.some.inj
      exact ⟨.plain hDigits, by omega, by omega⟩
  · rintro ⟨hSpells, hLow, hHigh⟩
    cases hSpells with
    | @plain digits hDigits =>
      unfold parseInt64
      split
      · exact absurd hDigits Digits.ne_minus
      · rw [natural_eq_some_iff.mpr ⟨hDigits, rfl⟩]
        exact if_pos (by omega)
    | minus hDigits =>
      rw [parseInt64, natural_eq_some_iff.mpr ⟨hDigits, rfl⟩]
      exact if_pos (by omega)

/-- `strconv.AppendInt` in base ten. -/
def appendInt (n : Int) : Bytes :=
  if n < 0 then 45 :: (Nat.toDigits 10 n.natAbs).map byte else (Nat.toDigits 10 n.natAbs).map byte

theorem isDigit_digitChar : ∀ {d : Nat}, d < 10 → NumberState.isDigit (byte (Nat.digitChar d)) = true := by
  decide

theorem digits_toDigits (n : Nat) : Digits ((Nat.toDigits 10 n).map byte) := by
  induction n using Nat.strongRecOn with
  | ind n ih =>
    rw [Nat.toDigits_eq_if (by decide)]
    split
    · rename_i hSmall
      exact ⟨List.cons_ne_nil _ _, by simpa using isDigit_digitChar hSmall⟩
    · rw [List.map_append]
      refine ⟨by simp, fun c hc => ?_⟩
      rcases List.mem_append.mp hc with hOld | hLast
      · exact (ih (n / 10) (by omega)).2 c hOld
      · rw [List.mem_singleton.mp hLast]
        exact isDigit_digitChar (Nat.mod_lt n (by decide))

theorem decimal_toDigits (n : Nat) : decimal ((Nat.toDigits 10 n).map byte) = n := by
  have hDigit : ∀ {d : Nat}, d < 10 → (byte (Nat.digitChar d)).toNat - 48 = d := by
    decide
  induction n using Nat.strongRecOn with
  | ind n ih =>
    rw [Nat.toDigits_eq_if (by decide)]
    split
    · rename_i hSmall
      simpa [decimal] using hDigit hSmall
    · rw [List.map_append, decimal, List.foldl_append]
      rw [show List.foldl _ 0 _ = n / 10 from ih (n / 10) (by omega)]
      simp only [List.map_cons, List.map_nil, List.foldl_cons, List.foldl_nil, hDigit (Nat.mod_lt n (by decide))]
      omega

/-- A natural number is spelled without a leading zero. -/
theorem isNumber_toDigits (n : Nat) : isNumber ((Nat.toDigits 10 n).map byte) = true := by
  rcases Nat.eq_zero_or_pos n with rfl | hPos
  · decide
  have hRun : ((Nat.toDigits 10 n).map byte).foldlM NumberState.step .begin = some .digits := by
    induction n using Nat.strongRecOn with
    | ind n ih =>
      rw [Nat.toDigits_eq_if (by decide)]
      split
      · rename_i hSmall
        clear ih
        interval_cases n <;> decide
      · rw [List.map_append, List.foldlM_append, ih (n / 10) (by omega) (by omega)]
        simp [NumberState.step, isDigit_digitChar (Nat.mod_lt n (by decide))]
  rw [isNumber, hRun]
  rfl

theorem spells_toDigits (n : Nat) : Spells ((Nat.toDigits 10 n).map byte) n := by
  have hSpells := Spells.plain (digits_toDigits n)
  rwa [decimal_toDigits] at hSpells

theorem spells_appendInt (n : Int) : Spells (appendInt n) n := by
  unfold appendInt
  split
  · rename_i hNegative
    have hSpells := Spells.minus (digits_toDigits n.natAbs)
    rwa [decimal_toDigits, show -(n.natAbs : Int) = n by omega] at hSpells
  · rename_i hPositive
    have hSpells := spells_toDigits n.natAbs
    rwa [show (n.natAbs : Int) = n by omega] at hSpells

theorem appendInt_injective {m n : Int} (h : appendInt m = appendInt n) : m = n :=
  (spells_appendInt m).unique (h ▸ spells_appendInt n)

theorem length_toDigits_le (n : Nat) : (Nat.toDigits 10 n).length ≤ n + 1 := by
  induction n using Nat.strongRecOn with
  | ind n ih =>
    rw [Nat.toDigits_eq_if (by decide)]
    split
    · exact Nat.succ_le_succ (Nat.zero_le n)
    · have hPart := ih (n / 10) (by omega)
      rw [List.length_append, List.length_singleton]
      omega

theorem length_appendInt_le (n : Int) : (appendInt n).length ≤ n.natAbs + 2 := by
  have hDigits := length_toDigits_le n.natAbs
  unfold appendInt
  split
  · rw [List.length_cons, List.length_map]
    omega
  · rw [List.length_map]
    omega

theorem isNumber_appendInt (n : Nat) : isNumber (appendInt n) = true := isNumber_toDigits n

theorem parseInt64_appendInt {n : Nat} (h : n < 2 ^ 63) : parseInt64 (appendInt n) = some (n : Int) :=
  parseInt64_eq_some_iff.mpr ⟨spells_toDigits n, by omega, by omega⟩

end Json
