import Mathlib.Data.List.DropRight
import ReliableNotifier.Library.Json.Text

/-! # Strings of Go

A Go string is a list of bytes, and whatever ranges over one takes it apart into runes: the
spellings of UTF-8 and, one by one, the bytes that belong to none. The functions of package
`strings` that look at runes are given by this decomposition. A byte of ASCII is always a
rune of its own.
-/

namespace GoStrings

open Json

/-- Strings are compared byte by byte. -/
instance : Std.LawfulOrderLT Bytes := List.instLawfulOrderLTOfAsymmLt

/-! ## Runes -/

/-- The runes of a string, as their bytes. The count is of bytes that belong to the rune before. -/
def runes : Nat → Bytes → List Bytes
  | _, [] => []
  | used + 1, _ :: rest => runes used rest
  | 0, c :: rest => (c :: rest.take (continuation c rest)) :: runes (continuation c rest) rest

/-- The number of a rune. A byte that is not UTF-8 stands for the replacement rune. -/
def runeValue : Bytes → Nat
  | [a] => if a < 0x80 then a.toNat else 0xFFFD
  | [a, b] => a.toNat % 32 * 64 + b.toNat % 64
  | [a, b, c] => (a.toNat % 16 * 64 + b.toNat % 64) * 64 + c.toNat % 64
  | [a, b, c, d] => ((a.toNat % 8 * 64 + b.toNat % 64) * 64 + c.toNat % 64) * 64 + d.toNat % 64
  | _ => 0xFFFD

/-- `utf8.ValidString`. -/
def validString (s : Bytes) : Bool := (runes 0 s).all fun rune => 1 < rune.length || rune.all (· < 0x80)

/-- `strings.Map`, for a mapping that drops nothing. -/
def mapRunes (f : Char → Char) (s : Bytes) : Bytes :=
  (runes 0 s).flatMap fun rune => encodeRune (f (.ofNat (runeValue rune))).toNat

/-- `strings.TrimFunc`. -/
def trimFunc (p : Char → Bool) (s : Bytes) : Bytes :=
  let drops (rune : Bytes) : Bool := p (.ofNat (runeValue rune))
  (((runes 0 s).dropWhile drops).rdropWhile drops).flatten

/-- `strings.Trim`, for a cutset of ASCII. -/
def trim (p : UInt8 → Bool) (s : Bytes) : Bytes := (s.dropWhile p).rdropWhile p

theorem flatten_runes {used : Nat} {s : Bytes} : (runes used s).flatten = s.drop used := by
  induction s generalizing used with
  | nil => rw [List.drop_nil, runes, List.flatten_nil]
  | cons c rest ih =>
    cases used with
    | zero => rw [runes, List.flatten_cons, ih, List.cons_append, List.take_append_drop, List.drop_zero]
    | succ used => rw [runes, ih, List.drop_succ_cons]

theorem continuation_cases (a : UInt8) (rest : Bytes) :
    continuation a rest = 0 ∨
    (∃ b more, rest = b :: more ∧ continuation.two a b = true ∧ continuation a rest = 1) ∨
    (∃ b c more, rest = b :: c :: more ∧ continuation.three a b c = true ∧ continuation a rest = 2) ∨
    ∃ b c d more, rest = b :: c :: d :: more ∧ continuation.four a b c d = true ∧ continuation a rest = 3 := by
  fun_cases continuation a rest <;> simp_all

/-- The bytes that make up one rune. -/
inductive IsRune : Bytes → Prop
  | ascii {c : UInt8} (hc : c < 0x80) : IsRune [c]
  | stray {c : UInt8} (hc : 0x80 ≤ c) : IsRune [c]
  | two {a b : UInt8} (h : continuation.two a b = true) : IsRune [a, b]
  | three {a b c : UInt8} (h : continuation.three a b c = true) : IsRune [a, b, c]
  | four {a b c d : UInt8} (h : continuation.four a b c d = true) : IsRune [a, b, c, d]

theorem isRune_of_mem {used : Nat} {s rune : Bytes} (h : rune ∈ runes used s) : IsRune rune := by
  induction s generalizing used with
  | nil => cases h
  | cons a rest ih =>
    cases used with
    | succ used => exact ih h
    | zero =>
      rcases List.mem_cons.mp h with rfl | hRest
      · rcases continuation_cases a rest with hNone | ⟨b, more, rfl, hTwo, hWidth⟩ | ⟨b, c, more, rfl, hThree, hWidth⟩ |
          ⟨b, c, d, more, rfl, hFour, hWidth⟩
        · rw [hNone]
          rcases UInt8.lt_or_le a 0x80 with hAscii | hHigh
          · exact .ascii hAscii
          · exact .stray hHigh
        · exact hWidth ▸ .two hTwo
        · exact hWidth ▸ .three hThree
        · exact hWidth ▸ .four hFour
      · exact ih hRest

theorem IsRune.length_pos {rune : Bytes} (h : IsRune rune) : 0 < rune.length := by
  cases h <;> exact Nat.succ_pos _

/-- A rune is a byte of ASCII, or all its bytes and its number lie beyond ASCII. -/
theorem IsRune.ascii_or_high {rune : Bytes} (h : IsRune rune) :
    (∃ c, c < 0x80 ∧ rune = [c]) ∨ (∀ b ∈ rune, 0x80 ≤ b) ∧ 0x80 ≤ runeValue rune := by
  cases h with
  | ascii hc => exact .inl ⟨_, hc, rfl⟩
  | stray hc =>
    refine .inr ⟨fun b hb => List.mem_singleton.mp hb ▸ hc, ?_⟩
    rw [runeValue, if_neg (UInt8.not_lt.mpr hc)]
    decide
  | two h =>
    simp [continuation.two, isTail, UInt8.le_iff_toNat_le] at h
    simp [runeValue, UInt8.le_iff_toNat_le]
    omega
  | three h =>
    simp [continuation.three, isTail, UInt8.le_iff_toNat_le, ← UInt8.toNat_inj] at h
    simp [runeValue, UInt8.le_iff_toNat_le]
    omega
  | four h =>
    simp [continuation.four, isTail, UInt8.le_iff_toNat_le, ← UInt8.toNat_inj] at h
    simp [runeValue, UInt8.le_iff_toNat_le]
    omega

theorem IsRune.high {c b : UInt8} {tail : Bytes} (h : IsRune (c :: b :: tail)) : ∀ d ∈ c :: b :: tail, 0x80 ≤ d := by
  rcases h.ascii_or_high with ⟨_, _, hSingle⟩ | ⟨hHigh, _⟩
  · cases hSingle
  · exact hHigh

variable {s : Bytes}

theorem mem_runes_iff {c : UInt8} (hc : c < 0x80) : [c] ∈ runes 0 s ↔ c ∈ s := by
  have hFlat : (runes 0 s).flatten = s := flatten_runes
  constructor
  · intro h
    rw [← hFlat]
    exact List.mem_flatten.mpr ⟨[c], h, List.mem_singleton_self c⟩
  · intro h
    rw [← hFlat] at h
    obtain ⟨rune, hRune, hMem⟩ := List.mem_flatten.mp h
    rcases (isRune_of_mem hRune).ascii_or_high with ⟨d, _, rfl⟩ | ⟨hHigh, _⟩
    · rwa [List.mem_singleton.mp hMem]
    · exact absurd hc (UInt8.not_lt.mpr (hHigh c hMem))

/-- A test that passes every rune beyond ASCII is a test of the bytes of ASCII. -/
theorem forall_runes_iff {p : Nat → Prop} (hp : ∀ n, 0x80 ≤ n → p n) :
    (∀ rune ∈ runes 0 s, p (runeValue rune)) ↔ ∀ c ∈ s, c < 0x80 → p c.toNat := by
  constructor
  · intro h c hc hAscii
    have hValue := h [c] ((mem_runes_iff hAscii).mpr hc)
    rwa [runeValue, if_pos hAscii] at hValue
  · intro h rune hRune
    rcases (isRune_of_mem hRune).ascii_or_high with ⟨c, hAscii, rfl⟩ | ⟨_, hHigh⟩
    · rw [runeValue, if_pos hAscii]
      exact h c ((mem_runes_iff hAscii).mp hRune) hAscii
    · exact hp _ hHigh

/-- A test that no rune beyond ASCII passes leaves only bytes of ASCII. -/
theorem ascii_of_forall_runes {p : Nat → Prop} (hp : ∀ n, p n → n < 0x80)
    (h : ∀ rune ∈ runes 0 s, p (runeValue rune)) : ∀ c ∈ s, c < 0x80 ∧ p c.toNat := by
  intro c hc
  have hFlat : (runes 0 s).flatten = s := flatten_runes
  rw [← hFlat] at hc
  obtain ⟨rune, hRune, hMem⟩ := List.mem_flatten.mp hc
  have hValue := h rune hRune
  rcases (isRune_of_mem hRune).ascii_or_high with ⟨d, hAscii, rfl⟩ | ⟨_, hHigh⟩
  · cases List.mem_singleton.mp hMem
    rw [runeValue, if_pos hAscii] at hValue
    exact ⟨hAscii, hValue⟩
  · exact absurd (hp _ hValue) (Nat.not_lt.mpr hHigh)

theorem continuation_ascii {a : UInt8} (ha : a < 0x80) (rest : Bytes) : continuation a rest = 0 := by
  have hHigh {b : UInt8} {more : Bytes} (hRune : IsRune (a :: b :: more)) : 0x80 ≤ a :=
    hRune.high a List.mem_cons_self
  rcases continuation_cases a rest with hNone | ⟨b, more, rfl, hTwo, _⟩ | ⟨b, c, more, rfl, hThree, _⟩ |
    ⟨b, c, d, more, rfl, hFour, _⟩
  · exact hNone
  · exact absurd ha (UInt8.not_lt.mpr (hHigh (.two hTwo)))
  · exact absurd ha (UInt8.not_lt.mpr (hHigh (.three hThree)))
  · exact absurd ha (UInt8.not_lt.mpr (hHigh (.four hFour)))

theorem runes_ascii (h : ∀ c ∈ s, c < 0x80) : runes 0 s = s.map ([·]) := by
  induction s with
  | nil => rfl
  | cons c rest ih =>
    obtain ⟨hc, hRest⟩ := List.forall_mem_cons.mp h
    rw [runes, continuation_ascii hc, ih hRest, List.take_zero, List.map_cons]

/-! ## Trimming -/

theorem dropWhile_eq_self {α : Type} {p : α → Bool} {xs : List α} (h : ∀ x ∈ xs, p x = false) :
    xs.dropWhile p = xs := by
  cases xs with
  | nil => rfl
  | cons x rest => exact List.dropWhile_cons_of_neg (by simp [h x List.mem_cons_self])

theorem trimFunc_eq_self {p : Char → Bool} (h : ∀ rune ∈ runes 0 s, p (.ofNat (runeValue rune)) = false) :
    trimFunc p s = s := by
  have hBack := dropWhile_eq_self fun rune hRune => h rune (List.mem_reverse.mp hRune)
  rw [trimFunc, dropWhile_eq_self h, List.rdropWhile, hBack, List.reverse_reverse, flatten_runes, List.drop_zero]

theorem exists_trimFunc_append {p : Char → Bool} {c : UInt8} (hc : c < 0x80) (hKept : p (.ofNat c.toNat) = false)
    (rest : Bytes) : ∃ back, trimFunc p (c :: rest) ++ back = c :: rest := by
  have hRunes : runes 0 (c :: rest) = [c] :: runes 0 rest := by
    rw [runes, continuation_ascii hc, List.take_zero]
  have hFlat : (runes 0 (c :: rest)).flatten = c :: rest := flatten_runes
  obtain ⟨back, hBack⟩ := List.rdropWhile_prefix (fun rune => p (.ofNat (runeValue rune))) (runes 0 (c :: rest))
  refine ⟨back.flatten, ?_⟩
  rw [trimFunc, List.dropWhile_eq_self_iff.mpr, ← List.flatten_append, hBack, hFlat]
  intro _
  simp [hRunes, runeValue, hc, hKept]

theorem trim_sublist (p : UInt8 → Bool) (s : Bytes) : (trim p s).Sublist s :=
  ( List.rdropWhile_prefix p _).sublist.trans (List.dropWhile_sublist p)

theorem trim_trim (p : UInt8 → Bool) (s : Bytes) : trim p (trim p s) = trim p s := by
  have hFront : (trim p s).dropWhile p = trim p s := by
    cases hTrim : trim p s with
    | nil => rfl
    | cons c rest =>
      obtain ⟨more, hMore⟩ : c :: rest <+: s.dropWhile p := hTrim ▸ List.rdropWhile_prefix p _
      have hHead := List.head?_dropWhile_not p s
      rw [← hMore] at hHead
      exact List.dropWhile_cons_of_neg (by simpa using hHead)
  rw [trim, hFront]
  exact List.rdropWhile_idempotent p _

/-! ## Spelling runes -/

theorem encodeRune_ascii {r : Nat} (h : r < 0x80) : encodeRune r = [.ofNat r] := if_pos h

theorem encodeRune_high {r : Nat} (h : 0x80 ≤ r) (hr : r < 0x110000) : ∀ b ∈ encodeRune r, 0x80 ≤ b := by
  unfold encodeRune
  split
  · omega
  · split
    · simp [UInt8.le_iff_toNat_le]
      omega
    · split
      · simp [UInt8.le_iff_toNat_le]
        omega
      · simp [UInt8.le_iff_toNat_le]
        omega

theorem mem_encodeRune {c : UInt8} {r : Nat} (hc : c < 0x80) (hr : r < 0x110000) (h : c ∈ encodeRune r) :
    r < 0x80 ∧ c = .ofNat r := by
  rcases Nat.lt_or_ge r 0x80 with hAscii | hHigh
  · rw [encodeRune_ascii hAscii] at h
    exact ⟨hAscii, List.mem_singleton.mp h⟩
  · exact absurd hc (UInt8.not_lt.mpr (encodeRune_high hHigh hr c h))

/-! ## Texts -/

def utf8 (text : List Char) : Bytes := text.flatMap fun c => encodeRune c.toNat

theorem continuation_two {a b : UInt8} (h : continuation.two a b = true) (more : Bytes) :
    continuation a (b :: more) = 1 := by
  rcases more with _ | ⟨c, _ | ⟨d, more⟩⟩ <;> simp [continuation, h]

theorem continuation_three {a b c : UInt8} (h : continuation.three a b c = true) (more : Bytes) :
    continuation a (b :: c :: more) = 2 := by
  have hTwo : continuation.two a b = false := by
    simp [continuation.three, continuation.two, isTail, UInt8.le_iff_toNat_le, ← UInt8.toNat_inj] at h ⊢
    omega
  rcases more with _ | ⟨d, more⟩ <;> simp [continuation, h, hTwo]

theorem continuation_four {a b c d : UInt8} (h : continuation.four a b c d = true) (more : Bytes) :
    continuation a (b :: c :: d :: more) = 3 := by
  have hTwo : continuation.two a b = false := by
    simp [continuation.four, continuation.two, isTail, UInt8.le_iff_toNat_le, ← UInt8.toNat_inj] at h ⊢
    omega
  have hThree : continuation.three a b c = false := by
    simp [continuation.four, continuation.three, isTail, UInt8.le_iff_toNat_le, ← UInt8.toNat_inj] at h ⊢
    omega
  simp [continuation, h, hTwo, hThree]

theorem runes_append_of_isRune {rune : Bytes} (h : IsRune rune) (hStray : rune.length = 1 → ∀ c ∈ rune, c < 0x80)
    (rest : Bytes) : runes 0 (rune ++ rest) = rune :: runes 0 rest := by
  cases h with
  | ascii hc => simp [runes, continuation_ascii hc]
  | stray hc => exact absurd (hStray rfl _ List.mem_cons_self) (UInt8.not_lt.mpr hc)
  | two h => simp [runes, continuation_two h]
  | three h => simp [runes, continuation_three h]
  | four h => simp [runes, continuation_four h]

theorem encodeRune_spec (c : Char) : IsRune (encodeRune c.toNat) ∧ runeValue (encodeRune c.toNat) = c.toNat ∧
    ((encodeRune c.toNat).length = 1 → ∀ b ∈ encodeRune c.toNat, b < 0x80) := by
  have hValid : c.toNat < 0xD800 ∨ 0xDFFF < c.toNat ∧ c.toNat < 0x110000 := c.valid
  generalize c.toNat = r at hValid
  unfold encodeRune
  split
  · rename_i hAscii
    have hValue : (UInt8.ofNat r).toNat = r := UInt8.toNat_ofNat_of_lt (Nat.lt_trans hAscii (by decide))
    have hByte : UInt8.ofNat r < 0x80 := by rwa [UInt8.lt_iff_toNat_lt, hValue]
    refine ⟨.ascii hByte, ?_, fun _ b hb => List.mem_singleton.mp hb ▸ hByte⟩
    rw [runeValue, if_pos hByte, hValue]
  · split
    · refine ⟨.two ?_, ?_, ?_⟩
      · simp [continuation.two, isTail, UInt8.le_iff_toNat_le]
        omega
      · simp [runeValue]
        omega
      · simp
    · split
      · refine ⟨.three ?_, ?_, ?_⟩
        · simp [continuation.three, isTail, UInt8.le_iff_toNat_le, ← UInt8.toNat_inj]
          omega
        · simp [runeValue]
          omega
        · simp
      · refine ⟨.four ?_, ?_, ?_⟩
        · simp [continuation.four, isTail, UInt8.le_iff_toNat_le, ← UInt8.toNat_inj]
          omega
        · simp [runeValue]
          omega
        · simp

theorem ofNat_runeValue (c : Char) : Char.ofNat (runeValue (encodeRune c.toNat)) = c := by
  rw [(encodeRune_spec c).2.1, Char.ofNat_toNat]

theorem runes_utf8 (text : List Char) : runes 0 (utf8 text) = text.map fun c => encodeRune c.toNat := by
  induction text with
  | nil => rfl
  | cons c rest ih =>
    obtain ⟨hRune, _, hByte⟩ := encodeRune_spec c
    rw [utf8, List.flatMap_cons, runes_append_of_isRune hRune hByte, List.map_cons, ← ih, utf8]

theorem validString_utf8 (text : List Char) : validString (utf8 text) = true := by
  rw [validString, runes_utf8, List.all_map]
  refine List.all_eq_true.mpr fun c _ => ?_
  obtain ⟨hRune, _, hByte⟩ := encodeRune_spec c
  rcases Nat.lt_or_eq_of_le hRune.length_pos with hMany | hOne
  · exact Bool.or_eq_true_iff.mpr (.inl (decide_eq_true hMany))
  · refine Bool.or_eq_true_iff.mpr (.inr (List.all_eq_true.mpr fun b hb => ?_))
    exact decide_eq_true (hByte hOne.symm b hb)

theorem mapRunes_utf8 (f : Char → Char) (text : List Char) : mapRunes f (utf8 text) = utf8 (text.map f) := by
  rw [mapRunes, runes_utf8, utf8, List.flatMap_map, List.flatMap_map]
  simp only [ofNat_runeValue]

theorem trimFunc_utf8 (p : Char → Bool) (text : List Char) :
    trimFunc p (utf8 text) = utf8 ((text.dropWhile p).rdropWhile p) := by
  have hDrops : (fun rune => p (.ofNat (runeValue rune))) ∘ (fun c : Char => encodeRune c.toNat) = p :=
    funext fun c => congrArg p (ofNat_runeValue c)
  rw [trimFunc, runes_utf8, List.dropWhile_map, hDrops, List.rdropWhile, ← List.map_reverse, List.dropWhile_map, hDrops,
    ← List.map_reverse, utf8, List.flatMap_def, List.rdropWhile]

theorem toNat_ofNat {n : Nat} (h : n < 0x80) : (Char.ofNat n).toNat = n := by
  have hValid : n.isValidChar := .inl (Nat.lt_trans h (by decide))
  have hChar : Char.ofNat n = Char.ofNatAux n hValid := dif_pos hValid
  rw [hChar]
  rfl

theorem utf8_append (text text' : List Char) : utf8 (text ++ text') = utf8 text ++ utf8 text' := List.flatMap_append

theorem utf8_ascii (h : ∀ c ∈ s, c < 0x80) : utf8 (s.map fun c => .ofNat c.toNat) = s := by
  induction s with
  | nil => rfl
  | cons c rest ih =>
    obtain ⟨hc, hRest⟩ := List.forall_mem_cons.mp h
    have hSmall : c.toNat < 0x80 := UInt8.lt_iff_toNat_lt.mp hc
    rw [List.map_cons, utf8, List.flatMap_cons, ← utf8, ih hRest, toNat_ofNat hSmall, encodeRune_ascii hSmall,
      UInt8.ofNat_toNat, List.singleton_append]

theorem exists_of_utf8_eq_cons {text : List Char} {c : UInt8} {rest : Bytes} (hc : c < 0x80)
    (h : utf8 text = c :: rest) : ∃ more, text = .ofNat c.toNat :: more := by
  cases text with
  | nil => cases h
  | cons x more =>
    obtain ⟨hRune, hValue, _⟩ := encodeRune_spec x
    rw [utf8, List.flatMap_cons] at h
    rcases hRune.ascii_or_high with ⟨b, hb, hSingle⟩ | ⟨hHigh, _⟩
    · rw [hSingle] at h hValue
      obtain ⟨rfl, _⟩ := List.cons.inj h
      rw [runeValue, if_pos hb] at hValue
      exact ⟨more, by rw [hValue, Char.ofNat_toNat]⟩
    · cases hBytes : encodeRune x.toNat with
      | nil =>
        rw [hBytes] at hRune
        cases hRune
      | cons b _ =>
        rw [hBytes] at h hHigh
        obtain ⟨rfl, _⟩ := List.cons.inj h
        exact absurd hc (UInt8.not_lt.mpr (hHigh b List.mem_cons_self))

theorem trimFunc_utf8_append {p : Char → Bool} {front middle back : List Char} (hFront : ∀ c ∈ front, p c = true)
    (hBack : ∀ c ∈ back, p c = true) (hMiddle : ∀ c ∈ middle, p c = false) (hSome : middle ≠ []) :
    trimFunc p (utf8 (front ++ middle ++ back)) = utf8 middle := by
  have hKept {xs : List Char} (hSome : xs ≠ []) (hMiddle : ∀ c ∈ xs, p c = false) (more : List Char) :
      (xs ++ more).dropWhile p = xs ++ more := by
    obtain ⟨c, rest, rfl⟩ := List.exists_cons_of_ne_nil hSome
    exact List.dropWhile_cons_of_neg (by simp [hMiddle c List.mem_cons_self])
  have hReversed : (middle.reverse ++ []).dropWhile p = middle.reverse ++ [] :=
    hKept (List.reverse_ne_nil_iff.mpr hSome) (fun c hc => hMiddle c (List.mem_reverse.mp hc)) []
  rw [List.append_nil] at hReversed
  rw [trimFunc_utf8, List.append_assoc, List.dropWhile_append_of_pos hFront, hKept hSome hMiddle, List.rdropWhile,
    List.reverse_append, List.dropWhile_append_of_pos fun c hc => hBack c (List.mem_reverse.mp hc), hReversed,
    List.reverse_reverse]

theorem utf8_injective {text text' : List Char} (h : utf8 text = utf8 text') : text = text' := by
  have hDecode (text : List Char) : (runes 0 (utf8 text)).map (fun rune => .ofNat (runeValue rune)) = text := by
    rw [runes_utf8, List.map_map]
    exact (List.map_congr_left fun c _ => ofNat_runeValue c).trans (List.map_id' _)
  rw [← hDecode text, h, hDecode text']

/-- Dropping elements drops whole chunks if none is left in the middle. -/
theorem dropWhile_flatten {α : Type} {p : α → Bool} {chunks : List (List α)}
    (h : ∀ chunk ∈ chunks, chunk ≠ [] ∧ (chunk.all p = true ∨ ∀ x ∈ chunk, p x = false)) :
    chunks.flatten.dropWhile p = (chunks.dropWhile (·.all p)).flatten := by
  induction chunks with
  | nil => rfl
  | cons chunk rest ih =>
    obtain ⟨⟨hSome, hAll | hNone⟩, hRest⟩ := List.forall_mem_cons.mp h
    · rw [List.flatten_cons, List.dropWhile_append_of_pos (List.all_eq_true.mp hAll), ih hRest,
        List.dropWhile_cons_of_pos (by simpa using hAll)]
    · obtain ⟨x, more, rfl⟩ := List.exists_cons_of_ne_nil hSome
      have hFirst := hNone x List.mem_cons_self
      rw [List.dropWhile_cons_of_neg (by simp [hFirst]), List.flatten_cons, List.cons_append,
        List.dropWhile_cons_of_neg (by simp [hFirst])]

theorem rdropWhile_flatten {α : Type} {p : α → Bool} {chunks : List (List α)}
    (h : ∀ chunk ∈ chunks, chunk ≠ [] ∧ (chunk.all p = true ∨ ∀ x ∈ chunk, p x = false)) :
    chunks.flatten.rdropWhile p = (chunks.rdropWhile (·.all p)).flatten := by
  have hReversed : ∀ chunk ∈ (chunks.map List.reverse).reverse,
      chunk ≠ [] ∧ (chunk.all p = true ∨ ∀ x ∈ chunk, p x = false) := by
    intro chunk hChunk
    obtain ⟨chunk, hMem, rfl⟩ := List.mem_map.mp (List.mem_reverse.mp hChunk)
    obtain ⟨hSome, hAll⟩ := h chunk hMem
    simpa only [ne_eq, List.reverse_eq_nil_iff, List.all_reverse, List.mem_reverse] using And.intro hSome hAll
  have hAll : (fun chunk : List α => chunk.all p) ∘ List.reverse = (·.all p) := funext fun _ => List.all_reverse
  rw [List.rdropWhile, List.reverse_flatten, dropWhile_flatten hReversed, ← List.map_reverse, List.dropWhile_map, hAll,
    List.reverse_flatten, List.map_map, List.rdropWhile]
  simp only [List.reverse_reverse, Function.comp_def, List.map_id']

theorem encodeRune_all {p : UInt8 → Bool} (hp : ∀ c, 0x80 ≤ c → p c = false) (c : Char) :
    encodeRune c.toNat ≠ [] ∧
      ((encodeRune c.toNat).all p = true ∨ ∀ b ∈ encodeRune c.toNat, p b = false) ∧
      (encodeRune c.toNat).all p = (c.toNat < 0x80 && p (.ofNat c.toNat)) := by
  obtain ⟨hRune, hValue, _⟩ := encodeRune_spec c
  rcases hRune.ascii_or_high with ⟨b, hb, hSingle⟩ | ⟨hHigh, hLarge⟩
  · have hSame : c.toNat = b.toNat := by rw [← hValue, hSingle, runeValue, if_pos hb]
    have hSmall : b.toNat < 0x80 := UInt8.lt_iff_toNat_lt.mp hb
    rw [hSingle, hSame, UInt8.ofNat_toNat]
    cases hKept : p b <;> simp [hKept, hSmall]
  · have hSome : encodeRune c.toNat ≠ [] := by
      intro hEmpty
      rw [hEmpty] at hRune
      cases hRune
    obtain ⟨b, more, hCons⟩ := List.exists_cons_of_ne_nil hSome
    have hNone (b : UInt8) (hb : b ∈ encodeRune c.toNat) : p b = false := hp b (hHigh b hb)
    rw [hValue] at hLarge
    refine ⟨hSome, .inr hNone, ?_⟩
    rw [decide_eq_false (Nat.not_lt.mpr hLarge), Bool.false_and, hCons, List.all_cons,
      hNone b (hCons ▸ List.mem_cons_self), Bool.false_and]

/-- Trimming bytes of ASCII is trimming runes. -/
theorem trim_utf8 {p : UInt8 → Bool} (hp : ∀ c, 0x80 ≤ c → p c = false) (text : List Char) :
    trim p (utf8 text) =
      utf8 ((text.dropWhile fun c => c.toNat < 0x80 && p (.ofNat c.toNat)).rdropWhile
        fun c => c.toNat < 0x80 && p (.ofNat c.toNat)) := by
  have hDrops : (·.all p) ∘ (fun c : Char => encodeRune c.toNat) = fun c => c.toNat < 0x80 && p (.ofNat c.toNat) :=
    funext fun c => (encodeRune_all hp c).2.2
  have hChunks (text : List Char) : ∀ chunk ∈ text.map fun c => encodeRune c.toNat,
      chunk ≠ [] ∧ (chunk.all p = true ∨ ∀ x ∈ chunk, p x = false) := by
    intro chunk hChunk
    obtain ⟨c, _, rfl⟩ := List.mem_map.mp hChunk
    exact ⟨(encodeRune_all hp c).1, (encodeRune_all hp c).2.1⟩
  rw [trim, utf8, List.flatMap_def, dropWhile_flatten (hChunks text), List.dropWhile_map, hDrops,
    rdropWhile_flatten (hChunks _), List.rdropWhile, ← List.map_reverse, List.dropWhile_map, hDrops, ← List.map_reverse,
    utf8, List.flatMap_def, List.rdropWhile]

/-! ## Mapping to ASCII -/

variable {f : Char → Char}

theorem toNat_lt (c : Char) : c.toNat < 0x110000 := by
  rcases c.valid with hLow | ⟨_, hHigh⟩
  · exact Nat.lt_trans hLow (by decide)
  · exact hHigh

theorem mem_mapRunes {c : UInt8} (hc : c < 0x80) (h : c ∈ mapRunes f s) :
    ∃ x : Char, (f x).toNat < 0x80 ∧ c = .ofNat (f x).toNat := by
  obtain ⟨rune, _, hMem⟩ := List.mem_flatMap.mp h
  exact ⟨_, mem_encodeRune hc (toNat_lt _) hMem⟩

theorem mapRunes_eq_self (hAscii : ∀ c ∈ s, c < 0x80) (hf : ∀ c ∈ s, f (.ofNat c.toNat) = .ofNat c.toNat) :
    mapRunes f s = s := by
  have hByte (c : UInt8) (hc : c ∈ s) : encodeRune (f (.ofNat (runeValue [c]))).toNat = [c] := by
    have hSmall : c.toNat < 0x80 := UInt8.lt_iff_toNat_lt.mp (hAscii c hc)
    rw [runeValue, if_pos (hAscii c hc), hf c hc, toNat_ofNat hSmall, encodeRune_ascii hSmall, UInt8.ofNat_toNat]
  rw [mapRunes, runes_ascii hAscii, List.flatMap_map, List.flatMap_congr hByte, List.flatMap_singleton']

theorem length_runes_le : (runes 0 s).length ≤ s.length := by
  have hCount {pieces : List Bytes} (h : ∀ piece ∈ pieces, 0 < piece.length) :
      pieces.length ≤ pieces.flatten.length := by
    induction pieces with
    | nil => exact Nat.le_refl 0
    | cons piece rest ih =>
      obtain ⟨hPiece, hRest⟩ := List.forall_mem_cons.mp h
      rw [List.flatten_cons, List.length_append, List.length_cons, Nat.add_comm]
      exact Nat.add_le_add hPiece (ih hRest)
  have hFlat := hCount fun rune hRune => (@isRune_of_mem 0 s rune hRune).length_pos
  rwa [flatten_runes, List.drop_zero] at hFlat

theorem length_mapRunes_le (h : ∀ c ∈ mapRunes f s, c < 0x80) : (mapRunes f s).length ≤ s.length := by
  have hOne (rune : Bytes) (hRune : rune ∈ runes 0 s) :
      (encodeRune (f (.ofNat (runeValue rune))).toNat).length = 1 := by
    obtain ⟨b, hb⟩ := List.exists_mem_of_length_pos (encodeRune_spec (f (.ofNat (runeValue rune)))).1.length_pos
    obtain ⟨hSmall, _⟩ := mem_encodeRune (h b (List.mem_flatMap.mpr ⟨rune, hRune, hb⟩)) (toNat_lt _) hb
    rw [encodeRune_ascii hSmall, List.length_singleton]
  rw [mapRunes, List.length_flatMap, List.map_congr_left hOne, List.map_const', List.sum_replicate_nat, Nat.mul_one]
  exact length_runes_le

theorem length_trimFunc_le {p : Char → Bool} : (trimFunc p s).length ≤ s.length := by
  obtain ⟨front, hFront⟩ := List.dropWhile_suffix (l := runes 0 s) fun rune => p (.ofNat (runeValue rune))
  obtain ⟨back, hBack⟩ := List.rdropWhile_prefix (fun rune => p (.ofNat (runeValue rune)))
    ((runes 0 s).dropWhile fun rune => p (.ofNat (runeValue rune)))
  have hLength : s.length = front.flatten.length + ((trimFunc p s).length + back.flatten.length) := by
    rw [trimFunc, ← List.length_append, ← List.flatten_append, hBack, ← List.length_append, ← List.flatten_append,
      hFront, flatten_runes, List.drop_zero]
  omega

end GoStrings
