import Mathlib.Tactic.Common

/-! # Base64 of `encoding/base64`

`base64.StdEncoding` over bytes. Four digits stand for three bytes, and the last quantum may be
filled up with padding. The decoder passes over line breaks wherever they stand and does not
look at the bits that padding leaves over. It reads back whatever the encoder writes.
-/

namespace Base64

abbrev Bytes := List UInt8

/-- The digit with a value below 64. -/
def encodeDigit (n : Nat) : UInt8 :=
  if n < 26 then .ofNat (65 + n)
  else if n < 52 then .ofNat (97 + (n - 26))
  else if n < 62 then .ofNat (48 + (n - 52))
  else if n = 62 then 43
  else 47

def decodeMap (c : UInt8) : Option Nat :=
  if 65 ≤ c && c ≤ 90 then some (c.toNat - 65)
  else if 97 ≤ c && c ≤ 122 then some (c.toNat - 97 + 26)
  else if 48 ≤ c && c ≤ 57 then some (c.toNat - 48 + 52)
  else if c = 43 then some 62
  else if c = 47 then some 63
  else none

def isNewline (c : UInt8) : Bool := c = 10 || c = 13

/-- The number that a quantum of digits or bytes spells in the given base. -/
def positional (base : Nat) (digits : List Nat) : Nat := digits.foldl (fun n d => base * n + d) 0

/-- The bytes of a quantum of two, three or four digits. What is missing counts as zero. -/
def quantum (dbuf : List Nat) : Bytes :=
  let val := positional 64 (dbuf ++ List.replicate (4 - dbuf.length) 0)
  [UInt8.ofNat (val / 65536), UInt8.ofNat (val / 256), UInt8.ofNat val].take (dbuf.length - 1)

/-- Behind the first padding of a quantum. -/
def padded (dbuf : List Nat) (rest : Bytes) : Option Bytes :=
  if dbuf.length = 2 then
    match rest.dropWhile isNewline with
    | 61 :: rest => if rest.all isNewline then some (quantum dbuf) else none
    | _ => none
  else if dbuf.length = 3 then if rest.all isNewline then some (quantum dbuf) else none
  else none

/-- `decodeQuantum`, again and again, where `dbuf` are the digits of the quantum so far. -/
def decodeFrom : List Nat → Bytes → Option Bytes
  | dbuf, [] => if dbuf = [] then some [] else none
  | dbuf, c :: rest =>
    match decodeMap c with
    | some digit =>
      if dbuf.length = 3 then (decodeFrom [] rest).map (quantum (dbuf ++ [digit]) ++ ·)
      else decodeFrom (dbuf ++ [digit]) rest
    | none =>
      if isNewline c then decodeFrom dbuf rest
      else if c = 61 then padded dbuf rest
      else none

/-- `StdEncoding.DecodeString`. -/
def decodeString (text : Bytes) : Option Bytes := decodeFrom [] text

/-- The four digits of three bytes. -/
def sextets (a b c : UInt8) : List Nat :=
  let val := positional 256 [a.toNat, b.toNat, c.toNat]
  [val / 262144, val / 4096 % 64, val / 64 % 64, val % 64]

/-- `StdEncoding.EncodeToString`. -/
def encodeToString : Bytes → Bytes
  | a :: b :: c :: rest => (sextets a b c).map encodeDigit ++ encodeToString rest
  | [a, b] => ((sextets a b 0).take 3).map encodeDigit ++ [61]
  | [a] => ((sextets a 0 0).take 2).map encodeDigit ++ [61, 61]
  | [] => []

theorem decodeMap_encodeDigit {n : Nat} (h : n < 64) : decodeMap (encodeDigit n) = some n := by
  have hAll : ∀ n < 64, decodeMap (encodeDigit n) = some n := by decide
  exact hAll n h

theorem decodeFrom_digits {dbuf digits : List Nat} (h : ∀ n ∈ digits, n < 64) (hRoom : dbuf.length + digits.length ≤ 3)
    (rest : Bytes) : decodeFrom dbuf (digits.map encodeDigit ++ rest) = decodeFrom (dbuf ++ digits) rest := by
  induction digits generalizing dbuf with
  | nil => simp
  | cons n digits ih =>
    obtain ⟨hDigit, hRest⟩ := List.forall_mem_cons.mp h
    rw [List.length_cons] at hRoom
    rw [List.map_cons, List.cons_append, decodeFrom, decodeMap_encodeDigit hDigit]
    simp only [show dbuf.length ≠ 3 by omega, if_false]
    rw [ih hRest (by simp only [List.length_append, List.length_singleton]; omega), List.append_assoc]
    rfl

theorem decodeFrom_last {dbuf : List Nat} {n : Nat} (h : n < 64) (hFull : dbuf.length = 3) (rest : Bytes) :
    decodeFrom dbuf (encodeDigit n :: rest) = (decodeFrom [] rest).map (quantum (dbuf ++ [n]) ++ ·) := by
  rw [decodeFrom, decodeMap_encodeDigit h]
  exact if_pos hFull

theorem sextets_lt (a b c : UInt8) : ∀ n ∈ sextets a b c, n < 64 := by
  have ha := a.toNat_lt
  have hb := b.toNat_lt
  have hc := c.toNat_lt
  simp only [sextets, positional, List.foldl_cons, List.foldl_nil, List.forall_mem_cons, List.not_mem_nil,
    false_imp_iff, implies_true, and_true]
  omega

/-- The number that the digits spell is the one that the bytes spell. -/
theorem quantum_eq {a b c : UInt8} {dbuf : List Nat}
    (h : dbuf ++ List.replicate (4 - dbuf.length) 0 = sextets a b c) :
    quantum dbuf = [a, b, c].take (dbuf.length - 1) := by
  have ha := a.toNat_lt
  have hb := b.toNat_lt
  have hc := c.toNat_lt
  have hVal : positional 64 (sextets a b c) = 65536 * a.toNat + 256 * b.toNat + c.toNat := by
    simp only [sextets, positional, List.foldl_cons, List.foldl_nil]
    omega
  have hFirst : UInt8.ofNat ((65536 * a.toNat + 256 * b.toNat + c.toNat) / 65536) = a := by
    rw [← UInt8.toNat_inj, UInt8.toNat_ofNat']
    omega
  have hSecond : UInt8.ofNat ((65536 * a.toNat + 256 * b.toNat + c.toNat) / 256) = b := by
    rw [← UInt8.toNat_inj, UInt8.toNat_ofNat']
    omega
  have hThird : UInt8.ofNat (65536 * a.toNat + 256 * b.toNat + c.toNat) = c := by
    rw [← UInt8.toNat_inj, UInt8.toNat_ofNat']
    omega
  rw [quantum, h, hVal, hFirst, hSecond, hThird]

/-- The first digits of a quantum, in front of the last one or of padding. -/
theorem decodeFrom_sextets {a b c : UInt8} {k : Nat} (hk : k ≤ 3) (rest : Bytes) :
    decodeFrom [] (((sextets a b c).take k).map encodeDigit ++ rest) = decodeFrom ((sextets a b c).take k) rest := by
  refine decodeFrom_digits (fun n hn => sextets_lt a b c n (List.mem_of_mem_take hn)) ?_ rest
  rw [List.length_take, List.length_nil, Nat.zero_add]
  exact Nat.le_trans (Nat.min_le_left _ _) hk

theorem decodeString_encodeToString (body : Bytes) : decodeString (encodeToString body) = some body := by
  induction body using encodeToString.induct with
  | case1 a b c rest ih =>
    obtain ⟨n, hDigits⟩ : ∃ n, sextets a b c = (sextets a b c).take 3 ++ [n] := ⟨_, rfl⟩
    have hDigit : n < 64 := sextets_lt a b c n (hDigits ▸ List.mem_append_right _ (List.mem_singleton_self n))
    have hQuantum : quantum ((sextets a b c).take 3 ++ [n]) = [a, b, c] := by
      rw [← hDigits]
      exact quantum_eq (List.append_nil _)
    rw [encodeToString, decodeString, hDigits, List.map_append, List.append_assoc, decodeFrom_sextets (Nat.le_refl 3)]
    have hLast := @decodeFrom_last ((sextets a b c).take 3) n hDigit rfl (encodeToString rest)
    rw [show decodeFrom [] (encodeToString rest) = some rest from ih, hQuantum] at hLast
    exact hLast
  | case2 a b =>
    have hZero : (sextets a b 0).drop 3 = [0] := by
      simp [sextets, positional]
      omega
    have hQuantum : quantum ((sextets a b 0).take 3) = [a, b] :=
      quantum_eq ((congrArg _ hZero.symm).trans (List.take_append_drop 3 _))
    rw [encodeToString, decodeString, decodeFrom_sextets (Nat.le_refl 3)]
    exact congrArg some hQuantum
  | case3 a =>
    have hZero : (sextets a 0 0).drop 2 = [0, 0] := by
      simp [sextets, positional]
      omega
    have hQuantum : quantum ((sextets a 0 0).take 2) = [a] :=
      quantum_eq ((congrArg _ hZero.symm).trans (List.take_append_drop 2 _))
    rw [encodeToString, decodeString, decodeFrom_sextets (by decide)]
    exact congrArg some hQuantum
  | case4 => rfl

theorem encodeDigit_ascii {n : Nat} (h : n < 64) : encodeDigit n < 0x80 := by
  have hAll : ∀ n < 64, encodeDigit n < 0x80 := by decide
  exact hAll n h

theorem ascii_encodeToString (body : Bytes) : ∀ c ∈ encodeToString body, c < 0x80 := by
  have hDigits (a b c : UInt8) (k : Nat) : ∀ x ∈ ((sextets a b c).take k).map encodeDigit, x < 0x80 := by
    intro x hx
    obtain ⟨n, hn, rfl⟩ := List.mem_map.mp hx
    exact encodeDigit_ascii (sextets_lt a b c n (List.mem_of_mem_take hn))
  have hPadding : (61 : UInt8) < 0x80 := by decide
  induction body using encodeToString.induct with
  | case1 a b c rest ih => exact List.forall_mem_append.mpr ⟨hDigits a b c 4, ih⟩
  | case2 a b => exact List.forall_mem_append.mpr ⟨hDigits a b 0 3, List.forall_mem_singleton.mpr hPadding⟩
  | case3 a => exact List.forall_mem_append.mpr ⟨hDigits a 0 0 2, List.forall_mem_cons.mpr
      ⟨hPadding, List.forall_mem_singleton.mpr hPadding⟩⟩
  | case4 => exact List.forall_mem_nil _

end Base64
