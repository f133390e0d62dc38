import Mathlib.Algebra.Order.Ring.Int
import Mathlib.Data.Nat.Digits.Lemmas
import Mathlib.Tactic.Common

/-! # IP addresses and prefixes

The part of `net/netip` that tells addresses apart: reading an address from its bytes,
unmapping IPv4 in IPv6, the kinds of addresses, and prefixes. A prefix covers the
addresses that agree with it in its leading bits; every kind is the union of a few
prefixes.
-/

namespace Netip

inductive Addr where
  | v4 (n : BitVec 32)
  | v6 (n : BitVec 128)
  deriving DecidableEq

/-- The number in base 256 or 65536. -/
def fromGroups (radix : Nat) (groups : List Nat) : Nat := groups.foldl (fun n group => radix * n + group) 0

def octets (groups : List Nat) : BitVec 32 := .ofNat 32 (fromGroups 256 groups)

def hextets (groups : List Nat) : BitVec 128 := .ofNat 128 (fromGroups 65536 groups)

/-- `AddrFromSlice`. -/
def addrFromSlice (slice : List UInt8) : Option Addr :=
  if slice.length = 4 then some (.v4 (octets (slice.map UInt8.toNat)))
  else if slice.length = 16 then some (.v6 (.ofNat 128 (fromGroups 256 (slice.map UInt8.toNat))))
  else none

structure Prefix where
  ip : Addr
  bits : Nat

/-- The addresses that agree with the prefix in its leading bits. -/
def Prefix.Covers (p : Prefix) (a : Addr) : Prop :=
  match p.ip, a with
  | .v4 m, .v4 n => n.toNat / 2 ^ (32 - p.bits) = m.toNat / 2 ^ (32 - p.bits)
  | .v6 m, .v6 n => n.toNat / 2 ^ (128 - p.bits) = m.toNat / 2 ^ (128 - p.bits)
  | _, _ => False

/-- `Contains`, which compares by exclusive or and drops the bits behind the prefix by a shift or a mask. -/
def Prefix.contains (p : Prefix) (a : Addr) : Bool :=
  match p.ip, a with
  | .v4 m, .v4 n => (n ^^^ m) >>> (32 - p.bits) = 0#32
  | .v6 m, .v6 n => (n ^^^ m) &&& (BitVec.allOnes 128 <<< (128 - p.bits)) = 0#128
  | _, _ => false

section

variable {w : Nat}

theorem ushiftRight_eq_iff {m n : BitVec w} {k : Nat} : n >>> k = m >>> k ↔ n.toNat / 2 ^ k = m.toNat / 2 ^ k := by
  rw [← BitVec.toNat_inj, BitVec.toNat_ushiftRight, BitVec.toNat_ushiftRight, Nat.shiftRight_eq_div_pow,
    Nat.shiftRight_eq_div_pow]

theorem xor_ushiftRight_eq_zero_iff {m n : BitVec w} {k : Nat} :
    (n ^^^ m) >>> k = 0#w ↔ n.toNat / 2 ^ k = m.toNat / 2 ^ k := by
  rw [BitVec.ushiftRight_xor_distrib, ← ushiftRight_eq_iff]
  exact BitVec.xor_eq_zero_iff

/-- A mask of leading ones drops the same bits as a shift. -/
theorem and_mask_eq_zero_iff {n : BitVec w} {k : Nat} : n &&& (BitVec.allOnes w <<< k) = 0#w ↔ n >>> k = 0#w := by
  constructor
  · intro h
    refine BitVec.eq_of_getLsbD_eq fun i _ => ?_
    have hBit := congrArg (fun x : BitVec w => x.getLsbD (k + i)) h
    rw [BitVec.getLsbD_ushiftRight, BitVec.getLsbD_zero]
    by_cases hBound : k + i < w
    · simpa [hBound, show i < w by omega, show ¬k + i < k by omega] using hBit
    · exact BitVec.getLsbD_of_ge _ _ (by omega)
  · intro h
    refine BitVec.eq_of_getLsbD_eq fun i hi => ?_
    have hBit := congrArg (fun x : BitVec w => x.getLsbD (i - k)) h
    by_cases hLow : i < k
    · simp [hLow]
    · simp [show k + (i - k) = i by omega] at hBit
      simp [hBit]

/-- Comparing under a mask of leading ones. -/
theorem and_mask_eq_iff {m n : BitVec w} {k : Nat} (hm : m &&& (BitVec.allOnes w <<< k) = m) :
    n &&& (BitVec.allOnes w <<< k) = m ↔ n.toNat / 2 ^ k = m.toNat / 2 ^ k := by
  have hDistrib : (n ^^^ m) &&& (BitVec.allOnes w <<< k) = (n &&& (BitVec.allOnes w <<< k)) ^^^ m := by
    nth_rewrite 2 [← hm]
    ext i
    simp only [BitVec.getElem_and, BitVec.getElem_xor, Bool.and_xor_distrib_right]
  rw [← xor_ushiftRight_eq_zero_iff, ← and_mask_eq_zero_iff, hDistrib, BitVec.xor_eq_zero_iff]

theorem Prefix.contains_iff {p : Prefix} {a : Addr} : p.contains a = true ↔ p.Covers a := by
  obtain ⟨ip, bits⟩ := p
  cases ip <;> cases a <;> simp only [contains, Covers, xor_ushiftRight_eq_zero_iff, and_mask_eq_zero_iff,
    decide_eq_true_eq, Bool.false_eq_true]

end

/-! ## Kinds of addresses -/

/-- The byte of an IPv4 address at the given place. -/
def octet (n : BitVec 32) (i : Nat) : BitVec 8 := (n >>> (8 * (3 - i))).setWidth 8

namespace Addr

def unmap : Addr → Addr
  | .v4 n => .v4 n
  | .v6 n => if n >>> 32 = 0xffff#128 then .v4 (n.setWidth 32) else .v6 n

def isLoopback : Addr → Bool
  | .v4 n => octet n 0 = 127#8
  | .v6 n => n = 1#128

def isPrivate : Addr → Bool
  | .v4 n =>
    octet n 0 = 10#8 || octet n 0 = 172#8 && octet n 1 &&& 0xf0#8 = 16#8 || octet n 0 = 192#8 && octet n 1 = 168#8
  | .v6 n => (n >>> 120).setWidth 8 &&& 0xfe#8 = 0xfc#8

def isLinkLocalUnicast : Addr → Bool
  | .v4 n => octet n 0 = 169#8 && octet n 1 = 254#8
  | .v6 n => (n >>> 112).setWidth 16 &&& 0xffc0#16 = 0xfe80#16

def isMulticast : Addr → Bool
  | .v4 n => octet n 0 &&& 0xf0#8 = 0xe0#8
  | .v6 n => n >>> 120 = 0xff#128

def isUnspecified : Addr → Bool
  | .v4 n => n = 0#32
  | .v6 n => n = 0#128

def isBroadcast : Addr → Bool
  | .v4 n => n = octets [255, 255, 255, 255]
  | .v6 _ => false

def isGlobalUnicast (a : Addr) : Bool :=
  !a.isUnspecified && !a.isBroadcast && !a.isLoopback && !a.isMulticast && !a.isLinkLocalUnicast

end Addr

def loopbackPrefixes : List Prefix :=
  [⟨.v4 (octets [127, 0, 0, 0]), 8⟩, ⟨.v6 (hextets [0, 0, 0, 0, 0, 0, 0, 1]), 128⟩]

/-- RFC 1918 and `fc00::/7`. -/
def privatePrefixes : List Prefix :=
  [⟨.v4 (octets [10, 0, 0, 0]), 8⟩, ⟨.v4 (octets [172, 16, 0, 0]), 12⟩, ⟨.v4 (octets [192, 168, 0, 0]), 16⟩,
   ⟨.v6 (hextets [0xfc00, 0, 0, 0, 0, 0, 0, 0]), 7⟩]

def linkLocalPrefixes : List Prefix :=
  [⟨.v4 (octets [169, 254, 0, 0]), 16⟩, ⟨.v6 (hextets [0xfe80, 0, 0, 0, 0, 0, 0, 0]), 10⟩]

def multicastPrefixes : List Prefix :=
  [⟨.v4 (octets [224, 0, 0, 0]), 4⟩, ⟨.v6 (hextets [0xff00, 0, 0, 0, 0, 0, 0, 0]), 8⟩]

def unspecifiedPrefixes : List Prefix :=
  [⟨.v4 (octets [0, 0, 0, 0]), 32⟩, ⟨.v6 (hextets [0, 0, 0, 0, 0, 0, 0, 0]), 128⟩]

def broadcastPrefixes : List Prefix := [⟨.v4 (octets [255, 255, 255, 255]), 32⟩]

def reservedPrefixes : List Prefix :=
  loopbackPrefixes ++ privatePrefixes ++ linkLocalPrefixes ++ multicastPrefixes ++ unspecifiedPrefixes ++
    broadcastPrefixes

theorem octet_zero_eq_iff {n : BitVec 32} {c : BitVec 8} : octet n 0 = c ↔ n.toNat / 2 ^ 24 = c.toNat := by
  have hBound := n.isLt
  rw [← BitVec.toNat_inj, octet, BitVec.toNat_setWidth, BitVec.toNat_ushiftRight, Nat.shiftRight_eq_div_pow]
  omega

theorem octet_one_eq_iff {n : BitVec 32} {c : BitVec 8} : octet n 1 = c ↔ n.toNat / 2 ^ 16 % 256 = c.toNat := by
  rw [← BitVec.toNat_inj, octet, BitVec.toNat_setWidth, BitVec.toNat_ushiftRight, Nat.shiftRight_eq_div_pow]

/-- The first four bits of a byte. -/
theorem nibble_eq_iff {b c : BitVec 8} (hc : c &&& 0xf0#8 = c) : b &&& 0xf0#8 = c ↔ b.toNat / 16 = c.toNat / 16 :=
  and_mask_eq_iff (k := 4) hc

theorem toNat_leading_octet (n : BitVec 128) : ((n >>> 120).setWidth 8).toNat = n.toNat / 2 ^ 120 := by
  have hBound := n.isLt
  rw [BitVec.toNat_setWidth, BitVec.toNat_ushiftRight, Nat.shiftRight_eq_div_pow]
  omega

theorem toNat_leading_hextet (n : BitVec 128) : ((n >>> 112).setWidth 16).toNat = n.toNat / 2 ^ 112 := by
  have hBound := n.isLt
  rw [BitVec.toNat_setWidth, BitVec.toNat_ushiftRight, Nat.shiftRight_eq_div_pow]
  omega

theorem covers_v4_iff {m n : BitVec 32} {k : Nat} :
    Prefix.Covers ⟨.v4 m, k⟩ (.v4 n) ↔ n.toNat / 2 ^ (32 - k) = m.toNat / 2 ^ (32 - k) := Iff.rfl

theorem covers_v6_iff {m n : BitVec 128} {k : Nat} :
    Prefix.Covers ⟨.v6 m, k⟩ (.v6 n) ↔ n.toNat / 2 ^ (128 - k) = m.toNat / 2 ^ (128 - k) := Iff.rfl

theorem not_covers_v4 {m : BitVec 128} {n : BitVec 32} {k : Nat} : ¬Prefix.Covers ⟨.v6 m, k⟩ (.v4 n) := id

theorem not_covers_v6 {m : BitVec 32} {n : BitVec 128} {k : Nat} : ¬Prefix.Covers ⟨.v4 m, k⟩ (.v6 n) := id

theorem isLoopback_iff {a : Addr} : a.isLoopback = true ↔ ∃ p ∈ loopbackPrefixes, p.Covers a := by
  cases a with
  | v4 n =>
    simp [Addr.isLoopback, loopbackPrefixes, octet_zero_eq_iff, covers_v4_iff, not_covers_v4, octets, fromGroups]
  | v6 n =>
    simp [Addr.isLoopback, loopbackPrefixes, ← BitVec.toNat_inj, covers_v6_iff, not_covers_v6, hextets, fromGroups]

theorem isUnspecified_iff {a : Addr} : a.isUnspecified = true ↔ ∃ p ∈ unspecifiedPrefixes, p.Covers a := by
  cases a with
  | v4 n =>
    simp [Addr.isUnspecified, unspecifiedPrefixes, ← BitVec.toNat_inj, covers_v4_iff, not_covers_v4, octets,
      fromGroups]
  | v6 n =>
    simp [Addr.isUnspecified, unspecifiedPrefixes, ← BitVec.toNat_inj, covers_v6_iff, not_covers_v6, hextets,
      fromGroups]

theorem isBroadcast_iff {a : Addr} : a.isBroadcast = true ↔ ∃ p ∈ broadcastPrefixes, p.Covers a := by
  cases a with
  | v4 n => simp [Addr.isBroadcast, broadcastPrefixes, ← BitVec.toNat_inj, covers_v4_iff, octets, fromGroups]
  | v6 n => simp [Addr.isBroadcast, broadcastPrefixes, not_covers_v6]

theorem isMulticast_iff {a : Addr} : a.isMulticast = true ↔ ∃ p ∈ multicastPrefixes, p.Covers a := by
  cases a with
  | v4 n =>
    have hCovers : (∃ p ∈ multicastPrefixes, p.Covers (.v4 n)) ↔ n.toNat / 2 ^ 28 = 14 := by
      simp [multicastPrefixes, covers_v4_iff, not_covers_v4, octets, fromGroups]
    have hFirst : (octet n 0).toNat = n.toNat / 2 ^ 24 := (octet_zero_eq_iff.mp rfl).symm
    rw [hCovers, Addr.isMulticast, decide_eq_true_eq, nibble_eq_iff (by decide), hFirst, BitVec.toNat_ofNat]
    omega
  | v6 n =>
    simp [Addr.isMulticast, multicastPrefixes, ← BitVec.toNat_inj, Nat.shiftRight_eq_div_pow, covers_v6_iff,
      not_covers_v6, hextets, fromGroups]

theorem isLinkLocalUnicast_iff {a : Addr} : a.isLinkLocalUnicast = true ↔ ∃ p ∈ linkLocalPrefixes, p.Covers a := by
  cases a with
  | v4 n =>
    have hCovers : (∃ p ∈ linkLocalPrefixes, p.Covers (.v4 n)) ↔ n.toNat / 2 ^ 16 = 43518 := by
      simp [linkLocalPrefixes, covers_v4_iff, not_covers_v4, octets, fromGroups]
    rw [hCovers, Addr.isLinkLocalUnicast, Bool.and_eq_true, decide_eq_true_eq, decide_eq_true_eq, octet_zero_eq_iff,
      octet_one_eq_iff, BitVec.toNat_ofNat, BitVec.toNat_ofNat]
    omega
  | v6 n =>
    have hCovers : (∃ p ∈ linkLocalPrefixes, p.Covers (.v6 n)) ↔ n.toNat / 2 ^ 118 = 1018 := by
      simp [linkLocalPrefixes, covers_v6_iff, not_covers_v6, hextets, fromGroups]
    have hMask : (n >>> 112).setWidth 16 &&& 0xffc0#16 = 0xfe80#16 ↔ n.toNat / 2 ^ 112 / 2 ^ 6 = 0xfe80 / 2 ^ 6 := by
      rw [← toNat_leading_hextet]
      exact and_mask_eq_iff (m := 0xfe80#16) (k := 6) (by decide)
    rw [hCovers, Addr.isLinkLocalUnicast, decide_eq_true_eq, hMask]
    omega

theorem isPrivate_iff {a : Addr} : a.isPrivate = true ↔ ∃ p ∈ privatePrefixes, p.Covers a := by
  cases a with
  | v4 n =>
    have hCovers : (∃ p ∈ privatePrefixes, p.Covers (.v4 n)) ↔
        n.toNat / 2 ^ 24 = 10 ∨ n.toNat / 2 ^ 20 = 2753 ∨ n.toNat / 2 ^ 16 = 49320 := by
      simp [privatePrefixes, covers_v4_iff, not_covers_v4, octets, fromGroups]
    have hSecond : (octet n 1).toNat = n.toNat / 2 ^ 16 % 256 := (octet_one_eq_iff.mp rfl).symm
    rw [hCovers, Addr.isPrivate]
    simp only [Bool.or_eq_true, Bool.and_eq_true, decide_eq_true_eq, octet_zero_eq_iff, octet_one_eq_iff,
      nibble_eq_iff (show 16#8 &&& 0xf0#8 = 16#8 by decide), hSecond, BitVec.toNat_ofNat]
    omega
  | v6 n =>
    have hCovers : (∃ p ∈ privatePrefixes, p.Covers (.v6 n)) ↔ n.toNat / 2 ^ 121 = 126 := by
      simp [privatePrefixes, covers_v6_iff, not_covers_v6, hextets, fromGroups]
    have hMask : (n >>> 120).setWidth 8 &&& 0xfe#8 = 0xfc#8 ↔ n.toNat / 2 ^ 120 / 2 ^ 1 = 0xfc / 2 ^ 1 := by
      rw [← toNat_leading_octet]
      exact and_mask_eq_iff (m := 0xfc#8) (k := 1) (by decide)
    rw [hCovers, Addr.isPrivate, decide_eq_true_eq, hMask]
    omega

/-- The kinds that the predicates tell apart are the reserved prefixes. -/
theorem reserved_iff {a : Addr} :
    (!a.isGlobalUnicast || a.isPrivate || a.isLoopback || a.isLinkLocalUnicast || a.isMulticast ||
      a.isUnspecified) = true ↔ ∃ p ∈ reservedPrefixes, p.Covers a := by
  have hKinds : (∃ p ∈ reservedPrefixes, p.Covers a) ↔ a.isLoopback = true ∨ a.isPrivate = true ∨
      a.isLinkLocalUnicast = true ∨ a.isMulticast = true ∨ a.isUnspecified = true ∨ a.isBroadcast = true := by
    rw [isLoopback_iff, isPrivate_iff, isLinkLocalUnicast_iff, isMulticast_iff, isUnspecified_iff, isBroadcast_iff]
    simp only [reservedPrefixes, List.mem_append, or_and_right, exists_or, or_assoc]
  rw [hKinds, Addr.isGlobalUnicast]
  cases a.isLoopback <;> cases a.isPrivate <;> cases a.isLinkLocalUnicast <;> cases a.isMulticast <;>
    cases a.isUnspecified <;> cases a.isBroadcast <;> decide

theorem length_of_addrFromSlice {slice : List UInt8} {a : Addr} (h : addrFromSlice slice = some a) :
    slice.length = 4 ∨ slice.length = 16 := by
  unfold addrFromSlice at h
  split at h
  · exact .inl ‹_›
  · split at h
    · exact .inr ‹_›
    · cases h

/-! ## Addresses by their leading bytes -/

theorem fromGroups_eq_ofDigits {radix : Nat} {groups : List Nat} :
    fromGroups radix groups = Nat.ofDigits radix groups.reverse := by
  rw [Nat.ofDigits_eq_foldr, List.foldr_reverse, fromGroups]
  exact congrArg (fun step => groups.foldl step 0) (funext₂ fun n group => Nat.add_comm _ _)

variable {slice lead rest : List UInt8}

theorem map_toNat_lt {group : Nat} (h : group ∈ slice.map UInt8.toNat) : group < 256 := by
  obtain ⟨byte, _, rfl⟩ := List.mem_map.mp h
  exact byte.toNat_lt

theorem fromGroups_lt (slice : List UInt8) : fromGroups 256 (slice.map UInt8.toNat) < 256 ^ slice.length := by
  rw [fromGroups_eq_ofDigits]
  have h := Nat.ofDigits_lt_base_pow_length (b := 256) (l := (slice.map UInt8.toNat).reverse) (by decide)
    fun group hGroup => map_toNat_lt (List.mem_reverse.mp hGroup)
  rwa [List.length_reverse, List.length_map] at h

theorem fromGroups_append : fromGroups 256 ((lead ++ rest).map UInt8.toNat) =
    fromGroups 256 (rest.map UInt8.toNat) + 256 ^ rest.length * fromGroups 256 (lead.map UInt8.toNat) := by
  rw [fromGroups_eq_ofDigits, fromGroups_eq_ofDigits, fromGroups_eq_ofDigits, List.map_append, List.reverse_append,
    Nat.ofDigits_append, List.length_reverse, List.length_map]

theorem fromGroups_injective {slice' : List UInt8} (hLength : slice.length = slice'.length)
    (h : fromGroups 256 (slice.map UInt8.toNat) = fromGroups 256 (slice'.map UInt8.toNat)) : slice = slice' := by
  rw [fromGroups_eq_ofDigits, fromGroups_eq_ofDigits] at h
  have hDigits := Nat.ofDigits_inj_of_len_eq (by decide : 1 < 256) (by simpa using hLength)
    (fun group hGroup => map_toNat_lt (List.mem_reverse.mp hGroup))
    (fun group hGroup => map_toNat_lt (List.mem_reverse.mp hGroup)) h
  exact List.map_injective_iff.mpr (fun _ _ => UInt8.toNat_inj.mp) (List.reverse_injective hDigits)

theorem addrFromSlice_of_length_four (h : slice.length = 4) :
    ∃ n, addrFromSlice slice = some (.v4 n) ∧ n.toNat = fromGroups 256 (slice.map UInt8.toNat) := by
  refine ⟨_, if_pos h, ?_⟩
  have hBound := fromGroups_lt slice
  rw [h] at hBound
  exact Nat.mod_eq_of_lt hBound

theorem addrFromSlice_of_length_sixteen (lead rest : List UInt8) (h : (lead ++ rest).length = 16) :
    ∃ n, addrFromSlice (lead ++ rest) = some (.v6 n) ∧ n.toNat = fromGroups 256 (rest.map UInt8.toNat) +
      256 ^ rest.length * fromGroups 256 (lead.map UInt8.toNat) := by
  refine ⟨.ofNat 128 (fromGroups 256 ((lead ++ rest).map UInt8.toNat)), ?_, ?_⟩
  · rw [addrFromSlice, if_neg (by omega), if_pos h]
  · have hBound := fromGroups_lt (lead ++ rest)
    rw [h] at hBound
    rw [← fromGroups_append]
    exact Nat.mod_eq_of_lt hBound

end Netip
