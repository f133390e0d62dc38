import ReliableNotifier.Outbound.Boundary

/-! # IPv4 addresses inside IPv6 addresses

The formats that carry an IPv4 address in the bytes of an IPv6 address. `forbidden` unmaps
the first of them, and its table of prefixes holds the networks of all the others but one:
an IPv4-compatible address lies in no prefix except for the two that are reserved on their
own.
-/

namespace ReliableNotifier.Outbound

open Netip

/-- `::ffff:v`. -/
def mapped (v : IP) : IP := [0, 0, 0, 0, 0, 0, 0, 0, 0, 0, 0xff, 0xff] ++ v

/-- `::v`. -/
def compatible (v : IP) : IP := [0, 0, 0, 0, 0, 0, 0, 0, 0, 0, 0, 0] ++ v

/-- The 16-byte addresses that carry an IPv4 address in one of the transition formats. -/
inductive Embeds (v : IP) : IP → Prop where
  | mapped : Embeds v (mapped v)
  | compatible : Embeds v (compatible v)
  | nat64 : Embeds v ([0, 0x64, 0xff, 0x9b, 0, 0, 0, 0, 0, 0, 0, 0] ++ v)
  | localNat64 (middle : IP) : middle.length = 6 → Embeds v ([0, 0x64, 0xff, 0x9b, 0, 1] ++ (middle ++ v))
  | sixToFour (suffix : IP) : suffix.length = 10 → Embeds v ([0x20, 0x02] ++ (v ++ suffix))

theorem unmap_of_lead {n : BitVec 128} (h : n.toNat / 2 ^ 32 ≠ 0xffff) : (Addr.v6 n).unmap = .v6 n := by
  refine if_neg fun hMapped => h ?_
  have hShift := congrArg BitVec.toNat hMapped
  rwa [BitVec.toNat_ushiftRight, Nat.shiftRight_eq_div_pow] at hShift

theorem forbidden_of_lead (lead : IP) {rest : IP} {m : BitVec 128} {k : Nat} (hRest : rest.length = k)
    (hLength : lead.length + k = 16) (hPrefix : ⟨.v6 m, 128 - 8 * k⟩ ∈ forbiddenPrefixes)
    (hLead : m.toNat / 256 ^ k = fromGroups 256 (lead.map UInt8.toNat)) (hShort : 4 ≤ k)
    (hUnmapped : 0xffff / 256 ^ (k - 4) ≠ fromGroups 256 (lead.map UInt8.toNat)) :
    forbidden (lead ++ rest) = true := by
  obtain ⟨n, hParsed, hValue⟩ := addrFromSlice_of_length_sixteen lead rest (by rwa [List.length_append, hRest])
  have hNetwork : n.toNat / 256 ^ k = fromGroups 256 (lead.map UInt8.toNat) := by
    rw [hValue, ← hRest, Nat.add_mul_div_left _ _ (Nat.pow_pos (by decide)), Nat.div_eq_of_lt (fromGroups_lt _),
      Nat.zero_add]
  have hOutside : n.toNat / 2 ^ 32 ≠ 0xffff := by
    intro hMapped
    have hSplit : 256 ^ k = 2 ^ 32 * 256 ^ (k - 4) := by
      rw [show 2 ^ 32 = 256 ^ 4 from rfl, ← Nat.pow_add, Nat.add_sub_cancel' hShort]
    rw [hSplit, ← Nat.div_div_eq_div_mul, hMapped] at hNetwork
    exact hUnmapped hNetwork
  have hBits : 2 ^ (128 - (128 - 8 * k)) = 256 ^ k := by
    rw [show 128 - (128 - 8 * k) = 8 * k by omega, Nat.pow_mul]
  refine (forbidden_iff hParsed).mpr ⟨_, List.mem_append_right _ hPrefix, ?_⟩
  rw [unmap_of_lead hOutside, covers_v6_iff, hBits, hNetwork, hLead]

theorem unmap_mapped {v : IP} (hv : v.length = 4) :
    ∃ a b, addrFromSlice v = some a ∧ addrFromSlice (mapped v) = some b ∧ b.unmap = a.unmap := by
  obtain ⟨n, hParsed, hValue⟩ := addrFromSlice_of_length_four hv
  obtain ⟨m, hMapped, hLong⟩ := addrFromSlice_of_length_sixteen
    [0, 0, 0, 0, 0, 0, 0, 0, 0, 0, 0xff, 0xff] v (by simp [hv])
  have hLead : fromGroups 256 (([0, 0, 0, 0, 0, 0, 0, 0, 0, 0, 0xff, 0xff] : IP).map UInt8.toNat) = 0xffff := by decide
  have hBound := n.isLt
  rw [hLead, hv, ← hValue] at hLong
  refine ⟨.v4 n, .v6 m, hParsed, hMapped, ?_⟩
  have hShift : m >>> 32 = 0xffff#128 := by
    rw [← BitVec.toNat_inj, BitVec.toNat_ushiftRight, Nat.shiftRight_eq_div_pow, BitVec.toNat_ofNat]
    omega
  have hLow : m.setWidth 32 = n := by
    rw [← BitVec.toNat_inj, BitVec.toNat_setWidth]
    omega
  exact (if_pos hShift).trans (congrArg Addr.v4 hLow)

theorem forbidden_mapped {v : IP} (hv : v.length = 4) : forbidden (mapped v) = forbidden v := by
  obtain ⟨a, b, hParsed, hMapped, hSame⟩ := unmap_mapped hv
  rw [Bool.eq_iff_iff, forbidden_iff hParsed, forbidden_iff hMapped, hSame]

/-- No prefix covers an IPv4-compatible address but those of the unspecified and of the loopback address. -/
theorem covers_small_iff {n : BitVec 128} (h : n.toNat < 2 ^ 32) :
    (∃ p ∈ reservedPrefixes ++ forbiddenPrefixes, p.Covers (.v6 n)) ↔ n.toNat = 0 ∨ n.toNat = 1 := by
  simp [reservedPrefixes, loopbackPrefixes, privatePrefixes, linkLocalPrefixes, multicastPrefixes,
    unspecifiedPrefixes, broadcastPrefixes, forbiddenPrefixes, covers_v6_iff, not_covers_v6, hextets, fromGroups]
  omega

theorem forbidden_compatible_iff {v : IP} (hv : v.length = 4) :
    forbidden (compatible v) = true ↔ v = [0, 0, 0, 0] ∨ v = [0, 0, 0, 1] := by
  obtain ⟨n, hParsed, hValue⟩ := addrFromSlice_of_length_sixteen
    [0, 0, 0, 0, 0, 0, 0, 0, 0, 0, 0, 0] v (by simp [hv])
  have hLead : fromGroups 256 (([0, 0, 0, 0, 0, 0, 0, 0, 0, 0, 0, 0] : IP).map UInt8.toNat) = 0 := by decide
  have hBound := fromGroups_lt v
  rw [hLead, Nat.mul_zero, Nat.add_zero] at hValue
  rw [← hValue, hv] at hBound
  rw [compatible, forbidden_iff hParsed, unmap_of_lead (by omega), covers_small_iff hBound, hValue]
  have hRead (w : IP) (hw : w.length = 4) :
      fromGroups 256 (v.map UInt8.toNat) = fromGroups 256 (w.map UInt8.toNat) ↔ v = w :=
    ⟨fromGroups_injective (hv.trans hw.symm), fun h => h ▸ rfl⟩
  exact or_congr (hRead [0, 0, 0, 0] rfl) (hRead [0, 0, 0, 1] rfl)

theorem forbidden_of_embeds {v address : IP} (hv : v.length = 4) (hForbidden : forbidden v = true)
    (h : Embeds v address) : address = compatible v ∨ forbidden address = true := by
  cases h with
  | mapped => exact .inr ((forbidden_mapped hv).trans hForbidden)
  | compatible => exact .inl rfl
  | nat64 =>
    exact .inr (forbidden_of_lead _ (m := hextets [0x64, 0xff9b, 0, 0, 0, 0, 0, 0]) hv rfl (by simp [forbiddenPrefixes])
      (by decide) (by decide) (by decide))
  | localNat64 middle hMiddle =>
    have hRest : (middle ++ v).length = 10 := by rw [List.length_append, hMiddle, hv]
    exact .inr (forbidden_of_lead _ (m := hextets [0x64, 0xff9b, 1, 0, 0, 0, 0, 0]) hRest rfl
      (by simp [forbiddenPrefixes]) (by decide) (by decide) (by decide))
  | sixToFour suffix hSuffix =>
    have hRest : (v ++ suffix).length = 14 := by rw [List.length_append, hSuffix, hv]
    exact .inr (forbidden_of_lead _ (m := hextets [0x2002, 0, 0, 0, 0, 0, 0, 0]) hRest rfl
      (by simp [forbiddenPrefixes]) (by decide) (by decide) (by decide))

/-- A forbidden IPv4 address is forbidden in every format, except for the IPv4-compatible one, which hides all but two
addresses. -/
theorem embedded_forbidden_iff {v : IP} (hv : v.length = 4) :
    forbidden (mapped v) = forbidden v ∧ (forbidden v = true → ∀ address, Embeds v address →
      (forbidden address = true ↔ (address = compatible v → v = [0, 0, 0, 0] ∨ v = [0, 0, 0, 1]))) := by
  refine ⟨forbidden_mapped hv, fun hForbidden address hEmbeds => ⟨?_, fun hSpared => ?_⟩⟩
  · rintro hAddress rfl
    exact (forbidden_compatible_iff hv).mp hAddress
  · rcases forbidden_of_embeds hv hForbidden hEmbeds with rfl | hAddress
    · exact (forbidden_compatible_iff hv).mpr (hSpared rfl)
    · exact hAddress

/-- A private address in the format of 6to4. -/
theorem embedded_forbidden_sixToFour :
    forbidden [10, 0, 0, 1] = true ∧
      forbidden ([0x20, 0x02] ++ ([10, 0, 0, 1] ++ [0, 0, 0, 0, 0, 0, 0, 0, 0, 1])) = true := by
  have hForbidden : forbidden [10, 0, 0, 1] = true := by decide
  refine ⟨hForbidden, ((embedded_forbidden_iff rfl).2 hForbidden _ (.sixToFour _ rfl)).mpr fun hSame => ?_⟩
  exact absurd hSame (by decide)

/-- The same address in the IPv4-compatible format passes. -/
theorem compatible_not_forbidden :
    Embeds [10, 0, 0, 1] [0, 0, 0, 0, 0, 0, 0, 0, 0, 0, 0, 0, 10, 0, 0, 1] ∧ forbidden [10, 0, 0, 1] = true ∧
      forbidden [0, 0, 0, 0, 0, 0, 0, 0, 0, 0, 0, 0, 10, 0, 0, 1] = false :=
  ⟨.compatible, by decide, by decide⟩

end ReliableNotifier.Outbound
