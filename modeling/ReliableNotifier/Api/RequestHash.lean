import Mathlib.Data.List.Sort
import ReliableNotifier.Api.Canonical
import ReliableNotifier.Library.Framing

/-! # What is hashed of a request

`RequestHash` writes fields behind their lengths: the destination, its version, the method in
upper case, the canonical headers in the order of their names, and the body. The number of
headers is not written, but the fields can be read back, so requests with the same bytes
have the same parts.
-/

namespace ReliableNotifier.Raw

open Checked GoStrings Framing

/-- A length that Go can count. -/
def Fits (s : Bytes) : Prop := s.length < 2 ^ 63

instance (s : Bytes) : Decidable (Fits s) := inferInstanceAs (Decidable (_ < _))

structure HashInput where
  destinationID : Bytes
  destinationVersion : Int
  method : Bytes
  callerHeaders : HeaderMap
  body : Bytes
  idFits : Fits destinationID
  versionFits : -2 ^ 63 ≤ destinationVersion ∧ destinationVersion < 2 ^ 63
  headersFit : ∀ entry ∈ callerHeaders.entries, Fits entry.1 ∧ Fits entry.2
  bodyFits : Fits body

inductive HashError where
  | header (err : HeaderError)
  | outOfMemory
  deriving DecidableEq

variable (tables : CaseTables)

/-- `strings.ToUpper`, as long as there can be a string for its result. -/
def toUpper (s : Bytes) : Except HashError Bytes := do
  ensure (Fits (mapRunes tables.toUpper s)) .outOfMemory
  return mapRunes tables.toUpper s

def writeHashField (digest value : Bytes) : Bytes := digest ++ frame value

/-- The bytes that `RequestHash` feeds to SHA-256. The two orders are those of the loop in `CanonicalCallerHeaders` and
of the loop that collects the names. -/
def hashedBytes (first second : RangeOrder) (input : HashInput) : Except HashError Bytes := do
  let headers ← (canonicalCallerHeaders tables (first.range input.callerHeaders)).mapError .header
  let names := ((second.range headers).map Prod.fst).insertionSort (· ≤ ·)
  let digest := writeHashField [] input.destinationID
  let digest := writeHashField digest (Json.appendInt input.destinationVersion)
  let method ← toUpper tables input.method
  let digest := writeHashField digest method
  let digest := names.foldl
    (fun digest name => writeHashField (writeHashField digest name) ((headers.find? name).getD [])) digest
  return writeHashField digest input.body

/-- The fields that are written for a request with these parts. -/
def hashFields (destinationID : Bytes) (version : Int) (method : Bytes) (headers : HeaderMap) (body : Bytes) :
    List Bytes :=
  [destinationID, Json.appendInt version, method] ++ headers.entries.flatMap (fun entry => [entry.1, entry.2]) ++ [body]

variable {tables} {first second : RangeOrder} {input : HashInput} {headers : HeaderMap}

theorem insertionSort_names :
    ((second.range headers).map Prod.fst).insertionSort (· ≤ ·) = headers.entries.map Prod.fst := by
  refine @List.Perm.eq_of_pairwise _ (· ≤ ·) _ _ (fun a b _ _ hab hba => Std.le_antisymm hab hba) ?_ ?_ ?_
  · exact List.pairwise_insertionSort _ _
  · exact List.pairwise_map.mpr (headers.sorted.imp fun h => Std.le_of_lt h)
  · exact (List.perm_insertionSort _ _).trans ((second.perm headers).map _)

theorem foldl_writeHashField {entries : List (Bytes × Bytes)} {digest : Bytes} :
    entries.foldl (fun digest entry => writeHashField (writeHashField digest entry.1) entry.2) digest =
      digest ++ (entries.flatMap fun entry => [entry.1, entry.2]).flatMap frame := by
  induction entries generalizing digest with
  | nil => exact (List.append_nil digest).symm
  | cons entry rest ih =>
    rw [List.foldl_cons, ih]
    simp [writeHashField]

theorem foldl_names {digest : Bytes} :
    (headers.entries.map Prod.fst).foldl (fun digest name =>
        writeHashField (writeHashField digest name) ((headers.find? name).getD [])) digest =
      digest ++ (headers.entries.flatMap fun entry => [entry.1, entry.2]).flatMap frame := by
  rw [← foldl_writeHashField, List.foldl_map]
  refine List.foldl_ext _ _ _ fun digest entry hEntry => ?_
  rw [SortedMap.find?_eq_some_iff.mpr hEntry, Option.getD_some]

theorem hashedBytes_ok_iff {bytes : Bytes} :
    hashedBytes tables first second input = .ok bytes ↔
      ∃ headers, canonicalCallerHeaders tables (first.range input.callerHeaders) = .ok headers ∧
        Fits (mapRunes tables.toUpper input.method) ∧
        bytes = (hashFields input.destinationID input.destinationVersion (mapRunes tables.toUpper input.method) headers
          input.body).flatMap frame := by
  simp only [hashedBytes, toUpper, bind_ok_iff, ensure_ok_iff, pure_ok_iff, mapError_ok_iff, insertionSort_names,
    foldl_names, decide_eq_true_eq]
  constructor
  · rintro ⟨headers, hHeaders, _, ⟨_, hFits, rfl⟩, rfl⟩
    exact ⟨headers, hHeaders, hFits, by simp [hashFields, writeHashField]⟩
  · rintro ⟨headers, hHeaders, hFits, rfl⟩
    exact ⟨headers, hHeaders, _, ⟨(), hFits, rfl⟩, by simp [hashFields, writeHashField]⟩

/-! ## Reading the fields back -/

/-- Names and values take turns, so the entries can be told from the fields. -/
theorem flatMap_entries_injective {entries entries' : List (Bytes × Bytes)}
    (h : (entries.flatMap fun entry => [entry.1, entry.2]) = entries'.flatMap fun entry => [entry.1, entry.2]) :
    entries = entries' := by
  induction entries generalizing entries' with
  | nil =>
    cases entries' with
    | nil => rfl
    | cons entry rest => cases h
  | cons entry rest ih =>
    cases entries' with
    | nil => cases h
    | cons entry' rest' =>
      simp only [List.flatMap_cons, List.cons_append, List.nil_append, List.cons.injEq] at h
      rw [ih h.2.2, Prod.ext h.1 h.2.1]

theorem hashFields_injective {id id' method method' body body' : Bytes} {version version' : Int}
    {headers headers' : HeaderMap}
    (h : hashFields id version method headers body = hashFields id' version' method' headers' body') :
    id = id' ∧ version = version' ∧ method = method' ∧ headers = headers' ∧ body = body' := by
  obtain ⟨hFront, hBody⟩ := List.append_inj' h rfl
  obtain ⟨hParts, hEntries⟩ := List.append_inj hFront rfl
  simp only [List.cons.injEq, and_true] at hParts hBody
  refine ⟨hParts.1, Json.appendInt_injective hParts.2.1, hParts.2.2, ?_, hBody⟩
  exact SortedMap.eq_of_perm (.of_eq (flatMap_entries_injective hEntries))

theorem length_canonical_le {entry : Bytes × Bytes} (h : Valid tables entry) :
    (canonical tables entry).1.length ≤ entry.1.length ∧ (canonical tables entry).2.length ≤ entry.2.length := by
  refine ⟨(length_mapRunes_le fun c hc => (graphic_of_valid h.1 c hc).1).trans length_trimFunc_le, ?_⟩
  exact (trim_sublist _ _).length_le

theorem length_hashFields (h : canonicalCallerHeaders tables (first.range input.callerHeaders) = .ok headers)
    (hMethod : Fits (mapRunes tables.toUpper input.method)) :
    ∀ field ∈ hashFields input.destinationID input.destinationVersion (mapRunes tables.toUpper input.method) headers
      input.body, field.length < 2 ^ 64 := by
  have hFits {s : Bytes} (hs : Fits s) : s.length < 2 ^ 64 := Nat.lt_trans hs (by decide)
  obtain ⟨hValid, _, _⟩ := canonicalCallerHeaders_ok_iff.mp h
  intro field hField
  simp only [hashFields, List.cons_append, List.nil_append, List.mem_cons, List.mem_append, List.mem_flatMap,
    List.not_mem_nil, or_false] at hField
  rcases hField with rfl | rfl | rfl | ⟨entry, hEntry, hHalf⟩ | rfl
  · exact hFits input.idFits
  · have hVersion := Json.length_appendInt_le input.destinationVersion
    have hBounds := input.versionFits
    omega
  · exact hFits hMethod
  · obtain ⟨raw, hRaw, rfl⟩ := List.mem_map.mp ((canonicalCallerHeaders_perm h).mem_iff.mp hEntry)
    obtain ⟨hName, hValue⟩ := length_canonical_le (hValid raw hRaw)
    obtain ⟨hRawName, hRawValue⟩ := input.headersFit raw ((first.perm _).mem_iff.mp hRaw)
    rcases hHalf with rfl | rfl
    · exact hFits (Nat.lt_of_le_of_lt hName hRawName)
    · exact hFits (Nat.lt_of_le_of_lt hValue hRawValue)
  · exact hFits input.bodyFits

/-- Two requests feed the same bytes to the hash if and only if they have the same parts, and the orders in which maps
are ranged over play no role. -/
theorem hashedBytes_unambiguous {first' second' : RangeOrder} {input' : HashInput} {bytes bytes' : Bytes}
    (h : hashedBytes tables first second input = .ok bytes)
    (h' : hashedBytes tables first' second' input' = .ok bytes') :
    (bytes = bytes' ↔
      input.destinationID = input'.destinationID ∧ input.destinationVersion = input'.destinationVersion ∧
        mapRunes tables.toUpper input.method = mapRunes tables.toUpper input'.method ∧
        canonicalCallerHeaders tables (first.range input.callerHeaders) =
          canonicalCallerHeaders tables (first'.range input'.callerHeaders) ∧
        input.body = input'.body) ∧
      ∀ order order', hashedBytes tables order order' input = .ok bytes := by
  obtain ⟨headers, hHeaders, hMethod, rfl⟩ := hashedBytes_ok_iff.mp h
  obtain ⟨headers', hHeaders', hMethod', rfl⟩ := hashedBytes_ok_iff.mp h'
  refine ⟨⟨fun hSame => ?_, fun hSame => ?_⟩, fun order order' => ?_⟩
  · obtain ⟨hID, hVersion, hUpper, hMap, hBody⟩ := hashFields_injective
      (flatMap_frame_injective (length_hashFields hHeaders hMethod) (length_hashFields hHeaders' hMethod') hSame)
    exact ⟨hID, hVersion, hUpper, by rw [hHeaders, hHeaders', hMap], hBody⟩
  · obtain ⟨hID, hVersion, hUpper, hMap, hBody⟩ := hSame
    rw [hHeaders, hHeaders'] at hMap
    rw [hID, hVersion, hUpper, Except.ok.inj hMap, hBody]
  · have hPerm : (first.range input.callerHeaders).Perm (order.range input.callerHeaders) :=
      (first.perm _).trans (order.perm _).symm
    exact hashedBytes_ok_iff.mpr ⟨headers, canonicalCallerHeaders_of_perm hPerm hHeaders, hMethod, rfl⟩

namespace Sample

def mapOrder : RangeOrder := ⟨SortedMap.entries, fun _ => .refl _⟩

/-- A request for `orders`, version 1, with the given method and header. -/
def hashInput (method : Bytes) (header : Bytes × Bytes) (hHeader : Fits header.1 ∧ Fits header.2) : HashInput where
  destinationID := [111, 114, 100, 101, 114, 115]
  destinationVersion := 1
  method := method
  callerHeaders := ⟨[header], List.pairwise_singleton _ _⟩
  body := [0, 255]
  idFits := by decide
  versionFits := by decide
  headersFit := fun _ hEntry => List.mem_singleton.mp hEntry ▸ hHeader
  bodyFits := by decide

/-- `X-A` with a value in blanks. -/
def spaced : HashInput := hashInput [112, 111, 115, 116] ([88, 45, 65], [32, 0xE9, 9]) (by decide)

def plain : HashInput := hashInput [80, 79, 83, 84] ([120, 45, 97], [0xE9]) (by decide)

end Sample

/-- A method in lower case and a header in blanks make no difference, also where the value is not UTF-8. -/
theorem hashedBytes_unambiguous_spaced :
    ∃ bytes, hashedBytes ReliableNotifier.Sample.caseTables Sample.mapOrder Sample.mapOrder Sample.spaced = .ok bytes ∧
      hashedBytes ReliableNotifier.Sample.caseTables Sample.mapOrder Sample.mapOrder Sample.plain = .ok bytes := by
  have hSpaced : canonicalCallerHeaders ReliableNotifier.Sample.caseTables
      (Sample.mapOrder.range Sample.spaced.callerHeaders) = .ok Sample.plain.callerHeaders := by
    decide +kernel
  have hPlain : canonicalCallerHeaders ReliableNotifier.Sample.caseTables
      (Sample.mapOrder.range Sample.plain.callerHeaders) = .ok Sample.plain.callerHeaders := by
    decide +kernel
  have h := (@hashedBytes_ok_iff _ _ Sample.mapOrder _ _).mpr ⟨_, hSpaced, by decide +kernel, rfl⟩
  have h' := (@hashedBytes_ok_iff _ _ Sample.mapOrder _ _).mpr ⟨_, hPlain, by decide +kernel, rfl⟩
  have hSame := (hashedBytes_unambiguous h h').1.mpr ⟨rfl, rfl, by decide +kernel, hSpaced.trans hPlain.symm, rfl⟩
  exact ⟨_, h, hSame ▸ h'⟩

end ReliableNotifier.Raw
