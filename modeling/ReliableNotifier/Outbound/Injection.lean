import ReliableNotifier.Library.HttpHeader
import ReliableNotifier.Outbound.Boundary

/-! # The headers that a sender adds

A header is set under the canonical form of its name. Names that `validateStoredHeaders`
tells apart by their lower case have different canonical forms, so the calls of
`Header.Set` do not touch each other, and the two headers of the destination come out as
the sender put them in.
-/

namespace ReliableNotifier.Outbound

open Checked Http

/-- The header of the request after the calls of `Set`. -/
def Request.header (request : Request) : Header :=
  request.headers.foldl (fun header call => header.set call.1 call.2) SortedMap.empty

/-- `strings.EqualFold` does not look at the case of ASCII letters. -/
def FoldsASCII (tables : CaseTables) : Prop := ∀ c : Char, c.toNat < 128 → tables.fold c.toLower = tables.fold c

variable {tables : CaseTables} {destination : DestinationVersion} {name other : String}

theorem isTokenChar_graphic {c : Char} (h : isTokenChar c = true) : 33 ≤ c.toNat ∧ c.toNat ≤ 126 := by
  rcases Bool.or_eq_true_iff.mp h with hLetter | hOther
  · change (decide (65 ≤ c.val ∧ c.val ≤ 90) || (97 ≤ c.val && c.val ≤ 122) || (48 ≤ c.val && c.val ≤ 57)) = true
      at hLetter
    simp only [Bool.or_eq_true, Bool.and_eq_true, decide_eq_true_eq, UInt32.le_iff_toNat_le] at hLetter
    change ((65 ≤ c.toNat ∧ c.toNat ≤ 90) ∨ (97 ≤ c.toNat ∧ c.toNat ≤ 122)) ∨ (48 ≤ c.toNat ∧ c.toNat ≤ 57) at hLetter
    omega
  · have hAll : ("!#$%&'*+-.^_`|~".toList.all fun c => 33 ≤ c.toNat && c.toNat ≤ 126) = true := by decide
    simpa using List.all_eq_true.mp hAll c (List.contains_iff_mem.mp hOther)

theorem trimmed_of_token (h : IsToken name) : trimmed name = name :=
  trimmed_eq_self fun c hc => isSpace_graphic (isTokenChar_graphic (h.2 c hc))

theorem map_eq_of_toLower_eq {α : Type} {f : Char → α} (hf : ∀ c : Char, c.toNat < 128 → f c.toLower = f c)
    (h : name.toList.map Char.toLower = other.toList.map Char.toLower) : name.toList.map f = other.toList.map f := by
  have hLower (s : String) : s.toList.map f = (s.toList.map Char.toLower).map f := by
    rw [List.map_map]
    refine List.map_congr_left fun c _ => ?_
    by_cases hAscii : c.toNat < 128
    · exact (hf c hAscii).symm
    · rw [Function.comp_apply, (toLower_of_not_ascii hAscii).1]
  rw [hLower name, hLower other, h]

theorem lower_eq_of_canonical (h : canonicalMIMEHeaderKey name = canonicalMIMEHeaderKey other) :
    tables.lower name = tables.lower other := by
  refine congrArg String.ofList (map_eq_of_toLower_eq (fun c hc => ?_) (toLower_eq_of_canonical h))
  have hAscii : ∀ n < 128, (Char.ofNat n).toLower.toNat < 128 := by decide
  have hLower := hAscii c.toNat hc
  rw [Char.ofNat_toNat] at hLower
  rw [tables.toLower_ascii _ hLower, tables.toLower_ascii c hc, (toLower_toUpper c).2]

theorem equalFold_of_canonical (hFold : FoldsASCII tables)
    (h : canonicalMIMEHeaderKey name = canonicalMIMEHeaderKey other) : tables.equalFold name other = true :=
  decide_eq_true (map_eq_of_toLower_eq hFold (toLower_eq_of_canonical h))

theorem validateEntries_spec {headers : List (String × String)} {seen : List String}
    (h : validateEntries tables destination seen headers = .ok ()) :
    (headers.map fun entry => tables.lower (trimmed entry.1)).Nodup ∧
      ∀ entry ∈ headers, tables.lower (trimmed entry.1) ∉ seen ∧
        tables.lower (trimmed entry.1) ∉ protectedHeaders tables destination := by
  induction headers generalizing seen with
  | nil => exact ⟨List.nodup_nil, List.forall_mem_nil _⟩
  | cons entry rest ih =>
    obtain ⟨name, value⟩ := entry
    simp only [validateEntries, bind_ok_iff, ensure_ok_iff, Bool.not_eq_true', List.contains_eq_mem,
      decide_eq_false_iff_not] at h
    obtain ⟨_, _, _, hUnseen, _, hUnprotected, _, _, hRest⟩ := h
    obtain ⟨hDistinct, hChecked⟩ := ih hRest
    constructor
    · rw [List.map_cons, List.nodup_cons]
      refine ⟨fun hAgain => ?_, hDistinct⟩
      obtain ⟨entry, hEntry, hSame⟩ := List.mem_map.mp hAgain
      refine (hChecked entry hEntry).1 ?_
      rw [hSame]
      exact List.mem_cons_self
    · intro entry hEntry
      rcases List.mem_cons.mp hEntry with rfl | hLater
      · exact ⟨hUnseen, hUnprotected⟩
      · obtain ⟨hNew, hFree⟩ := hChecked entry hLater
        exact ⟨fun hSeen => hNew (List.mem_cons_of_mem _ hSeen), hFree⟩

/-- What `validateStoredHeaders` has checked of the stored headers and of the two that are added. -/
theorem validateStoredHeaders_spec {headers : List (String × String)}
    (h : validateStoredHeaders tables headers destination = .ok ()) :
    tables.equalFold destination.credentialHeader destination.idempotencyHeader = false ∧
      (headers.map fun entry => tables.lower (trimmed entry.1)).Nodup ∧
      ∀ entry ∈ headers, tables.lower (trimmed entry.1) ∉ protectedHeaders tables destination := by
  obtain ⟨_, hInjection, hEntries⟩ := bind_ok_iff.mp h
  obtain ⟨hDistinct, hChecked⟩ := validateEntries_spec hEntries
  have hNames := (Bool.and_eq_true_iff.mp (ensure_ok_iff.mp hInjection)).2
  exact ⟨by simpa using hNames, hDistinct, fun entry hEntry => (hChecked entry hEntry).2⟩

section

variable {checked sent : RangeOrder} {task : Delivery} {target : URL} {secret : String}

theorem header_eq_fill {request : Request} :
    request.header =
      SortedMap.empty.fill (request.headers.map fun call => (canonicalMIMEHeaderKey call.1, call.2)) := by
  rw [Request.header, SortedMap.fill, List.foldl_map]
  rfl

/-- The two headers of the destination are set last, under different names. -/
theorem injected_values (hFold : FoldsASCII tables)
    (h : validateStoredHeaders tables (checked.range task.callerHeaders) destination = .ok ()) :
    (Sender.request sent task destination target secret).header.find?
        (canonicalMIMEHeaderKey destination.credentialHeader) = some secret ∧
      (Sender.request sent task destination target secret).header.find?
        (canonicalMIMEHeaderKey destination.idempotencyHeader) = some task.supplierIdempotencyValue := by
  have hOther : canonicalMIMEHeaderKey destination.idempotencyHeader ≠
      canonicalMIMEHeaderKey destination.credentialHeader := by
    intro hSame
    have hEqual := equalFold_of_canonical hFold hSame.symm
    rw [(validateStoredHeaders_spec h).1] at hEqual
    cases hEqual
  rw [Request.header, Sender.request, List.foldl_append, SortedMap.find?_eq_some_iff, SortedMap.find?_eq_some_iff]
  refine ⟨SortedMap.mem_insert_iff.mpr (.inl rfl), SortedMap.mem_insert_iff.mpr (.inr ⟨?_, hOther⟩)⟩
  exact SortedMap.mem_insert_iff.mpr (.inl rfl)

theorem nodup_canonical (hFold : FoldsASCII tables)
    (h : validateStoredHeaders tables (checked.range task.callerHeaders) destination = .ok ())
    (hNames : ∀ entry ∈ task.callerHeaders.entries, IsToken entry.1) :
    ((Sender.request sent task destination target secret).headers.map fun call =>
      canonicalMIMEHeaderKey call.1).Nodup := by
  obtain ⟨hEqualFold, hDistinct, hFree⟩ := validateStoredHeaders_spec h
  have hPerm : (sent.range task.callerHeaders).Perm (checked.range task.callerHeaders) :=
    (sent.perm _).trans (checked.perm _).symm
  have hToken (entry : String × String) (hEntry : entry ∈ sent.range task.callerHeaders) :
      trimmed entry.1 = entry.1 := trimmed_of_token (hNames entry ((sent.perm _).mem_iff.mp hEntry))
  have hProtected (entry : String × String) (hEntry : entry ∈ sent.range task.callerHeaders) (name : String)
      (hName : tables.lower name ∈ protectedHeaders tables destination) :
      canonicalMIMEHeaderKey entry.1 ≠ canonicalMIMEHeaderKey name := by
    intro hSame
    have hUnprotected := hFree entry (hPerm.mem_iff.mp hEntry)
    rw [hToken entry hEntry, lower_eq_of_canonical hSame] at hUnprotected
    exact hUnprotected hName
  rw [Sender.request, List.map_append, List.nodup_append]
  refine ⟨?_, ?_, ?_⟩
  · rw [← (hPerm.map _).nodup_iff] at hDistinct
    rw [List.Nodup, List.pairwise_map] at hDistinct ⊢
    refine hDistinct.imp_of_mem ?_
    intro a b ha hb hOther hSame
    rw [hToken a ha, hToken b hb] at hOther
    exact hOther (lower_eq_of_canonical hSame)
  · simp only [List.map_cons, List.map_nil, List.nodup_cons, List.mem_singleton, List.not_mem_nil, not_false_eq_true,
      List.nodup_nil, and_true]
    intro hSame
    have hEqual := equalFold_of_canonical hFold hSame.symm
    rw [hEqualFold] at hEqual
    cases hEqual
  · intro name hName other hOther
    obtain ⟨entry, hEntry, rfl⟩ := List.mem_map.mp hName
    simp only [List.map_cons, List.map_nil, List.mem_cons, List.not_mem_nil, or_false] at hOther
    rcases hOther with rfl | rfl
    · exact hProtected entry hEntry _ (by simp [protectedHeaders])
    · exact hProtected entry hEntry _ (by simp [protectedHeaders])

/-- Every header stands under a name of its own with the value that was set, and what the destination adds does not
depend on the headers of the caller. -/
theorem injected_headers_stand (hFold : FoldsASCII tables)
    (h : validateStoredHeaders tables (checked.range task.callerHeaders) destination = .ok ()) (target : URL)
    (secret : String) :
    ((∀ entry ∈ task.callerHeaders.entries, IsToken entry.1) → IsToken destination.idempotencyHeader →
      IsToken destination.credentialHeader →
        ((Sender.request sent task destination target secret).headers.map fun call =>
          canonicalMIMEHeaderKey call.1).Nodup ∧
        (Sender.request sent task destination target secret).header.entries.Perm
          ((task.callerHeaders.entries ++ [(destination.idempotencyHeader, task.supplierIdempotencyValue),
            (destination.credentialHeader, secret)]).map fun entry => (canonicalMIMEHeaderKey entry.1, entry.2))) ∧
      ∀ (checked' sent' : RangeOrder) (headers : Headers),
        validateStoredHeaders tables (checked'.range headers) destination = .ok () →
          ∀ name ∈ [destination.credentialHeader, destination.idempotencyHeader],
            (Sender.request sent' { task with callerHeaders := headers } destination target secret).header.find?
                (canonicalMIMEHeaderKey name) =
              (Sender.request sent task destination target secret).header.find? (canonicalMIMEHeaderKey name) := by
  constructor
  · intro hNames _ _
    have hDistinct := @nodup_canonical tables destination checked sent task target secret hFold h hNames
    refine ⟨hDistinct, ?_⟩
    rw [header_eq_fill]
    refine (SortedMap.perm_fill ?_ fun _ _ => rfl).trans ?_
    · rwa [List.map_map]
    · rw [SortedMap.empty, List.append_nil, Sender.request]
      exact (((sent.perm _).append_right _).map _)
  · intro checked' sent' headers hOther name hName
    have hValues := @injected_values tables destination checked sent task target secret hFold h
    have hOtherValues := @injected_values tables destination checked' sent' { task with callerHeaders := headers }
      target secret hFold hOther
    rcases List.mem_cons.mp hName with rfl | hName
    · rw [hValues.1, hOtherValues.1]
    · cases List.mem_singleton.mp hName
      rw [hValues.2, hOtherValues.2]

end

namespace Sample

open ReliableNotifier.Sample (caseTables mapOrder headerDestination requested)

theorem foldsASCII : FoldsASCII caseTables := by
  intro c hc
  have hAscii : ∀ n < 128, caseTables.fold (Char.ofNat n).toLower = caseTables.fold (Char.ofNat n) := by
    decide +kernel
  have hHere := hAscii c.toNat hc
  rwa [Char.ofNat_toNat] at hHere

def headerTask : Delivery := { task with callerHeaders := requested.callerHeaders }

/-- The request for a task under the destination that allows one header. -/
def headerRequest (task : Delivery) : Request :=
  Sender.request mapOrder task headerDestination ⟨"https", "supplier.example", none, "", ""⟩ "secret"

end Sample

/-- A request with a header of the caller, and the same request without it. -/
theorem injected_headers_stand_request_id :
    (Sample.headerRequest Sample.headerTask).header.entries.Perm
        [("X-Request-Id", "7"), ("Idempotency-Key", "100"), ("Authorization", "secret")] ∧
      (Sample.headerRequest Sample.task).header.find? "Authorization" = some "secret" := by
  have hStand := @injected_headers_stand _ ReliableNotifier.Sample.headerDestination _
    ReliableNotifier.Sample.mapOrder Sample.headerTask Sample.foldsASCII
    (by decide +kernel : validateStoredHeaders _ (ReliableNotifier.Sample.mapOrder.range _) _ = _)
    ⟨"https", "supplier.example", none, "", ""⟩ "secret"
  have hEntries := (hStand.1 (by decide +kernel) (by decide +kernel) (by decide +kernel)).2
  have hSame := hStand.2 ReliableNotifier.Sample.mapOrder ReliableNotifier.Sample.mapOrder Headers.empty
    (by decide +kernel) "Authorization" List.mem_cons_self
  have hNames : canonicalMIMEHeaderKey "Authorization" = "Authorization" := by decide +kernel
  rw [show List.map _ _ = [("X-Request-Id", "7"), ("Idempotency-Key", "100"), ("Authorization", "secret")] by
    decide +kernel] at hEntries
  rw [hNames] at hSame
  refine ⟨hEntries, hSame.trans (SortedMap.find?_eq_some_iff.mpr (hEntries.mem_iff.mpr ?_))⟩
  exact List.mem_of_getElem? (i := 2) rfl

end ReliableNotifier.Outbound
