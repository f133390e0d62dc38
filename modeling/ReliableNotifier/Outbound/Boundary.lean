import ReliableNotifier.Outbound.Agreement
import ReliableNotifier.Outbound.Sender

/-! # The boundary around a sender

Nothing is asked of the outside before the checks have passed. Every dial goes to the first
answer of the one lookup, and under the public policy only if no answer is in a reserved
or forbidden prefix.
-/

namespace ReliableNotifier.Outbound

open Checked Netip

/-- The address has the length of an address and, unmapped, lies outside of every reserved and forbidden prefix. -/
def Public (address : IP) : Prop :=
  (address.length = 4 ∨ address.length = 16) ∧
    ∃ a, addrFromSlice address = some a ∧ ∀ p ∈ reservedPrefixes ++ forbiddenPrefixes, ¬p.Covers a.unmap

theorem forbidden_iff {address : IP} {a : Addr} (h : addrFromSlice address = some a) :
    forbidden address = true ↔ ∃ p ∈ reservedPrefixes ++ forbiddenPrefixes, p.Covers a.unmap := by
  have hPrefixes : (forbiddenPrefixes.any fun p => p.contains a.unmap) = true ↔
      ∃ p ∈ forbiddenPrefixes, p.Covers a.unmap := by
    simp only [List.any_eq_true, Prefix.contains_iff]
  simp only [List.mem_append, or_and_right, exists_or, ← reserved_iff, ← hPrefixes]
  rw [forbidden, h]
  dsimp only
  split
  · rename_i hReserved
    exact ⟨fun _ => .inl hReserved, fun _ => rfl⟩
  · rename_i hReserved
    exact ⟨.inr, fun h => h.resolve_left hReserved⟩

theorem forbidden_eq_false_iff {address : IP} : forbidden address = false ↔ Public address := by
  cases hParsed : addrFromSlice address with
  | none => simp [forbidden, Public, hParsed]
  | some a =>
    rw [← Bool.not_eq_true, forbidden_iff hParsed]
    constructor
    · intro h
      exact ⟨length_of_addrFromSlice hParsed, a, hParsed, fun p hp hCovers => h ⟨p, hp, hCovers⟩⟩
    · rintro ⟨_, b, hb, hOutside⟩ ⟨p, hp, hCovers⟩
      cases hParsed.symm.trans hb
      exact hOutside p hp hCovers

theorem validateAddresses_ok_iff {policy : String} {addresses : List IP} {ip : IP} :
    Sender.validateAddresses policy addresses = .ok ip ↔
      (∃ rest, addresses = ip :: rest) ∧ (policy = testNetworkPolicy ∨ ∀ address ∈ addresses, Public address) := by
  cases addresses with
  | nil => simp [Sender.validateAddresses]
  | cons first rest =>
    have hAll : (first :: rest).any forbidden = true ↔ ¬∀ address ∈ first :: rest, Public address := by
      simp only [← forbidden_eq_false_iff, List.any_eq_true, not_forall, exists_prop, Bool.not_eq_false]
    rw [Sender.validateAddresses]
    split
    · rename_i hTest
      constructor
      · intro h
        cases h
        exact ⟨⟨rest, rfl⟩, .inl hTest⟩
      · rintro ⟨⟨_, h⟩, _⟩
        cases h
        rfl
    · rename_i hTest
      split
      · rename_i hForbidden
        constructor
        · intro h
          cases h
        · rintro ⟨_, h⟩
          exact absurd (h.resolve_left hTest) (hAll.mp hForbidden)
      · rename_i hPublic
        constructor
        · intro h
          cases h
          exact ⟨⟨rest, rfl⟩, .inr (not_not.mp (hAll.not.mp hPublic))⟩
        · rintro ⟨⟨_, h⟩, _⟩
          cases h
          rfl

section

variable (tables : CaseTables) (order : RangeOrder) (outside : Outside) (sender : Sender) (task : Delivery)
  (destination : DestinationVersion)

/-- The checks of the URL, the method, the headers and the network policy passed. -/
structure Cleared (target : URL) : Prop where
  url : validateURL outside destination.url = .ok target
  method : isSupportedOutboundMethod task.method = true ∧
    containsFold tables destination.allowedMethods task.method = true
  headers : validateStoredHeaders tables (order.range task.callerHeaders) destination = .ok ()
  policy : sender.validatePolicy target.hostname destination.networkPolicy = .ok ()

def Event.isLookup : Event → Bool
  | .lookup _ => true
  | _ => false

/-- What a trace of the sender keeps to. -/
structure Confined (trace : List Event) : Prop where
  cleared : trace ≠ [] → ∃ target, Cleared tables order outside sender task destination target
  once : (trace.filter Event.isLookup).length ≤ 1
  pinned : ∀ network requested address, .dial network requested address ∈ trace →
    ∃ target host first rest, validateURL outside destination.url = .ok target ∧
      outside.lookupIP target.hostname = .ok (first :: rest) ∧
      splitHostPort requested = some (host, Sender.dialedPort target) ∧
      tables.equalFold host target.hostname = true ∧
      address = joinHostPort (outside.ipString first) (Sender.dialedPort target)
  validated : ∀ network requested address target answers, .dial network requested address ∈ trace →
    validateURL outside destination.url = .ok target → outside.lookupIP target.hostname = .ok answers →
      (destination.networkPolicy = "public-internet" ∧ ∀ answer ∈ answers, Public answer) ∨
      (destination.networkPolicy = testNetworkPolicy ∧ sender.testPolicy = true ∧
        target.hostname = sender.testHostname)

variable {tables order outside sender task destination}

theorem cleared_of_check {target : URL} (h : sender.check tables order outside task destination = .ok target) :
    Cleared tables order outside sender task destination target := by
  simp only [Sender.check, bind_ok_iff, ensure_ok_iff, mapError_ok_iff, pure_ok_iff] at h
  obtain ⟨_, _, _, hURL, _, hSupported, _, hAllowed, _, hHeaders, _, hPolicy, rfl⟩ := h
  exact ⟨hURL, ⟨hSupported, hAllowed⟩, hHeaders, hPolicy⟩

/-- How far `Send` gets: no further than its checks, than the lookup, or to the dialer. -/
theorem send_cases :
    (sender.send tables order outside task destination).1 = [] ∨
    ∃ target, Cleared tables order outside sender task destination target ∧
      ((sender.send tables order outside task destination).1 = [.lookup target.hostname] ∨
      ∃ (first : IP) (rest : List IP) (requests : List (String × String)),
        outside.lookupIP target.hostname = .ok (first :: rest) ∧
        (destination.networkPolicy = testNetworkPolicy ∨ ∀ address ∈ first :: rest, Public address) ∧
        (sender.send tables order outside task destination).1 =
          [.lookup target.hostname, .resolve destination.secretRef] ++
            requests.map (Sender.dialContext tables outside target first)) := by
  unfold Sender.send
  cases hCheck : sender.check tables order outside task destination with
  | error => exact .inl rfl
  | ok target =>
    refine .inr ⟨target, cleared_of_check hCheck, ?_⟩
    dsimp only
    cases hLookup : outside.lookupIP target.hostname with
    | error => exact .inl rfl
    | ok addresses =>
      dsimp only
      cases hAddresses : Sender.validateAddresses destination.networkPolicy addresses with
      | error => exact .inl rfl
      | ok first =>
        obtain ⟨⟨rest, rfl⟩, hValid⟩ := validateAddresses_ok_iff.mp hAddresses
        refine .inr ⟨first, rest, ?_⟩
        dsimp only
        cases outside.resolve destination.secretRef with
        | error => exact ⟨[], rfl, hValid, rfl⟩
        | ok secret =>
          dsimp only
          cases outside.newRequest task.method target.text with
          | error => exact ⟨[], rfl, hValid, rfl⟩
          | ok => exact ⟨_, rfl, hValid, rfl⟩

theorem dialContext_eq_dial {target : URL} {ip : IP} {request : String × String} {network requested address : String}
    (h : Sender.dialContext tables outside target ip request = .dial network requested address) :
    ∃ host, splitHostPort requested = some (host, Sender.dialedPort target) ∧
      tables.equalFold host target.hostname = true ∧
      address = joinHostPort (outside.ipString ip) (Sender.dialedPort target) := by
  unfold Sender.dialContext at h
  split at h
  · cases h
  · rename_i host port hSplit
    split at h
    · cases h
    · rename_i hSame
      simp only [Bool.or_eq_true, Bool.not_eq_true', decide_eq_true_eq, not_or, Bool.not_eq_false, not_not] at hSame
      obtain ⟨hHost, rfl⟩ := hSame
      cases h
      exact ⟨host, hSplit, hHost, rfl⟩

theorem policy_of_validatePolicy {hostname policy : String} (h : sender.validatePolicy hostname policy = .ok ()) :
    policy = "public-internet" ∨
      policy = testNetworkPolicy ∧ sender.testPolicy = true ∧ hostname = sender.testHostname := by
  unfold Sender.validatePolicy at h
  split at h
  · exact .inl ‹_›
  · split at h
    · rename_i hTest
      obtain ⟨hPolicy, hHostname⟩ := Bool.and_eq_true_iff.mp (ensure_ok_iff.mp h)
      exact .inr ⟨hTest, hPolicy, of_decide_eq_true hHostname⟩
    · cases h

theorem isLookup_dialContext (target : URL) (ip : IP) (request : String × String) :
    (Sender.dialContext tables outside target ip request).isLookup = false := by
  unfold Sender.dialContext
  split
  · rfl
  · split <;> rfl

theorem confined_of_no_dial {trace : List Event}
    (hCleared : trace ≠ [] → ∃ target, Cleared tables order outside sender task destination target)
    (hOnce : (trace.filter Event.isLookup).length ≤ 1)
    (hDial : ∀ network requested address, .dial network requested address ∉ trace) :
    Confined tables order outside sender task destination trace where
  cleared := hCleared
  once := hOnce
  pinned network requested address h := absurd h (hDial network requested address)
  validated network requested address _ _ h := absurd h (hDial network requested address)

/-- Whatever the addresses that the transport asks for, the sender stays within the boundary. -/
theorem send_confined :
    Confined tables order outside sender task destination (sender.send tables order outside task destination).1 := by
  have hCases := @send_cases tables order outside sender task destination
  generalize (sender.send tables order outside task destination).1 = trace at hCases ⊢
  rcases hCases with rfl | ⟨target, hCleared, rfl | ⟨first, rest, requests, hLookup, hValid, rfl⟩⟩
  · exact confined_of_no_dial (fun h => absurd rfl h) (Nat.zero_le 1) fun _ _ _ => List.not_mem_nil
  · exact confined_of_no_dial (fun _ => ⟨target, hCleared⟩) (Nat.le_refl 1) fun _ _ _ => by simp
  · have hRequest {network requested address : String} (h : .dial network requested address ∈
        [.lookup target.hostname, .resolve destination.secretRef] ++
          requests.map (Sender.dialContext tables outside target first)) :
        ∃ request, Sender.dialContext tables outside target first request = .dial network requested address := by
      obtain ⟨request, _, hDial⟩ : ∃ request ∈ requests,
          Sender.dialContext tables outside target first request = .dial network requested address := by
        simpa using h
      exact ⟨request, hDial⟩
    refine ⟨fun _ => ⟨target, hCleared⟩, ?_, fun network requested address h => ?_,
      fun network requested address same answers h hURL hAnswers => ?_⟩
    · have hNone : (requests.map (Sender.dialContext tables outside target first)).filter Event.isLookup = [] := by
        refine List.filter_eq_nil_iff.mpr (List.forall_mem_map.mpr fun request _ => ?_)
        rw [isLookup_dialContext]
        decide
      rw [List.filter_append, hNone]
      exact Nat.le_refl 1
    · obtain ⟨request, hDial⟩ := hRequest h
      obtain ⟨host, hSplit, hHost, hAddress⟩ := dialContext_eq_dial hDial
      exact ⟨target, host, first, rest, hCleared.url, hLookup, hSplit, hHost, hAddress⟩
    · obtain rfl : target = same := Except.ok.inj (hCleared.url.symm.trans hURL)
      obtain rfl : first :: rest = answers := Except.ok.inj (hLookup.symm.trans hAnswers)
      rcases policy_of_validatePolicy hCleared.policy with hPublic | hTest
      · refine .inl ⟨hPublic, hValid.resolve_left ?_⟩
        rw [hPublic]
        decide
      · exact .inr hTest

theorem newSender_ok {hasSecrets testPolicy : Bool} {testCAFile : String} {trust : String → Except String Unit}
    (h : newSender hasSecrets testPolicy testCAFile trust = .ok sender) :
    sender = ⟨testPolicy, "fake-supplier.test"⟩ ∧
      (testPolicy = true → testCAFile ≠ "" ∧ trust testCAFile = .ok ()) := by
  simp only [newSender, bind_ok_iff] at h
  obtain ⟨_, _, h⟩ := h
  split at h
  · simp only [bind_ok_iff, ensure_ok_iff, pure_ok_iff, decide_eq_true_eq] at h
    obtain ⟨_, hFile, _, hTrust, rfl⟩ := h
    exact ⟨by rw [‹testPolicy = true›], fun _ => ⟨hFile, hTrust⟩⟩
  · rename_i hPublic
    cases h
    exact ⟨rfl, fun hTest => absurd hTest hPublic⟩

/-- A sender of `NewSender` that dials although an answer is not public was given a test authority to trust, and
dials the test supplier. -/
theorem Confined.trusted {trace : List Event} {hasSecrets testPolicy : Bool} {testCAFile : String}
    {trust : String → Except String Unit} {network requested address : String} {target : URL} {answers : List IP}
    {answer : IP} (h : Confined tables order outside sender task destination trace)
    (hNew : newSender hasSecrets testPolicy testCAFile trust = .ok sender)
    (hDial : .dial network requested address ∈ trace) (hURL : validateURL outside destination.url = .ok target)
    (hAnswers : outside.lookupIP target.hostname = .ok answers) (hAnswer : answer ∈ answers)
    (hPrivate : ¬Public answer) :
    target.hostname = "fake-supplier.test" ∧ testCAFile ≠ "" ∧ trust testCAFile = .ok () := by
  obtain ⟨rfl, hTrust⟩ := newSender_ok hNew
  rcases h.validated network requested address target answers hDial hURL hAnswers with ⟨_, hPublic⟩ | ⟨_, hTest, hHost⟩
  · exact absurd (hPublic answer hAnswer) hPrivate
  · exact ⟨hHost, hTrust hTest⟩

end

namespace Sample

def destination : DestinationVersion :=
  { ReliableNotifier.Sample.destination with networkPolicy := "public-internet" }

def task : Delivery where
  id := 100
  callerID := "shop"
  destinationID := "orders"
  destinationVersion := 1
  method := "POST"
  callerHeaders := Headers.empty
  body := []
  supplierIdempotencyValue := "100"
  status := .delivering
  generation := 0
  acceptedAt := 0
  retryDeadline := 0
  nextAttemptAt := 0
  leaseOwner := none
  leaseToken := none
  leaseUntil := none

def sender : Sender := ⟨false, "fake-supplier.test"⟩

/-- A public answer, and a transport that also asks for another host. -/
def outside : Outside where
  parseRequestURI raw := some ⟨"https", "supplier.example", none, "", raw⟩
  ipString _ := "8.8.8.8"
  lookupIP _ := .ok [[8, 8, 8, 8]]
  resolve _ := .ok "secret"
  newRequest _ _ := .ok ()
  dials _ := [("tcp", "Supplier.example:443"), ("tcp", "169.254.169.254:443")]
  perform _ := .ok ⟨200, ""⟩

end Sample

theorem send_confined_pinned :
    (Sample.sender.send Sample.caseTables Sample.mapOrder Sample.outside Sample.task Sample.destination).1 =
      [.lookup "supplier.example", .resolve "orders", .dial "tcp" "Supplier.example:443" "8.8.8.8:443",
        .refuse "tcp" "169.254.169.254:443"] ∧
    Public [8, 8, 8, 8] := by
  have hTrace : (Sample.sender.send Sample.caseTables Sample.mapOrder Sample.outside Sample.task
      Sample.destination).1 = [.lookup "supplier.example", .resolve "orders",
        .dial "tcp" "Supplier.example:443" "8.8.8.8:443", .refuse "tcp" "169.254.169.254:443"] := by
    decide +kernel
  have hConfined := @send_confined Sample.caseTables Sample.mapOrder Sample.outside Sample.sender Sample.task
    Sample.destination
  rw [hTrace] at hConfined
  obtain ⟨target, hCleared⟩ := hConfined.cleared (List.cons_ne_nil _ _)
  rcases hConfined.validated "tcp" _ _ target [[8, 8, 8, 8]] (List.mem_of_getElem? (i := 2) rfl) hCleared.url rfl with
    ⟨_, hPublic⟩ | ⟨hPolicy, _⟩
  · exact ⟨hTrace, hPublic _ List.mem_cons_self⟩
  · exact absurd hPolicy (by decide)

end ReliableNotifier.Outbound
