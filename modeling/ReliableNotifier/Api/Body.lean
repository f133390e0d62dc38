import ReliableNotifier.Api.Content
import ReliableNotifier.Api.DecodeHeaders
import ReliableNotifier.Library.Base64
import ReliableNotifier.Library.Json.Marshal
import ReliableNotifier.Library.Json.Span
import ReliableNotifier.Store.Agreement

/-! # The bodies of requests

`API.submit` and `API.replay` read one JSON value from a body of bounded size, into a struct
without unknown fields. The headers of a submission are kept as text and decoded on their own,
and its body is base64. What a caller writes with `json.Marshal` is what the handler gets.
-/

namespace ReliableNotifier.Api

open Checked Json GoStrings
open Raw (encode encodeEntry encodeHeaders HeaderMap)

/-! ## Texts -/

/-- A Go string as a text. The strings that `encoding/json` makes are UTF-8. -/
def decodeText (s : Bytes) : String := String.ofList ((runes 0 s).map fun rune => .ofNat (runeValue rune))

theorem decodeText_encode (text : String) : decodeText (encode text) = text := by
  have hRunes : (runes 0 (utf8 text.toList)).map (fun rune => Char.ofNat (runeValue rune)) = text.toList := by
    rw [runes_utf8, List.map_map]
    exact (List.map_congr_left fun c _ => ofNat_runeValue c).trans (List.map_id' _)
  rw [decodeText, encode, hRunes, String.ofList_toList]

def decodeHeaders (headers : HeaderMap) : Headers :=
  let entries : SortedMap String String :=
    .fill .empty (headers.entries.map fun entry => (decodeText entry.1, decodeText entry.2))
  ⟨entries.entries, entries.sorted⟩

/-! ## Reading a body -/

section Decode

-- Of bytes that hold no whole value: whether the scanner of `encoding/json` would read on.
variable (viable : Bytes → Bool)

/-- The scanner knows at the last byte of the value that the value ends there. -/
def closed : Value → Bool
  | .array _ | .object _ => true
  | _ => false

/-- `Decode` behind an `http.MaxBytesReader`, and `ensureJSONEOF`. -/
def decodeBody {σ : Type} (limit : Nat) (fields : List (RawField σ)) (zero : σ) (body : Bytes) :
    Except DecodeError σ :=
  let seen := body.take limit
  let exceeded : Bool := limit < body.length
  match next seen with
  | .eof => .error (if exceeded then .tooLarge else .invalid)
  | .malformed => .error (if exceeded && viable seen then .tooLarge else .invalid)
  | .value v rest => do
    ensure (!exceeded || closed v || rest ≠ []) .tooLarge
    ensure (v.depth ≤ maxNestingDepth) .invalid
    let input ← (decodeRawStruct fields v (textBefore (skipSpace seen) rest) zero).elim (.error .invalid) .ok
    match next rest with
    | .eof => if exceeded then .error .multiple else .ok input
    | _ => .error .multiple

def maxSubmissionJSONBytes : Nat := 512 * 1024

/-- The struct that a submission is decoded into. -/
structure SubmissionBody where
  destinationID : Bytes
  method : Bytes
  headers : Bytes
  bodyBase64 : Bytes

def submissionFields : List (RawField SubmissionBody) :=
  [.string (ascii "destination_id") fun text s => { s with destinationID := text },
   .string (ascii "method") fun text s => { s with method := text },
   .raw (ascii "headers") fun text s => { s with headers := text },
   .string (ascii "body_base64") fun text s => { s with bodyBase64 := text }]

/-- The body of `POST /deliveries`, as far as `API.submit` takes it apart on its own. -/
def decodeSubmission (tables : CaseTables) (body : Bytes) : Except DecodeError Input := do
  let input ← decodeBody viable maxSubmissionJSONBytes submissionFields ⟨[], [], [], []⟩ body
  return {
    destinationID := decodeText input.destinationID
    method := decodeText input.method
    headers := (Raw.decodeCallerHeaders tables input.headers).toOption.map decodeHeaders
    body := Base64.decodeString input.bodyBase64 }

/-- The body of `POST /deliveries/{id}/replay`. Whatever is wrong with it, the answer is the same. -/
def decodeReplay (body : Bytes) : Option String :=
  (decodeBody viable 4096 [.string (ascii "reason") fun text _ => text] [] body).toOption.map decodeText

end Decode

/-! ## Writing a submission -/

def submissionMembers (destinationID method : String) (headers : Headers) (body : Bytes) : List Member :=
  [⟨ascii "destination_id", .string (quoted (encode destinationID)), quote (encode destinationID)⟩,
   ⟨ascii "method", .string (quoted (encode method)), quote (encode method)⟩,
   ⟨ascii "headers", .object ((encodeHeaders headers).entries.map member), marshalMap (encodeHeaders headers)⟩,
   ⟨ascii "body_base64", .string (quoted (Base64.encodeToString body)), quote (Base64.encodeToString body)⟩]

/-- `json.Marshal` of a submission. -/
def marshalSubmission (destinationID method : String) (headers : Headers) (body : Bytes) : Bytes :=
  objectText (submissionMembers destinationID method headers body)

/-- The names are distinct as `decodeCallerHeaders` compares them. -/
def DistinctNames (tables : CaseTables) (headers : Headers) : Prop :=
  (headers.entries.map fun entry => tables.lower (trimmed entry.1)).Nodup

variable {viable : Bytes → Bool} {tables : CaseTables} {destinationID method : String} {headers : Headers}
  {body : Bytes}

theorem spelled_quote {name : String} (hName : (ascii name).all isSafe = true) (text : Bytes) :
    Member.Spelled ⟨ascii name, .string (quoted text), quote text⟩ :=
  ⟨chars_of_safe (List.all_eq_true.mp hName), .string (chars_quoted text)⟩

theorem reads_marshalSubmission : Reads (.value (.object ((submissionMembers destinationID method headers body).map
    Member.pair))) (marshalSubmission destinationID method headers body) [] := by
  have hName : Chars (ascii "headers") := chars_of_safe (List.all_eq_true.mp (by decide))
  refine reads_objectText ?_
  simp only [submissionMembers, List.forall_mem_cons, List.not_mem_nil, false_imp_iff, implies_true, and_true]
  exact ⟨spelled_quote (by decide) _, spelled_quote (by decide) _, ⟨hName, reads_marshalMap _⟩,
    spelled_quote (by decide) _⟩

theorem depthMembers_member (entries : List (Bytes × Bytes)) : depthMembers (entries.map member) = 0 := by
  induction entries with
  | nil => rfl
  | cons entry rest ih =>
    rw [List.map_cons, member, depthMembers, ih]
    rfl

theorem depth_submission :
    (Value.object ((submissionMembers destinationID method headers body).map Member.pair)).depth ≤
      maxNestingDepth := by
  simp [submissionMembers, Member.pair, Value.depth, depthMembers, depthMembers_member, maxNestingDepth]

/-! ## Reading it back -/

/-- A body within the limit that holds one value and nothing else. -/
theorem decodeBody_of_reads {σ : Type} {limit : Nat} {fields : List (RawField σ)} {zero result : σ} {v : Value}
    (hReads : Reads (.value v) body []) (hSize : body.length ≤ limit) (hDepth : v.depth ≤ maxNestingDepth)
    (hDecode : decodeRawStruct fields v body zero = some result) :
    decodeBody viable limit fields zero body = .ok result := by
  have hNext : next body = .value v [] := next_eq_value_iff.mpr ⟨[], body, space_nil, rfl, hReads⟩
  have hSkip : skipSpace body = body := hReads.skip space_nil
  have hText : textBefore body [] = body := List.take_length
  have hEof : next [] = .eof := next_eq_eof_iff.mpr space_nil
  simp only [decodeBody, List.take_of_length_le hSize, hNext, hSkip, hText, hDecode, hEof,
    decide_eq_false (Nat.not_lt.mpr hSize), decide_eq_true hDepth, ensure, Bool.not_false, Bool.true_or, if_true,
    Option.elim_some, bind, Except.bind, Bool.false_eq_true, if_false]

theorem storeText_destinationID {member : Member} {raw : Bytes} (s : SubmissionBody)
    (h : member.pair = (ascii "destination_id", .string raw)) :
    storeText submissionFields s member = some { s with destinationID := unquote raw } := by
  obtain ⟨_, _, text⟩ := member
  obtain ⟨rfl, rfl⟩ := Prod.mk.inj h
  rfl

theorem storeText_method {member : Member} {raw : Bytes} (s : SubmissionBody)
    (h : member.pair = (ascii "method", .string raw)) :
    storeText submissionFields s member = some { s with method := unquote raw } := by
  obtain ⟨_, _, text⟩ := member
  obtain ⟨rfl, rfl⟩ := Prod.mk.inj h
  rfl

theorem storeText_headers {member : Member} {v : Value} (s : SubmissionBody)
    (h : member.pair = (ascii "headers", v)) :
    storeText submissionFields s member = some { s with headers := member.text } := by
  obtain ⟨_, _, text⟩ := member
  obtain ⟨rfl, rfl⟩ := Prod.mk.inj h
  rfl

theorem storeText_bodyBase64 {member : Member} {raw : Bytes} (s : SubmissionBody)
    (h : member.pair = (ascii "body_base64", .string raw)) :
    storeText submissionFields s member = some { s with bodyBase64 := unquote raw } := by
  obtain ⟨_, _, text⟩ := member
  obtain ⟨rfl, rfl⟩ := Prod.mk.inj h
  rfl

theorem unquote_encode (text : String) : unquote (quoted (encode text)) = encode text := by
  rw [unquote_quoted]
  exact replaceInvalid_eq_self_iff.mpr (validString_utf8 _)

theorem unquote_base64 (body : Bytes) :
    unquote (quoted (Base64.encodeToString body)) = Base64.encodeToString body := by
  rw [unquote_quoted, replaceInvalid_eq_self_iff, ← utf8_ascii (Base64.ascii_encodeToString body)]
  exact validString_utf8 _

/-- The struct that is read back. The headers are some text with the same members. -/
theorem decodeRawStruct_submission {text : Bytes}
    (h : Reads (.value (.object ((submissionMembers destinationID method headers body).map Member.pair))) text []) :
    ∃ raw, Reads (.value (.object ((encodeHeaders headers).entries.map member))) raw [] ∧
      decodeRawStruct submissionFields
        (.object ((submissionMembers destinationID method headers body).map Member.pair)) text ⟨[], [], [], []⟩ =
        some ⟨encode destinationID, encode method, raw, Base64.encodeToString body⟩ := by
  obtain ⟨found, hFound, hPairs, hTexts⟩ := objectTexts_of_reads h
  obtain ⟨first, found, rfl, hFirst, hPairs⟩ := List.map_eq_cons_iff.mp hPairs
  obtain ⟨second, found, rfl, hSecond, hPairs⟩ := List.map_eq_cons_iff.mp hPairs
  obtain ⟨third, found, rfl, hThird, hPairs⟩ := List.map_eq_cons_iff.mp hPairs
  obtain ⟨fourth, found, rfl, hFourth, hPairs⟩ := List.map_eq_cons_iff.mp hPairs
  obtain rfl := List.map_eq_nil_iff.mp hPairs
  have hHeaders := hTexts third (by simp)
  rw [show third.value = _ from (Prod.mk.inj hThird).2] at hHeaders
  refine ⟨third.text, hHeaders, ?_⟩
  simp only [decodeRawStruct, hFound, Option.bind_some, List.foldlM_cons, List.foldlM_nil,
    storeText_destinationID _ hFirst, storeText_method _ hSecond, storeText_headers _ hThird,
    storeText_bodyBase64 _ hFourth, unquote_encode, unquote_base64, Option.bind_eq_bind, Option.pure_def]

/-- The map of a Go program that a `Headers` stands for. -/
def toMap (headers : Headers) : SortedMap String String := ⟨headers.entries, headers.sorted⟩

theorem encodeHeaders_perm (headers : Headers) :
    (encodeHeaders headers).entries.Perm (headers.entries.map encodeEntry) := by
  refine SortedMap.perm_fill_empty ?_
  have hNames : ((headers.entries.map Prod.fst).map encode).Nodup :=
    (toMap headers).nodup_keys.map fun _ _ => Raw.encode_injective
  rwa [List.map_map] at hNames ⊢

theorem decodeHeaders_encode (headers : Headers) : decodeHeaders (encodeHeaders headers) = headers := by
  have hPerm : ((encodeHeaders headers).entries.map fun entry => (decodeText entry.1, decodeText entry.2)).Perm
      headers.entries := by
    refine ((encodeHeaders_perm headers).map _).trans (.of_eq ?_)
    rw [List.map_map]
    refine (List.map_congr_left fun entry _ => ?_).trans (List.map_id' _)
    exact Prod.ext (decodeText_encode _) (decodeText_encode _)
  have hSame : SortedMap.fill .empty ((encodeHeaders headers).entries.map fun entry =>
      (decodeText entry.1, decodeText entry.2)) = toMap headers := by
    refine SortedMap.eq_of_perm ((SortedMap.perm_fill_empty ?_).trans hPerm)
    exact (hPerm.map Prod.fst).nodup_iff.mpr (toMap headers).nodup_keys
  simp only [decodeHeaders, hSame, toMap]

theorem decodeCallerHeaders_encode (hDistinct : DistinctNames tables headers) {text : Bytes}
    (hText : Reads (.value (.object ((encodeHeaders headers).entries.map member))) text []) :
    Raw.decodeCallerHeaders tables text = .ok (encodeHeaders headers) := by
  have hPerm := encodeHeaders_perm headers
  have hEntries : (encodeHeaders headers).entries.map (Raw.entryOf ∘ member) = (encodeHeaders headers).entries := by
    refine (List.map_congr_left fun entry hEntry => ?_).trans (List.map_id' _)
    obtain ⟨source, _, rfl⟩ := List.mem_map.mp (hPerm.mem_iff.mp hEntry)
    exact Prod.ext (unquote_encode _) (unquote_encode _)
  have hNames : ((headers.entries.map encodeEntry).map (Raw.canonicalName tables ∘ member)) =
      (headers.entries.map fun entry => tables.lower (trimmed entry.1)).map encode := by
    rw [List.map_map, List.map_map]
    refine List.map_congr_left fun entry _ => ?_
    simp only [Function.comp_apply, Raw.canonicalName, member, encodeEntry, unquote_encode, Raw.trimSpace_encode,
      Raw.toLower_encode]
  refine (Raw.decodeCallerHeaders_object hText).mpr ⟨⟨?_, ?_⟩, ?_⟩
  · intro pair hPair
    obtain ⟨entry, _, rfl⟩ := List.mem_map.mp hPair
    rfl
  · rw [List.map_map, (hPerm.map _).nodup_iff, hNames]
    exact List.Nodup.map (fun _ _ => Raw.encode_injective) hDistinct
  · rw [List.map_map, hEntries]
    exact (SortedMap.eq_of_perm (SortedMap.perm_fill_empty (encodeHeaders headers).nodup_keys)).symm

/-- What a caller submits is what the handler gets: the destination, the method, the headers and the body. -/
theorem submission_round_trip (hDistinct : DistinctNames tables headers)
    (hSize : (marshalSubmission destinationID method headers body).length ≤ maxSubmissionJSONBytes) :
    decodeSubmission viable tables (marshalSubmission destinationID method headers body) =
      .ok ⟨destinationID, method, some headers, some body⟩ := by
  obtain ⟨raw, hRaw, hStruct⟩ := decodeRawStruct_submission reads_marshalSubmission
  rw [decodeSubmission, decodeBody_of_reads reads_marshalSubmission hSize depth_submission hStruct]
  simp only [bind, Except.bind, decodeCallerHeaders_encode hDistinct hRaw, Except.toOption, Option.map_some,
    decodeText_encode, decodeHeaders_encode, Base64.decodeString_encodeToString]
  rfl

/-- A header with blanks and letters beyond ASCII, and a body that is not text. -/
theorem submission_round_trip_binary :
    decodeSubmission (fun _ => true) Sample.caseTables
        (marshalSubmission "orders" "POST" (Headers.empty.insert "X-Größe" " \"1\" ") [0, 255, 10]) =
      .ok ⟨"orders", "POST", some (Headers.empty.insert "X-Größe" " \"1\" "), some [0, 255, 10]⟩ :=
  submission_round_trip (List.nodup_singleton _) (by decide +kernel)

/-! ## Bodies that are too long -/

/-- `POST /deliveries` with this body. -/
def postDeliveries (viable : Bytes → Bool) (platform : Platform) (authorization idempotencyKey : String)
    (body : Bytes) : Request :=
  .submit authorization idempotencyKey (decodeSubmission viable platform.tables body)

/-- `POST /deliveries/{id}/replay` with this body. -/
def postReplay (viable : Bytes → Bool) (authorization id : String) (body : Bytes) : Request :=
  .replay authorization id (decodeReplay viable body)

theorem decodeBody_over {σ : Type} {limit : Nat} {fields : List (RawField σ)} {zero result : σ}
    (h : limit < body.length) : decodeBody viable limit fields zero body ≠ .ok result := by
  intro hDecode
  simp only [decodeBody, decide_eq_true h, if_true] at hDecode
  split at hDecode
  · cases hDecode
  · cases hDecode
  · simp only [bind_ok_iff, ensure_ok_iff] at hDecode
    obtain ⟨_, _, _, _, input, _, hEnd⟩ := hDecode
    split at hEnd
    · cases hEnd
    · cases hEnd

/-- A request with a body over the limit of its handler commits nothing at any time and is not answered with 202,
whatever the body holds. -/
theorem oversized_body_commits_nothing {platform : Platform} {history : List Label} {w : World} {i : Nat}
    {authorization key id : String} {request : Request} (h : Run platform history w)
    (hBody : request = postDeliveries viable platform authorization key body ∧ maxSubmissionJSONBytes < body.length ∨
      request = postReplay viable authorization id body ∧ 4096 < body.length)
    (hRequest : (w.procs i).request = some request) :
    commits i history = [] ∧ ∀ reply, w.procs i = .answered request reply → reply.status ≠ 202 := by
  have hNone : commits i history = [] := by
    refine List.eq_nil_iff_forall_not_mem.mpr fun commit hCommit => ?_
    obtain ⟨asked, hSame, hAsks⟩ := (h.sound i).asks commit hCommit
    cases hRequest.symm.trans hSame
    rcases hBody with ⟨rfl, hOver⟩ | ⟨rfl, hOver⟩
    · generalize hPost : postDeliveries viable platform authorization key body = request at hAsks
      cases hAsks with
      | submit _ hPrepared _ =>
        obtain ⟨input, hInput, _⟩ := hPrepared.input
        rw [hInput] at hPost
        obtain ⟨raw, hRaw, _⟩ := bind_ok_iff.mp (Request.submit.inj hPost).2.2
        exact decodeBody_over hOver hRaw
      | replay => cases hPost
    · generalize hPost : postReplay viable authorization id body = request at hAsks
      cases hAsks with
      | submit => cases hPost
      | replay =>
        obtain ⟨raw, hRaw, _⟩ := Option.map_eq_some_iff.mp (Request.replay.inj hPost).2.2
        exact decodeBody_over hOver (toOption_eq_some_iff.mp hRaw)
  refine ⟨hNone, fun reply hAnswered => ?_⟩
  have hAnswer := h.sound i
  rw [hAnswered] at hAnswer
  cases hAnswer with
  | refused hStatus => exact hStatus.1
  | failed => decide
  | submitted hOne | replayed hOne => cases hNone.symm.trans hOne
  | shown => exact show 200 ≠ 202 by decide

def reasonBody : Bytes := encode "\x7b\"reason\":\"repaired\"\x7d"

/-- An operator's replay, with blanks after the value up to one byte over the limit. -/
theorem oversized_body_commits_nothing_operator :
    decodeReplay (fun _ => true) reasonBody = some "repaired" ∧
      ∃ (history : List Label) (w : World) (reply : Reply), Run Sample.apiPlatform history w ∧
        w.shared.operators "shop" = true ∧
        w.procs 0 = .answered (postReplay (fun _ => true) "Bearer key" (uuidText 100)
          (reasonBody ++ .replicate 4076 32)) reply ∧
        reply = .ofError ⟨400, "invalid_replay", "replay request is invalid"⟩ ∧
        commits 0 history = [] ∧ reply.status ≠ 202 := by
  refine ⟨by decide +kernel, ?_⟩
  have hLength : 4096 < (reasonBody ++ .replicate 4076 32).length := by
    rw [List.length_append, List.length_replicate]
    decide +kernel
  have hDecode : decodeReplay (fun _ => true) (reasonBody ++ .replicate 4076 32) = none := by
    rw [decodeReplay, Option.map_eq_none_iff, Option.eq_none_iff_forall_ne_some]
    exact fun raw hRaw => decodeBody_over hLength (toOption_eq_some_iff.mp hRaw)
  have hPlay : (LabelledRun.play (execute Sample.apiPlatform) [] (start 0)
      [.commit 1 (.bootstrap 3 Sample.config), .appoint "shop",
        .arrive 0 (.replay "Bearer key" (uuidText 100) none), .next 0 2 0 (0, 0, 0)]).any (fun run =>
      run.2.shared.operators "shop" && run.2.procs 0 = .answered (.replay "Bearer key" (uuidText 100) none)
        (.ofError ⟨400, "invalid_replay", "replay request is invalid"⟩)) = true := by
    decide +kernel
  obtain ⟨⟨history, w⟩, hRun, hFacts⟩ := (Option.any_eq_true _ _).mp hPlay
  simp only [Bool.and_eq_true, decide_eq_true_eq] at hFacts
  obtain ⟨hOperator, hAnswered⟩ := hFacts
  rw [← hDecode] at hAnswered
  have h := run_of_play hRun
  obtain ⟨hNone, hStatus⟩ := @oversized_body_commits_nothing (fun _ => true) _ _ _ _ 0 "Bearer key" "" _ _ h
    (.inr ⟨rfl, hLength⟩) (congrArg Handler.request hAnswered)
  exact ⟨history, w, _, h, hOperator, hAnswered, rfl, hNone, hStatus _ hAnswered⟩

end ReliableNotifier.Api
