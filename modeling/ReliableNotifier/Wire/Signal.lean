import ReliableNotifier.Library.Json.Decode
import ReliableNotifier.Wire.UUID
import ReliableNotifier.Worker.Process

/-! # Signals as bytes

`decodeSignal`, `Signal.Validate` and `processMessage` over the body of a message. A body
that does not decode or validate is refused without requeueing; no other call is made for
it.
-/

namespace ReliableNotifier.Wire

open Json

/-- `dispatch.Signal`, with its identifiers as the texts they are. -/
structure Signal where
  deliveryID : Bytes
  generation : Int
  traceID : Bytes
  deriving DecidableEq

def deliveryIDField : StructField Signal where
  name := ascii "delivery_id"
  store := storeString fun id signal => { signal with deliveryID := id }

def generationField : StructField Signal where
  name := ascii "generation"
  store := storeInt64 fun n signal => { signal with generation := n }

def traceIDField : StructField Signal where
  name := ascii "trace_id"
  store := storeString fun id signal => { signal with traceID := id }

def Signal.fields : List (StructField Signal) := [deliveryIDField, generationField, traceIDField]

def decodeSignal (body : Bytes) : Option Signal :=
  match next body with
  | .value v rest =>
    match decodeStruct Signal.fields v ⟨[], 0, []⟩, next rest with
    | some signal, .eof => some signal
    | _, _ => none
  | _ => none

theorem decodeSignal_eq_some_iff {body : Bytes} {signal : Signal} :
    decodeSignal body = some signal ↔ ∃ v rest, next body = .value v rest ∧ Space rest ∧
      decodeStruct Signal.fields v ⟨[], 0, []⟩ = some signal := by
  constructor
  · intro h
    unfold decodeSignal at h
    split at h
    · rename_i v rest hNext
      split at h
      · rename_i hDecode hEof
        cases h
        exact ⟨v, rest, hNext, next_eq_eof_iff.mp hEof, hDecode⟩
      · cases h
    · cases h
  · rintro ⟨v, rest, hNext, hSpace, hDecode⟩
    simp only [decodeSignal, hNext, hDecode, next_eq_eof_iff.mpr hSpace]

/-! ## Validation -/

/-- `hex.DecodeString` has no error. -/
def decodesHex (text : Bytes) : Bool := text.length % 2 = 0 && text.all isHex

def compact (value : Bytes) : Bytes :=
  value.take 8 ++ (value.drop 9).take 4 ++ (value.drop 14).take 4 ++ (value.drop 19).take 4 ++ value.drop 24

def validUUID (value : Bytes) : Bool :=
  value.length = 36 && value[8]? = some 45 && value[13]? = some 45 && value[18]? = some 45 && value[23]? = some 45 &&
    decodesHex (compact value)

def Signal.validate (signal : Signal) : Except String Unit :=
  if !validUUID signal.deliveryID then .error "dispatch signal delivery_id is not a UUID"
  else if signal.generation < 0 then .error "dispatch signal generation is negative"
  else if !validUUID signal.traceID then .error "dispatch signal trace_id is not a UUID"
  else .ok ()

theorem Signal.validate_eq_ok_iff {signal : Signal} :
    signal.validate = .ok () ↔
      validUUID signal.deliveryID = true ∧ 0 ≤ signal.generation ∧ validUUID signal.traceID = true := by
  unfold validate
  split_ifs <;> simp_all

/-- Groups of 8, 4, 4, 4 and 12 hexadecimal digits. -/
def UUIDForm (text : Bytes) : Prop :=
  ∃ a b c d e : Bytes, text = a ++ 45 :: (b ++ 45 :: (c ++ 45 :: (d ++ 45 :: e))) ∧
    (a.length = 8 ∧ b.length = 4 ∧ c.length = 4 ∧ d.length = 4 ∧ e.length = 12) ∧
    ∀ x ∈ a ++ b ++ c ++ d ++ e, isHex x = true

theorem validUUID_iff {text : Bytes} : validUUID text = true ↔ UUIDForm text := by
  constructor
  · intro h
    simp only [validUUID, decodesHex, Bool.and_eq_true, decide_eq_true_eq, List.all_eq_true] at h
    obtain ⟨⟨⟨⟨⟨hLength, hFirst⟩, hSecond⟩, hThird⟩, hFourth⟩, _, hHex⟩ := h
    have hCut {n : Nat} (h : text[n]? = some 45) : text.drop n = 45 :: text.drop (n + 1) := by
      obtain ⟨hBound, hGet⟩ := List.getElem?_eq_some_iff.mp h
      rw [List.drop_eq_getElem_cons hBound, hGet]
    have hPart (n k : Nat) : text.drop n = (text.drop n).take k ++ text.drop (n + k) := by
      rw [← List.drop_drop, List.take_append_drop]
    refine ⟨text.take 8, (text.drop 9).take 4, (text.drop 14).take 4, (text.drop 19).take 4, text.drop 24, ?_, ?_,
      hHex⟩
    · rw [← hCut hFourth, ← hPart 19 4, ← hCut hThird, ← hPart 14 4, ← hCut hSecond, ← hPart 9 4, ← hCut hFirst,
        List.take_append_drop]
    · simp only [List.length_take, List.length_drop]
      omega
  · rintro ⟨a, b, c, d, e, rfl, ⟨ha, hb, hc, hd, he⟩, hHex⟩
    have hCompact : compact (a ++ 45 :: (b ++ 45 :: (c ++ 45 :: (d ++ 45 :: e)))) = a ++ b ++ c ++ d ++ e := by
      simp (disch := omega) [compact, List.drop_append, List.drop_of_length_le, ha, hb, hc, hd]
    have hEven : (a ++ b ++ c ++ d ++ e).length % 2 = 0 := by
      simp [ha, hb, hc, hd, he]
    simp only [validUUID, hCompact, decodesHex, hEven, List.all_eq_true.mpr hHex]
    simp [ha, hb, hc, hd, he]

/-! ## Handling a message -/

inductive Call where
  | process (signal : Signal)
  | defer (signal : Signal)
  | ack
  | nack (requeue : Bool)
  deriving DecidableEq

/-- The outcomes of the calls that `processMessage` makes. Only `Worker.Process` has the store at hand. -/
structure Consumer (σ : Type) where
  process : Signal → σ → Except String Bool × σ
  defer : Signal → Except String Unit
  ack : Except String Unit
  nack : Bool → Except String Unit

structure Handled (σ : Type) where
  calls : List Call
  store : σ
  result : Except String Unit

variable {σ : Type}

/-- `fmt.Errorf` with the text and the error, if there is one. -/
def wrapError (text : String) (result : Except String Unit) : Except String Unit :=
  result.mapError (text ++ ": " ++ ·)

def processMessage (consumer : Consumer σ) (body : Bytes) (store : σ) : Handled σ :=
  match decodeSignal body with
  | none => ⟨[.nack false], store, wrapError "dead-letter malformed signal" (consumer.nack false)⟩
  | some signal =>
    match signal.validate with
    | .error _ => ⟨[.nack false], store, wrapError "dead-letter invalid signal" (consumer.nack false)⟩
    | .ok _ =>
      match consumer.process signal store with
      | (.error err, store) =>
        ⟨[.process signal, .nack true], store,
          (wrapError "requeue failed delivery signal" (consumer.nack true)).bind fun _ =>
            wrapError "process delivery signal" (.error err)⟩
      | (.ok false, store) =>
        match consumer.defer signal with
        | .error err =>
          ⟨[.process signal, .defer signal, .nack true], store,
            (wrapError "requeue signal after failed deferral" (consumer.nack true)).bind fun _ =>
              wrapError "defer capacity-limited signal" (.error err)⟩
        | .ok _ =>
          ⟨[.process signal, .defer signal, .ack], store,
            wrapError "ack durably deferred delivery signal" consumer.ack⟩
      | (.ok true, store) =>
        ⟨[.process signal, .ack], store, wrapError "ack committed delivery signal" consumer.ack⟩

/-- The body decodes and validates. -/
def Accepts (body : Bytes) (signal : Signal) : Prop := decodeSignal body = some signal ∧ signal.validate = .ok ()

instance (body : Bytes) (signal : Signal) : Decidable (Accepts body signal) :=
  inferInstanceAs (Decidable (_ = some signal ∧ _ = Except.ok ()))

/-- A body that is not accepted is refused for good, and nothing else is called. -/
theorem processMessage_rejected {body : Bytes} (h : ∀ signal, ¬Accepts body signal) (consumer : Consumer σ)
    (store : σ) : (processMessage consumer body store).calls = [.nack false] ∧
      (processMessage consumer body store).store = store := by
  cases hDecode : decodeSignal body with
  | none => simp [processMessage, hDecode]
  | some signal =>
    cases hValid : signal.validate with
    | error => simp [processMessage, hDecode, hValid]
    | ok => exact absurd ⟨hDecode, hValid⟩ (h signal)

/-- An accepted body is handed to the worker and never refused for good. -/
theorem processMessage_accepted {body : Bytes} {signal : Signal} (h : Accepts body signal) (consumer : Consumer σ)
    (store : σ) : .process signal ∈ (processMessage consumer body store).calls ∧
      .nack false ∉ (processMessage consumer body store).calls := by
  simp only [processMessage, h.1, h.2]
  split
  · simp
  · split <;> simp
  · simp

/-- The number that PostgreSQL reads from the text of an identifier. -/
def uuidValue (text : Bytes) : UUID := (text.filter (· ≠ 45)).foldl (fun n c => 16 * n + hexValue c) 0

def Signal.read (signal : Signal) : ReliableNotifier.Signal :=
  ⟨uuidValue signal.deliveryID, signal.generation.toNat, uuidValue signal.traceID⟩

/-- The message as the stages of a consumer take it. -/
def message (body : Bytes) : Option ReliableNotifier.Signal :=
  (decodeSignal body).bind fun signal => if signal.validate = .ok () then some signal.read else none

theorem message_eq_some_iff {body : Bytes} {signal : ReliableNotifier.Signal} :
    message body = some signal ↔ ∃ text, Accepts body text ∧ text.read = signal := by
  simp only [message, Accepts, Option.bind_eq_some_iff, Option.ite_none_right_eq_some, Option.some_inj, and_assoc]

theorem message_eq_none_iff {body : Bytes} : message body = none ↔ ∀ signal, ¬Accepts body signal := by
  rw [Option.eq_none_iff_forall_ne_some]
  simp only [ne_eq, message_eq_some_iff]
  constructor
  · exact fun h text hText => h text.read ⟨text, hText, rfl⟩
  · rintro h signal ⟨text, hText, _⟩
    exact h text hText

end ReliableNotifier.Wire
