import Mathlib.Data.Nat.Digits.Lemmas
import ReliableNotifier.Wire.SignalSchema

/-! # Signals survive the wire

The body of a published signal decodes to the signal and validates, also after the signal
has been deferred any number of times. The identifiers are of the form that `newUUID`
prints or of the form in which PostgreSQL returns a `uuid`; both consist of hexadecimal
digits and dashes, which JSON keeps as they are.
-/

namespace ReliableNotifier.Wire

open Json

/-- `json.Marshal`, as `publishSignal` uses it. -/
def marshal (signal : Signal) : Bytes :=
  ascii "\x7b\"delivery_id\":" ++ quote signal.deliveryID ++ ascii ",\"generation\":" ++
    appendInt signal.generation ++ ascii ",\"trace_id\":" ++ quote signal.traceID ++ ascii "\x7d"

/-- The body after so many deferrals of what was decoded. -/
def deferred : Nat → Bytes → Option Bytes
  | 0, body => some body
  | n + 1, body => (deferred n body).bind fun body => (decodeSignal body).map marshal

/-! ## Identifiers -/

/-- The verb `%x` for a slice of bytes, padded with zeros. -/
def formatHex (width : Nat) (slice : Bytes) : Bytes :=
  List.replicate (width - 2 * slice.length) 48 ++
    slice.flatMap fun b => [byte (Nat.digitChar (b.toNat / 16)), byte (Nat.digitChar (b.toNat % 16))]

def newUUID (random : Vector UInt8 16) : Bytes :=
  let value := ((random.set 6 ((random[6] &&& 0x0f) ||| 0x40)).set 8 ((random[8] &&& 0x3f) ||| 0x80)).toList
  formatHex 8 (value.take 4) ++ 45 :: (formatHex 4 ((value.drop 4).take 2) ++
    45 :: (formatHex 4 ((value.drop 6).take 2) ++ 45 :: (formatHex 4 ((value.drop 8).take 2) ++
      45 :: formatHex 12 ((value.drop 10).take 6))))

/-- The texts of identifiers that the program hands to `publishSignal`. -/
inductive Identifier : Bytes → Prop
  | generated (random : Vector UInt8 16) : Identifier (newUUID random)
  | stored {id : UUID} (h : id < 2 ^ 128) : Identifier (ascii (uuidText id))

theorem isHex_digitChar : ∀ {d : Nat}, d < 16 → isHex (byte (Nat.digitChar d)) = true := by
  decide

/-- The digits that both `newUUID` and PostgreSQL write. -/
def LowerHex (c : UInt8) : Prop := ∃ k < 16, c = byte (Nat.digitChar k)

theorem lowerHex_formatHex {width : Nat} {slice : Bytes} : ∀ c ∈ formatHex width slice, LowerHex c := by
  intro c hc
  rcases List.mem_append.mp hc with hPad | hDigit
  · exact ⟨0, by decide, List.eq_of_mem_replicate hPad⟩
  · obtain ⟨b, _, hb⟩ := List.mem_flatMap.mp hDigit
    have hByte := b.toNat_lt
    simp only [List.mem_cons, List.not_mem_nil, or_false] at hb
    rcases hb with rfl | rfl
    · exact ⟨b.toNat / 16, by omega, rfl⟩
    · exact ⟨b.toNat % 16, by omega, rfl⟩

theorem isHex_formatHex {width : Nat} {slice : Bytes} : ∀ c ∈ formatHex width slice, isHex c = true := by
  intro c hc
  obtain ⟨k, hk, rfl⟩ := lowerHex_formatHex c hc
  exact isHex_digitChar hk

theorem length_formatHex {width : Nat} {slice : Bytes} (h : 2 * slice.length = width) :
    (formatHex width slice).length = width := by
  have hDigits : (slice.flatMap fun b =>
      [byte (Nat.digitChar (b.toNat / 16)), byte (Nat.digitChar (b.toNat % 16))]).length = 2 * slice.length := by
    induction slice generalizing width with
    | nil => rfl
    | cons b rest ih => simp [ih rfl]; omega
  rw [formatHex, List.length_append, hDigits, List.length_replicate]
  omega

theorem uuidForm_newUUID (random : Vector UInt8 16) : UUIDForm (newUUID random) := by
  unfold newUUID
  generalize hValue : ((random.set 6 _).set 8 _).toList = value
  have hLength : value.length = 16 := by
    rw [← hValue]
    simp
  refine ⟨_, _, _, _, _, rfl, ⟨?_, ?_, ?_, ?_, ?_⟩, ?_⟩
  · exact length_formatHex (by simp [hLength])
  · exact length_formatHex (by simp [hLength])
  · exact length_formatHex (by simp [hLength])
  · exact length_formatHex (by simp [hLength])
  · exact length_formatHex (by simp [hLength])
  · simp only [List.forall_mem_append]
    exact ⟨⟨⟨⟨isHex_formatHex, isHex_formatHex⟩, isHex_formatHex⟩, isHex_formatHex⟩, isHex_formatHex⟩

theorem isHex_hexGroup {width n : Nat} : ∀ c ∈ (hexGroup width n).map byte, isHex c = true := by
  intro c hc
  obtain ⟨x, hx, rfl⟩ := List.mem_map.mp hc
  obtain ⟨k, hk, rfl⟩ := mem_hexGroup hx
  exact isHex_digitChar hk

theorem uuidForm_uuidText {id : UUID} (h : id < 2 ^ 128) : UUIDForm (ascii (uuidText id)) := by
  have hFirst (n : Nat) (h : n < 2 ^ 128) : n / 16 ^ 24 < 16 ^ 8 := by
    omega
  have hLength {width : Nat} (n : Nat) (hWidth : 0 < width) (h : n < 16 ^ width) :
      ((hexGroup width n).map byte).length = width := by
    rw [List.length_map, hexGroup_length hWidth h]
  have hMod (n width : Nat) : n % 16 ^ width < 16 ^ width := Nat.mod_lt _ (Nat.pow_pos (by decide))
  refine ⟨(hexGroup 8 (id / 16 ^ 24)).map byte, (hexGroup 4 (id / 16 ^ 20 % 16 ^ 4)).map byte,
    (hexGroup 4 (id / 16 ^ 16 % 16 ^ 4)).map byte, (hexGroup 4 (id / 16 ^ 12 % 16 ^ 4)).map byte,
    (hexGroup 12 (id % 16 ^ 12)).map byte, ?_, ⟨?_, ?_, ?_, ?_, ?_⟩, ?_⟩
  · simp only [ascii, uuidText, String.toList_ofList, List.intercalate, List.intersperse, List.flatten_cons,
      List.flatten_nil, List.map_append, List.append_nil]
    rfl
  · exact hLength _ (by decide) (hFirst id h)
  · exact hLength _ (by decide) (hMod _ 4)
  · exact hLength _ (by decide) (hMod _ 4)
  · exact hLength _ (by decide) (hMod _ 4)
  · exact hLength _ (by decide) (hMod _ 12)
  · simp only [List.forall_mem_append]
    exact ⟨⟨⟨⟨isHex_hexGroup, isHex_hexGroup⟩, isHex_hexGroup⟩, isHex_hexGroup⟩, isHex_hexGroup⟩

theorem Identifier.uuidForm {text : Bytes} (h : Identifier text) : UUIDForm text := by
  cases h with
  | generated random => exact uuidForm_newUUID random
  | stored h => exact uuidForm_uuidText h

theorem isSafe_of_isHex {c : UInt8} (h : isHex c = true) : isSafe c = true := by
  have hBound : ∀ n < 256, isHex (.ofNat n) = true → isSafe (.ofNat n) = true := by
    decide +kernel
  simpa using hBound c.toNat c.toNat_lt (by simpa using h)

theorem UUIDForm.isSafe {text : Bytes} (h : UUIDForm text) : ∀ c ∈ text, isSafe c = true := by
  obtain ⟨a, b, c, d, e, rfl, _, hHex⟩ := h
  have hSafe : ∀ x, x ∈ a ∨ x ∈ b ∨ x ∈ c ∨ x ∈ d ∨ x ∈ e → Json.isSafe x = true := fun x hx =>
    isSafe_of_isHex (hHex x (by simpa [or_assoc] using hx))
  intro x hx
  simp only [List.mem_append, List.mem_cons] at hx
  by_cases hDash : x = 45
  · rw [hDash]
    decide
  · exact hSafe x (by simpa [hDash] using hx)

/-! ## Round trip -/

/-- The grammar reads the three members from what is written. -/
theorem reads_marshal {signal : Signal} (hDelivery : ∀ c ∈ signal.deliveryID, isSafe c = true)
    (hNumber : isNumber (appendInt signal.generation) = true) (hTrace : ∀ c ∈ signal.traceID, isSafe c = true) :
    Reads (.value (.object [(ascii "delivery_id", .string signal.deliveryID),
      (ascii "generation", .number (appendInt signal.generation)), (ascii "trace_id", .string signal.traceID)]))
      (marshal signal) [] := by
  have hGap : Space [] := List.forall_mem_nil _
  have hName {text : String} (h : (ascii text).all Json.isSafe = true) : Chars (ascii text) :=
    chars_of_safe (List.all_eq_true.mp h)
  have hBody : marshal signal = 123 :: ([] ++ 34 :: (ascii "delivery_id" ++ 34 :: ([] ++ 58 :: ([] ++
      (34 :: (signal.deliveryID ++ 34 :: ([] ++ 44 :: ([] ++ 34 :: (ascii "generation" ++ 34 :: ([] ++ 58 :: ([] ++
      (appendInt signal.generation ++ ([] ++ 44 :: ([] ++ 34 :: (ascii "trace_id" ++ 34 :: ([] ++ 58 :: ([] ++
      (34 :: (signal.traceID ++ 34 :: ([] ++ 125 :: [])))))))))))))))))))) := by
    rw [marshal, quote_of_safe hDelivery, quote_of_safe hTrace,
      show ascii "\x7b\"delivery_id\":" = 123 :: 34 :: (ascii "delivery_id" ++ [34, 58]) by decide,
      show ascii ",\"generation\":" = 44 :: 34 :: (ascii "generation" ++ [34, 58]) by decide,
      show ascii ",\"trace_id\":" = 44 :: 34 :: (ascii "trace_id" ++ [34, 58]) by decide,
      show ascii "\x7d" = [125] by decide]
    simp only [List.nil_append, List.append_assoc, List.cons_append]
  rw [hBody]
  refine .object (.members hGap (hName (by decide)) hGap hGap (.string (chars_of_safe hDelivery))
    (.moreMembers hGap ?_))
  refine .members hGap (hName (by decide)) hGap hGap (.number hNumber ?_) (.moreMembers hGap ?_)
  · intro c hc
    cases hc
    decide
  · exact .members hGap (hName (by decide)) hGap hGap (.string (chars_of_safe hTrace)) (.endMembers hGap)

/-- A signal that the program hands to `publishSignal`. -/
structure Emitted (signal : Signal) : Prop where
  deliveryID : Identifier signal.deliveryID
  generation : 0 ≤ signal.generation ∧ signal.generation < 2 ^ 63
  traceID : Identifier signal.traceID

theorem emitted_mk {deliveryID traceID : Bytes} {n : Int} (hDelivery : Identifier deliveryID) (h : 0 ≤ n ∧ n < 2 ^ 63)
    (hTrace : Identifier traceID) : Emitted ⟨deliveryID, n, traceID⟩ :=
  ⟨hDelivery, h, hTrace⟩

/-- What validates, and has a generation that Go can hold, is read back as it is written. -/
theorem accepts_marshal {signal : Signal} (hValid : signal.validate = .ok ()) (hRange : signal.generation < 2 ^ 63) :
    Accepts (marshal signal) signal := by
  obtain ⟨deliveryID, n, traceID⟩ := signal
  obtain ⟨hDelivery, hLow, hTrace⟩ := Signal.validate_eq_ok_iff.mp hValid
  have hDeliverySafe := (validUUID_iff.mp hDelivery).isSafe
  have hTraceSafe := (validUUID_iff.mp hTrace).isSafe
  dsimp only at hLow hRange
  lift n to Nat using hLow
  have hReads := reads_marshal hDeliverySafe (isNumber_appendInt n) hTraceSafe
  have hNext : next (marshal ⟨deliveryID, n, traceID⟩) = .value _ [] :=
    next_eq_value_iff.mpr ⟨[], _, List.forall_mem_nil _, rfl, hReads⟩
  refine ⟨decodeSignal_eq_some_iff.mpr ⟨_, [], hNext, List.forall_mem_nil _, ?_⟩, hValid⟩
  have hNamed : named [(ascii "delivery_id", .string deliveryID), (ascii "generation", .number (appendInt n)),
      (ascii "trace_id", .string traceID)] = [(ascii "delivery_id", .string deliveryID),
      (ascii "generation", .number (appendInt n)), (ascii "trace_id", .string traceID)] := rfl
  rw [decodeStruct, hNamed, foldlM_of_perm (.refl _), parseInt64_appendInt (by omega), unquote_of_safe hDeliverySafe,
    unquote_of_safe hTraceSafe]
  rfl

theorem Emitted.accepts {signal : Signal} (h : Emitted signal) : Accepts (marshal signal) signal :=
  accepts_marshal (Signal.validate_eq_ok_iff.mpr ⟨validUUID_iff.mpr h.deliveryID.uuidForm, h.generation.1,
    validUUID_iff.mpr h.traceID.uuidForm⟩) h.generation.2

theorem Emitted.deferred_eq {signal : Signal} (h : Emitted signal) (n : Nat) :
    deferred n (marshal signal) = some (marshal signal) := by
  induction n with
  | zero => rfl
  | succ n ih => rw [deferred, ih, Option.bind_some, h.accepts.1, Option.map_some]

/-- An emitted signal is decoded and validates, after any number of deferrals, and is never dead-lettered. No other
signal has its body. -/
theorem signals_survive {signal : Signal} (h : Emitted signal) :
    (∀ n, ∃ body, deferred n (marshal signal) = some body ∧ Accepts body signal ∧
      ∀ (σ : Type) (consumer : Consumer σ) (store : σ), .nack false ∉ (processMessage consumer body store).calls) ∧
    ∀ other, Emitted other → other ≠ signal → marshal other ≠ marshal signal := by
  refine ⟨fun n => ⟨marshal signal, h.deferred_eq n, h.accepts, fun σ consumer store => ?_⟩,
    fun other hOther hNe hSame => ?_⟩
  · exact (processMessage_accepted h.accepts consumer store).2
  · have hDecode := hOther.accepts.1
    rw [hSame, h.accepts.1] at hDecode
    exact hNe (Option.some.inj hDecode).symm

theorem signals_survive_twice :
    ∃ body, deferred 2 (marshal ⟨newUUID (.replicate 16 255), 2 ^ 63 - 1, ascii (uuidText 1)⟩) = some body ∧
      Accepts body ⟨newUUID (.replicate 16 255), 2 ^ 63 - 1, ascii (uuidText 1)⟩ := by
  have hEmitted : Emitted ⟨newUUID (.replicate 16 255), 2 ^ 63 - 1, ascii (uuidText 1)⟩ :=
    emitted_mk (.generated _) (by decide) (.stored (by decide))
  obtain ⟨body, hBody, hAccepts, _⟩ := (signals_survive hEmitted).1 2
  exact ⟨body, hBody, hAccepts⟩

/-! ## The signals of the store -/

/-- The texts that PostgreSQL returns for a signal. -/
def render (signal : ReliableNotifier.Signal) : Signal :=
  ⟨ascii (uuidText signal.deliveryID), signal.generation, ascii (uuidText signal.traceID)⟩

/-- Bytes and characters stand for the same number. -/
theorem uuidValue_ascii {text : String} (h : ∀ c ∈ text.toList, c = '-' ∨ ∃ k < 16, c = Nat.digitChar k) :
    uuidValue (ascii text) = uuidNumber text := by
  have hByte : ∀ k < 16, byte (Nat.digitChar k) ≠ 45 ∧ hexValue (byte (Nat.digitChar k)) = k := by
    decide
  have hFilter : text.toList.filter ((fun c : UInt8 => decide (c ≠ 45)) ∘ byte) = text.toList.filter (· ≠ '-') := by
    refine List.filter_congr fun c hc => ?_
    rcases h c hc with rfl | ⟨k, hk, rfl⟩
    · decide
    · simp [(hByte k hk).1, digitChar_ne_dash hk]
  rw [uuidValue, ascii, List.filter_map, hFilter, List.foldl_map, uuidNumber, hexNumber]
  refine List.foldl_ext _ _ _ fun n c hc => ?_
  obtain ⟨hMem, hDash⟩ := List.mem_filter.mp hc
  rcases h c hMem with rfl | ⟨k, hk, rfl⟩
  · exact absurd hDash (by decide)
  · rw [(hByte k hk).2, hexDigit_digitChar hk, Option.getD_some]

theorem uuidText_digits {id : UUID} : ∀ c ∈ (uuidText id).toList, c = '-' ∨ ∃ k < 16, c = Nat.digitChar k := by
  intro c hc
  simp only [uuidText, String.toList_ofList, List.intercalate, List.intersperse, List.flatten_cons, List.flatten_nil,
    List.mem_append, List.mem_singleton, List.not_mem_nil, or_false] at hc
  by_cases hDash : c = '-'
  · exact .inl hDash
  · simp only [hDash, false_or] at hc
    rcases hc with h | h | h | h | h <;> exact .inr (mem_hexGroup h)

theorem uuidValue_uuidText (id : UUID) : uuidValue (ascii (uuidText id)) = id :=
  (uuidValue_ascii uuidText_digits).trans (uuidNumber_uuidText id)

/-! ## Identifiers read back -/

theorem hexValue_of_lowerHex {c : UInt8} (h : LowerHex c) :
    hexValue c < 16 ∧ byte (Nat.digitChar (hexValue c)) = c := by
  have hDigits : ∀ k < 16, hexValue (byte (Nat.digitChar k)) = k := by
    decide
  obtain ⟨k, hk, rfl⟩ := h
  rw [hDigits k hk]
  exact ⟨hk, rfl⟩

/-- The form of an identifier, in lower case. -/
structure LowerForm (text : Bytes) : Prop where
  form : UUIDForm text
  lower : ∀ c ∈ text.filter (· ≠ 45), LowerHex c

/-- The groups, and the digits without the dashes. -/
theorem UUIDForm.digits {text : Bytes} (h : UUIDForm text) :
    ∃ a b c d e : Bytes, text = a ++ 45 :: (b ++ 45 :: (c ++ 45 :: (d ++ 45 :: e))) ∧
      (a.length = 8 ∧ b.length = 4 ∧ c.length = 4 ∧ d.length = 4 ∧ e.length = 12) ∧
      text.filter (· ≠ 45) = a ++ (b ++ (c ++ (d ++ e))) := by
  obtain ⟨a, b, c, d, e, rfl, hLengths, hHex⟩ := h
  refine ⟨a, b, c, d, e, rfl, hLengths, ?_⟩
  have hKept {group : Bytes} (hGroup : ∀ x ∈ group, isHex x = true) : group.filter (· ≠ 45) = group := by
    refine List.filter_eq_self.mpr fun x hx => decide_eq_true ?_
    rintro rfl
    exact absurd (hGroup _ hx) (by decide)
  have hDash (rest : Bytes) : (45 :: rest).filter (· ≠ 45) = rest.filter (· ≠ 45) :=
    List.filter_cons_of_neg (by decide)
  simp only [List.forall_mem_append] at hHex
  obtain ⟨⟨⟨⟨ha, hb⟩, hc⟩, hd⟩, he⟩ := hHex
  simp only [List.filter_append, hDash, hKept ha, hKept hb, hKept hc, hKept hd, hKept he]

theorem UUIDForm.length_digits {text : Bytes} (h : UUIDForm text) : (text.filter (· ≠ 45)).length = 32 := by
  obtain ⟨a, b, c, d, e, _, ⟨ha, hb, hc, hd, he⟩, hDigits⟩ := h.digits
  rw [hDigits]
  simp only [List.length_append, ha, hb, hc, hd, he]

theorem uuidValue_eq (text : Bytes) :
    uuidValue text = Nat.ofDigits 16 ((text.filter (· ≠ 45)).map hexValue).reverse := by
  simp only [uuidValue, Nat.ofDigits_eq_foldr, List.foldr_reverse, List.foldl_map, Nat.cast_id, Nat.add_comm]

theorem LowerForm.values_lt {text : Bytes} (h : LowerForm text) :
    ∀ n ∈ ((text.filter (· ≠ 45)).map hexValue).reverse, n < 16 := by
  intro n hn
  obtain ⟨c, hc, rfl⟩ := List.mem_map.mp (List.mem_reverse.mp hn)
  exact (hexValue_of_lowerHex (h.lower c hc)).1

theorem LowerForm.uuidValue_lt {text : Bytes} (h : LowerForm text) : uuidValue text < 2 ^ 128 := by
  have hBound := Nat.ofDigits_lt_base_pow_length (by decide) h.values_lt
  rw [← uuidValue_eq, List.length_reverse, List.length_map, h.form.length_digits] at hBound
  exact hBound

/-- A text in lower case is told by the number it stands for. -/
theorem LowerForm.eq_of_uuidValue {text text' : Bytes} (h : LowerForm text) (h' : LowerForm text')
    (hSame : uuidValue text = uuidValue text') : text = text' := by
  have hBack {text : Bytes} (h : LowerForm text) :
      ((text.filter (· ≠ 45)).map hexValue).map (fun n => byte (Nat.digitChar n)) = text.filter (· ≠ 45) := by
    rw [List.map_map]
    exact (List.map_congr_left fun c hc => (hexValue_of_lowerHex (h.lower c hc)).2).trans (List.map_id' _)
  have hLength : ((text.filter (· ≠ 45)).map hexValue).reverse.length =
      ((text'.filter (· ≠ 45)).map hexValue).reverse.length := by
    simp only [List.length_reverse, List.length_map, h.form.length_digits, h'.form.length_digits]
  rw [uuidValue_eq, uuidValue_eq] at hSame
  have hValues := Nat.ofDigits_inj_of_len_eq (by decide) hLength h.values_lt h'.values_lt hSame
  have hDigits := congrArg (List.map fun n => byte (Nat.digitChar n)) (List.reverse_injective hValues)
  rw [hBack h, hBack h'] at hDigits
  obtain ⟨a, b, c, d, e, rfl, ⟨ha, hb, hc, hd, he⟩, hText⟩ := h.form.digits
  obtain ⟨a', b', c', d', e', rfl, ⟨ha', hb', hc', hd', he'⟩, hText'⟩ := h'.form.digits
  rw [hText, hText'] at hDigits
  obtain ⟨rfl, hAfterFirst⟩ := List.append_inj hDigits (ha.trans ha'.symm)
  obtain ⟨rfl, hAfterSecond⟩ := List.append_inj hAfterFirst (hb.trans hb'.symm)
  obtain ⟨rfl, hAfterThird⟩ := List.append_inj hAfterSecond (hc.trans hc'.symm)
  obtain ⟨rfl, rfl⟩ := List.append_inj hAfterThird (hd.trans hd'.symm)
  rfl

theorem lowerForm_newUUID (random : Vector UInt8 16) : LowerForm (newUUID random) := by
  refine ⟨uuidForm_newUUID random, fun c hc => ?_⟩
  obtain ⟨hMem, hDash⟩ := List.mem_filter.mp hc
  have hDash : c ≠ 45 := of_decide_eq_true hDash
  simp only [newUUID, List.mem_append, List.mem_cons, hDash, false_or] at hMem
  rcases hMem with h | h | h | h | h <;> exact lowerHex_formatHex c h

theorem lowerForm_uuidText {id : UUID} (h : id < 2 ^ 128) : LowerForm (ascii (uuidText id)) := by
  refine ⟨uuidForm_uuidText h, fun c hc => ?_⟩
  obtain ⟨hMem, hDash⟩ := List.mem_filter.mp hc
  obtain ⟨x, hx, rfl⟩ := List.mem_map.mp hMem
  rcases uuidText_digits x hx with rfl | hDigit
  · exact absurd hDash (by decide)
  · obtain ⟨k, hk, rfl⟩ := hDigit
    exact ⟨k, hk, rfl⟩

/-- PostgreSQL prints an identifier that `newUUID` made as `newUUID` did. -/
theorem uuidText_newUUID (random : Vector UInt8 16) :
    ascii (uuidText (uuidValue (newUUID random))) = newUUID random := by
  have hGenerated := lowerForm_newUUID random
  exact (lowerForm_uuidText hGenerated.uuidValue_lt).eq_of_uuidValue hGenerated (uuidValue_uuidText _)

end ReliableNotifier.Wire
