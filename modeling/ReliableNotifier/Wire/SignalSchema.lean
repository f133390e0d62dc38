import Mathlib.Tactic.FinCases
import ReliableNotifier.Wire.Signal

/-! # The schema of a signal

A body conforms if it is one object with the three members and no other. The decoder is
laxer: it matches names up to case, lets the last of several members decide, and leaves a
field at its zero value if its member is null or missing. For the two identifiers the zero
value does not validate; for the generation it does.
-/

namespace ReliableNotifier.Wire

open Json

/-- The body is one object between spaces, with such members. -/
def OneObject (P : List (Bytes × Value) → Prop) (body : Bytes) : Prop :=
  ∃ (before text after : Bytes) (members : List (Bytes × Value)),
    (Space before ∧ Space after) ∧ body = before ++ text ∧ Reads (.value (.object members)) text after ∧
    P (named members)

/-- The three members of the schema, in any order. -/
def Exact (members : List (Bytes × Value)) : Prop :=
  ∃ (deliveryID literal traceID : Bytes) (n : Int),
    members.Perm [(ascii "delivery_id", .string deliveryID), (ascii "generation", .number literal),
      (ascii "trace_id", .string traceID)] ∧
    (UUIDForm (unquote deliveryID) ∧ UUIDForm (unquote traceID)) ∧ Spells literal n ∧ 0 ≤ n ∧ n < 2 ^ 63

def Schema (body : Bytes) : Prop := OneObject Exact body

/-- No name is repeated or differs from a field's name in case only, and there is a generation. -/
structure Regular (members : List (Bytes × Value)) : Prop where
  distinct : (members.map Prod.fst).Nodup
  spelled : ∀ member ∈ members, ∀ field ∈ Signal.fields,
    foldName field.name = foldName member.1 → field.name = member.1
  generation : ∃ member ∈ members, member.1 = ascii "generation" ∧ isNull member.2 = false

instance (members : List (Bytes × Value)) : Decidable (Regular members) :=
  decidable_of_iff ((members.map Prod.fst).Nodup ∧
      (∀ member ∈ members, ∀ field ∈ Signal.fields,
        foldName field.name = foldName member.1 → field.name = member.1) ∧
      ∃ member ∈ members, member.1 = ascii "generation" ∧ isNull member.2 = false)
    ⟨fun h => ⟨h.1, h.2.1, h.2.2⟩, fun h => ⟨h.1, h.2, h.3⟩⟩

/-- The member has the name of a field, up to case, and a null or a value of the field's kind. -/
inductive Fits : Bytes × Value → Prop
  | null {name : Bytes} {field : StructField Signal} (hField : field ∈ Signal.fields)
      (hName : foldName field.name = foldName name) : Fits (name, .null)
  | deliveryID {name raw : Bytes} (hName : foldName (ascii "delivery_id") = foldName name) : Fits (name, .string raw)
  | generation {name literal : Bytes} {n : Int} (hName : foldName (ascii "generation") = foldName name)
      (hSpells : Spells literal n) (hBounds : -2 ^ 63 ≤ n ∧ n < 2 ^ 63) : Fits (name, .number literal)
  | traceID {name raw : Bytes} (hName : foldName (ascii "trace_id") = foldName name) : Fits (name, .string raw)

/-- Every member fits, and the last ones that are not null are two identifiers and, if there is one, a
generation that is not negative. -/
structure Loose (members : List (Bytes × Value)) : Prop where
  fits : ∀ member ∈ members, Fits member
  deliveryID : ∃ raw, lastFrom (ascii "delivery_id") .null members = .string raw ∧ UUIDForm (unquote raw)
  generation : ∀ literal n, lastFrom (ascii "generation") .null members = .number literal → Spells literal n → 0 ≤ n
  traceID : ∃ raw, lastFrom (ascii "trace_id") .null members = .string raw ∧ UUIDForm (unquote raw)

/-- One object that is loose and not regular. -/
def Lax (body : Bytes) : Prop := OneObject (fun members => Loose members ∧ ¬Regular members) body

/-! ## Storing a member -/

/-- What a member does to the signal. -/
inductive Stored (signal : Signal) : Bytes × Value → Signal → Prop
  | null {name : Bytes} {field : StructField Signal} (hField : field ∈ Signal.fields)
      (hName : foldName field.name = foldName name) : Stored signal (name, .null) signal
  | deliveryID {name raw : Bytes} (hName : foldName (ascii "delivery_id") = foldName name) :
      Stored signal (name, .string raw) { signal with deliveryID := unquote raw }
  | generation {name literal : Bytes} {n : Int} (hName : foldName (ascii "generation") = foldName name)
      (hInt : parseInt64 literal = some n) : Stored signal (name, .number literal) { signal with generation := n }
  | traceID {name raw : Bytes} (hName : foldName (ascii "trace_id") = foldName name) :
      Stored signal (name, .string raw) { signal with traceID := unquote raw }

theorem findField_fields {name : Bytes} {field : StructField Signal} (hField : field ∈ Signal.fields)
    (hName : foldName field.name = foldName name) : findField Signal.fields name = some field := by
  refine findField_of_fold hField hName fun other hOther hSame => ?_
  fin_cases hField <;> fin_cases hOther <;> first | exact absurd hSame (by decide) | rfl

theorem storeMember_iff {signal signal' : Signal} {member : Bytes × Value} :
    storeMember Signal.fields signal member = some signal' ↔ Stored signal member signal' := by
  constructor
  · intro h
    obtain ⟨name, v⟩ := member
    obtain ⟨field, hFind, hStore⟩ := storeMember_eq_some_iff.mp h
    obtain ⟨hField, hName⟩ := findField_name hFind
    cases v with
    | null =>
      have hSame : some signal = some signal' := by
        fin_cases hField <;> exact hStore
      cases hSame
      exact .null hField hName
    | string raw =>
      fin_cases hField
      · cases hStore
        exact .deliveryID hName
      · cases hStore
      · cases hStore
        exact .traceID hName
    | number literal =>
      fin_cases hField
      · cases hStore
      · obtain ⟨n, hInt, hSet⟩ := Option.map_eq_some_iff.mp hStore
        cases hSet
        exact .generation hName hInt
      · cases hStore
    | bool | array | object => fin_cases hField <;> cases hStore
  · intro h
    refine storeMember_eq_some_iff.mpr ?_
    cases h with
    | @null _ field hField hName =>
      refine ⟨field, findField_fields hField hName, ?_⟩
      fin_cases hField <;> rfl
    | deliveryID hName => exact ⟨deliveryIDField, findField_fields List.mem_cons_self hName, rfl⟩
    | generation hName hInt =>
      refine ⟨generationField, findField_fields (List.mem_of_getElem? (i := 1) rfl) hName, ?_⟩
      exact Option.map_eq_some_iff.mpr ⟨_, hInt, rfl⟩
    | traceID hName => exact ⟨traceIDField, findField_fields (List.mem_of_getElem? (i := 2) rfl) hName, rfl⟩

theorem Stored.fits {signal signal' : Signal} {member : Bytes × Value} (h : Stored signal member signal') :
    Fits member := by
  cases h with
  | null hField hName => exact .null hField hName
  | deliveryID hName => exact .deliveryID hName
  | generation hName hInt =>
    obtain ⟨hSpells, hBounds⟩ := parseInt64_eq_some_iff.mp hInt
    exact .generation hName hSpells hBounds
  | traceID hName => exact .traceID hName

theorem Fits.stored {member : Bytes × Value} (h : Fits member) (signal : Signal) :
    ∃ signal', Stored signal member signal' := by
  cases h with
  | null hField hName => exact ⟨signal, .null hField hName⟩
  | deliveryID hName => exact ⟨_, .deliveryID hName⟩
  | generation hName hSpells hBounds => exact ⟨_, .generation hName (parseInt64_eq_some_iff.mpr ⟨hSpells, hBounds⟩)⟩
  | traceID hName => exact ⟨_, .traceID hName⟩

/-! ## Storing all members -/

def textOf : Value → Bytes
  | .string raw => unquote raw
  | _ => []

def intOf : Value → Int
  | .number literal => (parseInt64 literal).getD 0
  | _ => 0

/-- The signal holds what the three values say. -/
structure Holds (signal : Signal) (deliveryID generation traceID : Value) : Prop where
  deliveryID : signal.deliveryID = textOf deliveryID
  generation : signal.generation = intOf generation
  traceID : signal.traceID = textOf traceID

section

variable {members : List (Bytes × Value)} {signal signal' : Signal} {deliveryID generation traceID : Value}

theorem Stored.holds {member : Bytes × Value} (hStored : Stored signal member signal')
    (h : Holds signal deliveryID generation traceID) :
    Holds signal' (lastFrom (ascii "delivery_id") deliveryID [member])
      (lastFrom (ascii "generation") generation [member]) (lastFrom (ascii "trace_id") traceID [member]) := by
  have hDG : foldName (ascii "delivery_id") ≠ foldName (ascii "generation") := by
    decide
  have hDT : foldName (ascii "delivery_id") ≠ foldName (ascii "trace_id") := by
    decide
  have hGT : foldName (ascii "generation") ≠ foldName (ascii "trace_id") := by
    decide
  cases hStored with
  | null => simpa [lastFrom, isNull] using h
  | deliveryID hName =>
    refine ⟨?_, ?_, ?_⟩ <;> simp [lastFrom, isNull, ← hName, hDG.symm, hDT.symm, textOf, h.generation, h.traceID]
  | generation hName hInt =>
    refine ⟨?_, ?_, ?_⟩ <;> simp [lastFrom, isNull, ← hName, hDG, hGT.symm, intOf, hInt, h.deliveryID, h.traceID]
  | traceID hName =>
    refine ⟨?_, ?_, ?_⟩ <;> simp [lastFrom, isNull, ← hName, hDT, hGT, textOf, h.deliveryID, h.generation]

theorem holds_of_foldlM (hFold : members.foldlM (storeMember Signal.fields) signal = some signal')
    (h : Holds signal deliveryID generation traceID) :
    Holds signal' (lastFrom (ascii "delivery_id") deliveryID members)
      (lastFrom (ascii "generation") generation members) (lastFrom (ascii "trace_id") traceID members) := by
  induction members generalizing signal deliveryID generation traceID with
  | nil =>
    cases hFold
    exact h
  | cons member members ih =>
    rw [List.foldlM_cons] at hFold
    obtain ⟨u, hFirst, hRest⟩ := Option.bind_eq_some_iff.mp hFold
    exact ih hRest ((storeMember_iff.mp hFirst).holds h)

theorem exists_foldlM_iff :
    (∃ signal', members.foldlM (storeMember Signal.fields) signal = some signal') ↔
      ∀ member ∈ members, Fits member := by
  constructor
  · rintro ⟨signal', hFold⟩ member hMember
    obtain ⟨u, u', hStore⟩ := exists_store_of_mem hFold member hMember
    exact (storeMember_iff.mp hStore).fits
  · intro h
    induction members generalizing signal with
    | nil => exact ⟨signal, rfl⟩
    | cons member members ih =>
      obtain ⟨hFits, hRest⟩ := List.forall_mem_cons.mp h
      obtain ⟨u, hStored⟩ := hFits.stored signal
      rw [List.foldlM_cons, storeMember_iff.mpr hStored]
      exact ih hRest

/-- A number that counts for the generation is in range. -/
theorem parseInt64_of_last {literal : Bytes} (hFits : ∀ member ∈ members, Fits member)
    (hLast : lastFrom (ascii "generation") .null members = .number literal) :
    parseInt64 literal = some (intOf (.number literal)) := by
  rcases lastFrom_mem (ascii "generation") .null members with hNull | ⟨⟨name, v⟩, hMember, _, hv⟩
  · cases hNull.symm.trans hLast
  · obtain rfl : v = .number literal := hv.symm.trans hLast
    cases hFits _ hMember with
    | generation _ hSpells hBounds => simp [intOf, parseInt64_eq_some_iff.mpr ⟨hSpells, hBounds⟩]

theorem textOf_eq_string {v : Value} (h : validUUID (textOf v) = true) :
    ∃ raw, v = .string raw ∧ UUIDForm (unquote raw) := by
  have hEmpty : validUUID [] = false := by
    decide
  cases v with
  | string raw => exact ⟨raw, rfl, validUUID_iff.mp h⟩
  | null | bool | number | array | object => cases hEmpty.symm.trans h

theorem holds_zero : Holds ⟨[], 0, []⟩ .null .null .null := ⟨rfl, rfl, rfl⟩

/-- The decoder and `Validate` accept the loose objects. -/
theorem loose_iff :
    Loose members ↔ ∃ signal, members.foldlM (storeMember Signal.fields) ⟨[], 0, []⟩ = some signal ∧
      signal.validate = .ok () := by
  constructor
  · intro h
    obtain ⟨signal, hFold⟩ := exists_foldlM_iff.mpr h.fits
    have hHolds := holds_of_foldlM hFold holds_zero
    obtain ⟨deliveryID, hDelivery, hDeliveryForm⟩ := h.deliveryID
    obtain ⟨traceID, hTrace, hTraceForm⟩ := h.traceID
    refine ⟨signal, hFold, Signal.validate_eq_ok_iff.mpr ⟨?_, ?_, ?_⟩⟩
    · rw [hHolds.deliveryID, hDelivery]
      exact validUUID_iff.mpr hDeliveryForm
    · rw [hHolds.generation]
      cases hLast : lastFrom (ascii "generation") .null members with
      | number literal =>
        exact h.generation literal _ hLast (parseInt64_eq_some_iff.mp (parseInt64_of_last h.fits hLast)).1
      | null | bool | string | array | object => exact le_refl _
    · rw [hHolds.traceID, hTrace]
      exact validUUID_iff.mpr hTraceForm
  · rintro ⟨signal, hFold, hValid⟩
    have hFits := exists_foldlM_iff.mp ⟨signal, hFold⟩
    have hHolds := holds_of_foldlM hFold holds_zero
    obtain ⟨hDelivery, hGeneration, hTrace⟩ := Signal.validate_eq_ok_iff.mp hValid
    refine ⟨hFits, textOf_eq_string (hHolds.deliveryID ▸ hDelivery), fun literal n hLast hSpells => ?_,
      textOf_eq_string (hHolds.traceID ▸ hTrace)⟩
    rw [hHolds.generation, hLast] at hGeneration
    rwa [hSpells.unique (parseInt64_eq_some_iff.mp (parseInt64_of_last hFits hLast)).1]

/-! ## Conforming and lax bodies -/

/-- Three members, in any order, are all that counts. -/
theorem foldlM_of_perm {deliveryID literal traceID : Bytes}
    (h : members.Perm [(ascii "delivery_id", .string deliveryID), (ascii "generation", .number literal),
      (ascii "trace_id", .string traceID)]) :
    members.foldlM (storeMember Signal.fields) signal =
      (parseInt64 literal).map fun n => ⟨unquote deliveryID, n, unquote traceID⟩ := by
  have hDelivery (signal : Signal) : storeMember Signal.fields signal (ascii "delivery_id", .string deliveryID) =
      some { signal with deliveryID := unquote deliveryID } := rfl
  have hGeneration (signal : Signal) : storeMember Signal.fields signal (ascii "generation", .number literal) =
      (parseInt64 literal).map fun n => { signal with generation := n } := rfl
  have hTrace (signal : Signal) : storeMember Signal.fields signal (ascii "trace_id", .string traceID) =
      some { signal with traceID := unquote traceID } := rfl
  rw [← foldlM_perm h.symm]
  · simp only [List.foldlM_cons, List.foldlM_nil, hDelivery, hGeneration, hTrace]
    cases parseInt64 literal <;> rfl
  · intro a ha b hb u
    fin_cases ha <;> fin_cases hb <;> simp only [hDelivery, hGeneration, hTrace] <;> cases parseInt64 literal <;> rfl

theorem Exact.loose (h : Exact members) : Loose members := by
  obtain ⟨deliveryID, literal, traceID, n, hPerm, ⟨hDelivery, hTrace⟩, hSpells, hLow, hHigh⟩ := h
  have hInt : parseInt64 literal = some n := parseInt64_eq_some_iff.mpr ⟨hSpells, by omega, hHigh⟩
  refine loose_iff.mpr ⟨⟨unquote deliveryID, n, unquote traceID⟩, by rw [foldlM_of_perm hPerm, hInt]; rfl, ?_⟩
  exact Signal.validate_eq_ok_iff.mpr ⟨validUUID_iff.mpr hDelivery, hLow, validUUID_iff.mpr hTrace⟩

theorem Exact.regular (h : Exact members) : Regular members := by
  obtain ⟨deliveryID, literal, traceID, _, hPerm, _⟩ := h
  have hNames : (members.map Prod.fst).Perm [ascii "delivery_id", ascii "generation", ascii "trace_id"] :=
    hPerm.map Prod.fst
  refine ⟨hNames.nodup_iff.mpr (by decide), fun member hMember field hField => ?_, ?_⟩
  · have hAll : ∀ name ∈ [ascii "delivery_id", ascii "generation", ascii "trace_id"], ∀ field ∈ Signal.fields,
        foldName field.name = foldName name → field.name = name := by
      decide
    exact hAll member.1 (hNames.subset (List.mem_map_of_mem hMember)) field hField
  · exact ⟨(ascii "generation", .number literal), hPerm.mem_iff.mpr (by simp), rfl, rfl⟩

/-- A value that counts stands under the very name of its field, if the object is regular. -/
theorem Regular.mem_of_last (h : Regular members) (field : StructField Signal) (hField : field ∈ Signal.fields)
    {v : Value} (hLast : lastFrom field.name .null members = v) (hNull : v ≠ .null) : (field.name, v) ∈ members := by
  rcases lastFrom_mem field.name .null members with hNone | ⟨⟨name, w⟩, hMember, hName, hw⟩
  · exact absurd (hLast.symm.trans hNone) hNull
  · obtain rfl : w = v := hw.symm.trans hLast
    rwa [h.spelled _ hMember field hField hName]

theorem Fits.exists_field {member : Bytes × Value} (h : Fits member) :
    ∃ field ∈ Signal.fields, foldName field.name = foldName member.1 := by
  cases h with
  | null hField hName => exact ⟨_, hField, hName⟩
  | deliveryID hName => exact ⟨deliveryIDField, List.mem_cons_self, hName⟩
  | generation hName => exact ⟨generationField, List.mem_of_getElem? (i := 1) rfl, hName⟩
  | traceID hName => exact ⟨traceIDField, List.mem_of_getElem? (i := 2) rfl, hName⟩

theorem Fits.number {v : Value} (h : Fits (ascii "generation", v)) (hNull : isNull v = false) :
    ∃ literal, v = .number literal := by
  cases h with
  | null => cases hNull
  | deliveryID hName => exact absurd hName (by decide)
  | generation => exact ⟨_, rfl⟩
  | traceID hName => exact absurd hName (by decide)

theorem Loose.exact (h : Loose members) (hRegular : Regular members) : Exact members := by
  obtain ⟨deliveryID, hDelivery, hDeliveryForm⟩ := h.deliveryID
  obtain ⟨traceID, hTrace, hTraceForm⟩ := h.traceID
  obtain ⟨⟨_, v⟩, hGeneration, rfl, hNull⟩ := hRegular.generation
  obtain ⟨literal, rfl⟩ := (h.fits _ hGeneration).number hNull
  have hPerm : members.Perm [(ascii "delivery_id", .string deliveryID), (ascii "generation", .number literal),
      (ascii "trace_id", .string traceID)] := by
    refine perm_of_names hRegular.distinct ?_ (fun member hMember => ?_) ?_
    · simp only [List.map_cons, List.map_nil]
      decide
    · obtain ⟨field, hField, hName⟩ := (h.fits member hMember).exists_field
      rw [← hRegular.spelled member hMember field hField hName]
      exact List.mem_map_of_mem (f := StructField.name) hField
    · have hFirst := hRegular.mem_of_last deliveryIDField List.mem_cons_self hDelivery (by simp)
      have hLast := hRegular.mem_of_last traceIDField (List.mem_of_getElem? (i := 2) rfl) hTrace (by simp)
      simp only [List.forall_mem_cons]
      exact ⟨hFirst, hGeneration, hLast, List.forall_mem_nil _⟩
  obtain ⟨signal, hFold, hValid⟩ := loose_iff.mp h
  rw [foldlM_of_perm hPerm] at hFold
  obtain ⟨n, hInt, rfl⟩ := Option.map_eq_some_iff.mp hFold
  obtain ⟨hSpells, _, hHigh⟩ := parseInt64_eq_some_iff.mp hInt
  exact ⟨deliveryID, literal, traceID, n, hPerm, ⟨hDeliveryForm, hTraceForm⟩, hSpells,
    (Signal.validate_eq_ok_iff.mp hValid).2.1, hHigh⟩

end

theorem oneObject_iff {P : List (Bytes × Value) → Prop} {body : Bytes} :
    OneObject P body ↔
      ∃ members rest, next body = .value (.object members) rest ∧ Space rest ∧ P (named members) := by
  constructor
  · rintro ⟨before, text, after, members, ⟨hBefore, hAfter⟩, hBody, hReads, h⟩
    exact ⟨members, after, next_eq_value_iff.mpr ⟨before, text, hBefore, hBody, hReads⟩, hAfter, h⟩
  · rintro ⟨members, after, hNext, hAfter, h⟩
    obtain ⟨before, text, hBefore, hBody, hReads⟩ := next_eq_value_iff.mp hNext
    exact ⟨before, text, after, members, ⟨hBefore, hAfter⟩, hBody, hReads, h⟩

theorem OneObject.mono {P Q : List (Bytes × Value) → Prop} {body : Bytes} (h : OneObject P body)
    (hPQ : ∀ members, P members → Q members) : OneObject Q body := by
  obtain ⟨before, text, after, members, hSpace, hBody, hReads, hP⟩ := h
  exact ⟨before, text, after, members, hSpace, hBody, hReads, hPQ _ hP⟩

/-- A body is one object in one way only. -/
theorem OneObject.both {P Q : List (Bytes × Value) → Prop} {body : Bytes} (hP : OneObject P body)
    (hQ : OneObject Q body) : ∃ members, P members ∧ Q members := by
  obtain ⟨members, rest, hNext, _, h⟩ := oneObject_iff.mp hP
  obtain ⟨members', rest', hNext', _, h'⟩ := oneObject_iff.mp hQ
  cases hNext.symm.trans hNext'
  exact ⟨named members, h, h'⟩

theorem accepts_iff {body : Bytes} : (∃ signal, Accepts body signal) ↔ OneObject Loose body := by
  rw [oneObject_iff]
  constructor
  · rintro ⟨signal, hDecode, hValid⟩
    obtain ⟨v, rest, hNext, hRest, hStruct⟩ := decodeSignal_eq_some_iff.mp hDecode
    cases v with
    | object members => exact ⟨members, rest, hNext, hRest, loose_iff.mpr ⟨signal, hStruct, hValid⟩⟩
    | null =>
      cases hStruct
      exact absurd hValid (by decide)
    | bool | number | string | array => cases hStruct
  · rintro ⟨members, rest, hNext, hRest, hLoose⟩
    obtain ⟨signal, hFold, hValid⟩ := loose_iff.mp hLoose
    exact ⟨signal, decodeSignal_eq_some_iff.mpr ⟨_, rest, hNext, hRest, hFold⟩, hValid⟩

theorem Schema.accepts {body : Bytes} (h : Schema body) : ∃ signal, Accepts body signal :=
  accepts_iff.mpr (h.mono fun _ hExact => hExact.loose)

/-- The bodies that are accepted and do not conform. -/
theorem lax_iff {body : Bytes} : Lax body ↔ (∃ signal, Accepts body signal) ∧ ¬Schema body := by
  rw [accepts_iff]
  constructor
  · intro hLax
    refine ⟨hLax.mono fun _ h => h.1, fun hSchema => ?_⟩
    obtain ⟨members, hIrregular, hExact⟩ := hLax.both hSchema
    exact hIrregular.2 hExact.regular
  · rintro ⟨⟨before, text, after, members, hSpace, hBody, hReads, hLoose⟩, hNot⟩
    refine ⟨before, text, after, members, hSpace, hBody, hReads, hLoose, fun hRegular => hNot ?_⟩
    exact ⟨before, text, after, members, hSpace, hBody, hReads, hLoose.exact hRegular⟩

/-- A body is accepted if and only if it conforms, and dead-lettered without a look at the store if it does not,
unless it is lax. -/
theorem signal_schema_exact {σ : Type} (consumer : Consumer σ) (body : Bytes) (store : σ) :
    (((∃ signal, Accepts body signal) ↔ Schema body) ∧
      (¬Schema body → (processMessage consumer body store).calls = [.nack false] ∧
        (processMessage consumer body store).store = store ∧
        Stage.receive (message body) = .nacking none false)) ↔ ¬Lax body := by
  rw [lax_iff]
  constructor
  · rintro ⟨hExact, _⟩ ⟨hAccepts, hNot⟩
    exact hNot (hExact.mp hAccepts)
  · intro h
    have hExact : (∃ signal, Accepts body signal) ↔ Schema body :=
      ⟨fun hAccepts => by_contra fun hNot => h ⟨hAccepts, hNot⟩, Schema.accepts⟩
    refine ⟨hExact, fun hNot => ?_⟩
    have hRejected (signal : Signal) (hAccepts : Accepts body signal) : False := hNot (hExact.mp ⟨signal, hAccepts⟩)
    obtain ⟨hCalls, hStore⟩ := processMessage_rejected hRejected consumer store
    rw [message_eq_none_iff.mpr hRejected]
    exact ⟨hCalls, hStore, rfl⟩

namespace Sample

def deliveryID : Bytes := ascii "00000000-0000-4000-8000-000000000001"

def traceID : Bytes := ascii "00000000-0000-4000-8000-000000000002"

/-- An object with the given members in between the two identifiers. -/
@[irreducible]
def body (members : String) : Bytes :=
  ascii "\x7b\"delivery_id\":\"" ++ deliveryID ++ ascii "\"," ++ ascii members ++ ascii "\"trace_id\":\"" ++
    traceID ++ ascii "\"\x7d"

end Sample

/-- The object that the body begins with is not regular. -/
def irregular (body : Bytes) : Bool :=
  match next body with
  | .value (.object members) _ => !decide (Regular (named members))
  | _ => false

theorem Schema.not_irregular {body : Bytes} (h : Schema body) : irregular body = false := by
  obtain ⟨members, rest, hNext, _, hExact⟩ := oneObject_iff.mp h
  simp [irregular, hNext, hExact.regular]

/-- The body with these members is accepted and does not conform. -/
def Overlooked (members : String) (generation : Int) : Prop :=
  Accepts (Sample.body members) ⟨Sample.deliveryID, generation, Sample.traceID⟩ ∧ ¬Schema (Sample.body members)

theorem overlooked_of_irregular {members : String} {generation : Int}
    (h : Accepts (Sample.body members) ⟨Sample.deliveryID, generation, Sample.traceID⟩ ∧
      irregular (Sample.body members) = true) : Overlooked members generation := by
  refine ⟨h.1, fun hSchema => ?_⟩
  cases hSchema.not_irregular.symm.trans h.2

/-- A generation that is missing or null is read as zero, the last of two decides, and its name may be written in
capitals. -/
theorem lax_bodies_accepted :
    Overlooked "" 0 ∧ Overlooked "\"generation\":null," 0 ∧ Overlooked "\"generation\":1,\"generation\":7," 7 ∧
      Overlooked "\"GENERATION\":7," 7 :=
  ⟨overlooked_of_irregular (by decide +kernel), overlooked_of_irregular (by decide +kernel),
   overlooked_of_irregular (by decide +kernel), overlooked_of_irregular (by decide +kernel)⟩

end ReliableNotifier.Wire
