import ReliableNotifier.Library.Json.Decode
import ReliableNotifier.Library.Run

/-! # Reading an object token by token

`json.Decoder` with `Token`, `More` and `Decode` used in turns. The decoder keeps what it
expects next, and a stack of that for the brackets that are open. In front of the members
of an object it yields the name of the first one, then decodes its value, and then stands
in front of the others.
-/

namespace Json

open Checked

/-- What the decoder expects next. -/
inductive TokenState where
  | topValue | arrayStart | arrayValue | arrayComma | objectStart | objectKey | objectColon | objectValue | objectComma
  deriving DecidableEq

namespace TokenState

def valueAllowed : TokenState → Bool
  | topValue | arrayStart | arrayValue | objectValue => true
  | _ => false

def valueEnd : TokenState → TokenState
  | arrayStart | arrayValue => arrayComma
  | objectValue => objectComma
  | state => state

end TokenState

structure Decoder where
  input : Bytes
  state : TokenState
  stack : List TokenState

inductive Token where
  | delim (c : UInt8)
  | string (text : Bytes)
  | value (v : Value)

inductive Fault where
  | eof
  | malformed
  | unexpected
  | mismatch
  deriving DecidableEq

namespace Decoder

/-- `json.NewDecoder`. -/
def new (input : Bytes) : Decoder := ⟨input, .topValue, []⟩

def more (dec : Decoder) : Bool :=
  match skipSpace dec.input with
  | [] => false
  | c :: _ => c ≠ 93 && c ≠ 125

/-- `tokenPrepareForDecode`. -/
def prepare (dec : Decoder) : Except Fault Decoder :=
  match dec.state with
  | .arrayComma => consumeByte 44 .arrayValue
  | .objectColon => consumeByte 58 .objectValue
  | _ => .ok dec
where
  consumeByte (c : UInt8) (state : TokenState) : Except Fault Decoder :=
    match skipSpace dec.input with
    | [] => .error .eof
    | b :: rest => if b = c then .ok ⟨rest, state, dec.stack⟩ else .error .unexpected

/-- `Decode`, where `target` stores a value in the variable that is pointed to. -/
def decode {α : Type} (target : Value → Option α) (dec : Decoder) : Except Fault (α × Decoder) := do
  let dec ← dec.prepare
  ensure dec.state.valueAllowed .unexpected
  match next dec.input with
  | .eof => .error .eof
  | .malformed => .error .malformed
  | .value v rest =>
    match target v with
    | none => .error .mismatch
    | some x => .ok (x, ⟨rest, dec.state.valueEnd, dec.stack⟩)

/-- A Go string that is new, and takes the place of a null as it is. -/
def stringTarget (v : Value) : Option Bytes := storeString (fun text _ => text) v []

def openBracket (c : UInt8) (state : TokenState) (rest : Bytes) (dec : Decoder) : Except Fault (Token × Decoder) := do
  ensure dec.state.valueAllowed .unexpected
  return (.delim c, ⟨rest, state, dec.state :: dec.stack⟩)

def closeBracket (c : UInt8) (states : List TokenState) (rest : Bytes) (dec : Decoder) :
    Except Fault (Token × Decoder) :=
  match dec.stack with
  | outer :: stack =>
    if states.contains dec.state then .ok (.delim c, ⟨rest, outer.valueEnd, stack⟩) else .error .unexpected
  | [] => .error .unexpected

/-- A round of the loop of `Token`, for what is not a colon or a comma. -/
def bare (dec : Decoder) : Except Fault (Token × Decoder) :=
  match skipSpace dec.input with
  | [] => .error .eof
  | c :: rest =>
    if c = 91 then dec.openBracket 91 .arrayStart rest
    else if c = 93 then dec.closeBracket 93 [.arrayStart, .arrayComma] rest
    else if c = 123 then dec.openBracket 123 .objectStart rest
    else if c = 125 then dec.closeBracket 125 [.objectStart, .objectComma] rest
    else if c = 58 || c = 44 then .error .unexpected
    else if c = 34 && (dec.state = .objectStart || dec.state = .objectKey) then do
      let (text, after) ← decode stringTarget { dec with state := .topValue }
      return (.string text, { after with state := .objectColon })
    else do
      ensure dec.state.valueAllowed .unexpected
      let (v, after) ← dec.decode some
      return (match v with | .string raw => .string (unquote raw) | v => .value v, after)

/-- `Token`, which passes over a colon or a comma that it expects. -/
def token (dec : Decoder) : Except Fault (Token × Decoder) :=
  match skipSpace dec.input, dec.state with
  | 58 :: rest, .objectColon => bare ⟨rest, .objectValue, dec.stack⟩
  | 44 :: rest, .arrayComma => bare ⟨rest, .arrayValue, dec.stack⟩
  | 44 :: rest, .objectComma => bare ⟨rest, .objectKey, dec.stack⟩
  | _, _ => bare dec

/-! ## Values and brackets -/

theorem skipSpace_gap {gap : Bytes} (hGap : Space gap) {c : UInt8} (hc : isSpace c = false) (rest : Bytes) :
    skipSpace (gap ++ c :: rest) = c :: rest :=
  (skipSpace_append hGap).trans (skipSpace_cons hc)

theorem decode_of_next {α : Type} {target : Value → Option α} {dec : Decoder} (ready : Decoder) {v : Value}
    {rest : Bytes} (hReady : dec.prepare = .ok ready) (hAllowed : ready.state.valueAllowed = true)
    (hNext : next ready.input = .value v rest) :
    dec.decode target =
      (target v).elim (.error .mismatch) fun x => .ok (x, ⟨rest, ready.state.valueEnd, ready.stack⟩) := by
  simp only [decode, hReady, hAllowed, ensure, if_true, bind, Except.bind, hNext]
  cases target v <;> rfl

theorem decode_topValue {α : Type} {target : Value → Option α} {v : Value} {gap text rest : Bytes}
    {stack : List TokenState} (hGap : Space gap) (hReads : Reads (.value v) text rest) :
    decode target ⟨gap ++ text, .topValue, stack⟩ =
      (target v).elim (.error .mismatch) fun x => .ok (x, ⟨rest, .topValue, stack⟩) :=
  decode_of_next ⟨gap ++ text, .topValue, stack⟩ rfl rfl (next_eq_value_iff.mpr ⟨gap, text, hGap, rfl, hReads⟩)

theorem decode_objectColon {α : Type} {target : Value → Option α} {v : Value} {gapBefore gapAfter text rest : Bytes}
    {stack : List TokenState} (hBefore : Space gapBefore) (hAfter : Space gapAfter)
    (hReads : Reads (.value v) text rest) :
    decode target ⟨gapBefore ++ 58 :: (gapAfter ++ text), .objectColon, stack⟩ =
      (target v).elim (.error .mismatch) fun x => .ok (x, ⟨rest, .objectComma, stack⟩) := by
  have hSkip := skipSpace_gap hBefore (c := 58) rfl (gapAfter ++ text)
  refine decode_of_next ⟨gapAfter ++ text, .objectValue, stack⟩ ?_ rfl
    (next_eq_value_iff.mpr ⟨gapAfter, text, hAfter, rfl, hReads⟩)
  simp only [prepare, prepare.consumeByte, hSkip, if_true]

theorem decode_eof {α : Type} {target : Value → Option α} {rest : Bytes} {stack : List TokenState}
    (h : Space rest) : decode target ⟨rest, .topValue, stack⟩ = .error .eof := by
  simp only [decode, prepare, TokenState.valueAllowed, ensure, if_true, bind, Except.bind, next_eq_eof_iff.mpr h]

theorem more_of_skip {dec : Decoder} {c : UInt8} {rest : Bytes} (hSkip : skipSpace dec.input = c :: rest) :
    dec.more = (c ≠ 93 && c ≠ 125) := by
  rw [more, hSkip]

theorem token_of_skip {dec : Decoder} {c : UInt8} {rest : Bytes} (hSkip : skipSpace dec.input = c :: rest)
    (hColon : c ≠ 58) (hComma : c ≠ 44) : dec.token = dec.bare := by
  rw [token, hSkip]
  split
  · exact absurd (List.cons.inj ‹_›).1 hColon
  · exact absurd (List.cons.inj ‹_›).1 hComma
  · exact absurd (List.cons.inj ‹_›).1 hComma
  · rfl

theorem delim_of_bare {dec after : Decoder} {d : UInt8} (h : dec.bare = .ok (.delim d, after)) :
    ∃ rest, skipSpace dec.input = d :: rest := by
  unfold bare at h
  split at h
  · cases h
  · rename_i c rest hSkip
    have hOpen {state : TokenState} (hToken : dec.openBracket c state rest = .ok (.delim d, after)) : c = d := by
      obtain ⟨_, _, hPure⟩ := bind_ok_iff.mp hToken
      cases pure_ok_iff.mp hPure
      rfl
    have hClose {states : List TokenState} (hToken : dec.closeBracket c states rest = .ok (.delim d, after)) :
        c = d := by
      unfold closeBracket at hToken
      split at hToken
      · split at hToken <;> cases hToken
        rfl
      · cases hToken
    suffices c = d from ⟨rest, this ▸ hSkip⟩
    split at h
    · exact hOpen (‹c = 91› ▸ h)
    · split at h
      · exact hClose (‹c = 93› ▸ h)
      · split at h
        · exact hOpen (‹c = 123› ▸ h)
        · split at h
          · exact hClose (‹c = 125› ▸ h)
          · split at h
            · cases h
            · split at h
              · obtain ⟨_, _, hPure⟩ := bind_ok_iff.mp h
                cases pure_ok_iff.mp hPure
              · obtain ⟨_, _, hRest⟩ := bind_ok_iff.mp h
                obtain ⟨⟨v, _⟩, _, hPure⟩ := bind_ok_iff.mp hRest
                cases v <;> cases pure_ok_iff.mp hPure

theorem delim_of_token {input : Bytes} {after : Decoder} {d : UInt8}
    (h : (new input).token = .ok (.delim d, after)) : ∃ rest, skipSpace input = d :: rest := by
  unfold token at h
  split at h
  · cases ‹(new input).state = _›
  · cases ‹(new input).state = _›
  · cases ‹(new input).state = _›
  · exact delim_of_bare h

theorem token_open (input : Bytes) :
    (new (123 :: input)).token = .ok (.delim 123, ⟨input, .objectStart, [.topValue]⟩) := by
  rfl

theorem bare_name {name gap rest : Bytes} {state : TokenState} {stack : List TokenState}
    (hState : state = .objectStart ∨ state = .objectKey) (hGap : Space gap) (hName : Chars name) :
    bare ⟨gap ++ 34 :: (name ++ 34 :: rest), state, stack⟩ =
      .ok (.string (unquote name), ⟨rest, .objectColon, stack⟩) := by
  have hSkip := skipSpace_gap hGap (c := 34) rfl (name ++ 34 :: rest)
  have hDecode : decode stringTarget ⟨gap ++ 34 :: (name ++ 34 :: rest), .topValue, stack⟩ =
      .ok (unquote name, ⟨rest, .topValue, stack⟩) :=
    decode_topValue hGap (.string hName)
  rcases hState with rfl | rfl <;>
    simp [bare, hSkip, hDecode, bind, Except.bind, pure, Except.pure]

theorem bare_close {gap rest : Bytes} {state outer : TokenState} {stack : List TokenState}
    (hState : state = .objectStart ∨ state = .objectComma) (hGap : Space gap) :
    bare ⟨gap ++ 125 :: rest, state, outer :: stack⟩ = .ok (.delim 125, ⟨rest, outer.valueEnd, stack⟩) := by
  have hSkip := skipSpace_gap hGap (c := 125) rfl rest
  rcases hState with rfl | rfl <;> simp [bare, hSkip, closeBracket]

/-! ## Objects -/

/-- The decoder stands in an object, in front of these members, and `rest` follows the object. -/
inductive Inside (stack : List TokenState) (rest : Bytes) : List (Bytes × Value) → Decoder → Prop
  | empty {gap : Bytes} (hGap : Space gap) : Inside stack rest [] ⟨gap ++ 125 :: rest, .objectStart, stack⟩
  | first {members : List (Bytes × Value)} {input : Bytes} (h : Reads (.members members) input rest) :
      Inside stack rest members ⟨input, .objectStart, stack⟩
  | more {members : List (Bytes × Value)} {input : Bytes} (h : Reads (.moreMembers members) input rest) :
      Inside stack rest members ⟨input, .objectComma, stack⟩

variable {stack : List TokenState} {rest : Bytes} {members : List (Bytes × Value)} {dec : Decoder}

theorem inside_of_reads {input : Bytes} (h : Reads (.value (.object members)) (123 :: input) rest) :
    Inside stack rest members ⟨input, .objectStart, stack⟩ := by
  cases h with
  | emptyObject hGap => exact .empty hGap
  | object h => exact .first h

theorem object_of_reads {v : Value} {input : Bytes} (h : Reads (.value v) (123 :: input) rest) :
    ∃ members, v = .object members := by
  generalize hText : 123 :: input = text at h
  cases h with
  | emptyObject => exact ⟨[], rfl⟩
  | object => exact ⟨_, rfl⟩
  | number hNumber =>
    obtain ⟨c, more, rfl, hPart⟩ := isNumber_cons hNumber
    cases hText
    cases hPart
  | null | boolTrue | boolFalse | string | emptyArray | array => cases hText

theorem length_members_lt {input : Bytes} (h : Reads (.members members) input rest) :
    members.length < input.length := by
  induction members generalizing input with
  | nil => cases h
  | cons member members ih =>
    cases h with
    | members _ _ _ _ hValue hMore =>
      cases hMore with
      | endMembers =>
        simp only [List.length_append, List.length_cons, List.length_nil]
        omega
      | moreMembers _ h =>
        have hLater := ih h
        have hLess := hValue.length_lt
        simp only [List.length_append, List.length_cons] at hLess ⊢
        omega

theorem Inside.length_lt (h : Inside stack rest members dec) : members.length < dec.input.length := by
  cases h with
  | empty => simp
  | first h => exact length_members_lt h
  | more h =>
    cases h with
    | endMembers => simp
    | moreMembers _ h =>
      have hLess := length_members_lt h
      simp only [List.length_append, List.length_cons]
      omega

theorem Inside.close {outer : TokenState} (h : Inside (outer :: stack) rest [] dec) :
    dec.more = false ∧ dec.token = .ok (.delim 125, ⟨rest, outer.valueEnd, stack⟩) := by
  have hClose {gap : Bytes} {state : TokenState} (hGap : Space gap)
      (hState : state = .objectStart ∨ state = .objectComma) :
      Decoder.more ⟨gap ++ 125 :: rest, state, outer :: stack⟩ = false ∧
        token ⟨gap ++ 125 :: rest, state, outer :: stack⟩ = .ok (.delim 125, ⟨rest, outer.valueEnd, stack⟩) := by
    have hSkip := skipSpace_gap hGap (c := 125) rfl rest
    refine ⟨(more_of_skip hSkip).trans rfl, ?_⟩
    rw [token_of_skip hSkip (by decide) (by decide)]
    exact bare_close hState hGap
  cases h with
  | empty hGap => exact hClose hGap (.inl rfl)
  | first h => cases h
  | more h =>
    cases h with
    | endMembers hGap => exact hClose hGap (.inr rfl)
    | moreMembers _ h => cases h

/-- In front of a member: its name is the next token, and once its value is decoded the decoder stands in front of the
others. -/
theorem Inside.next {name : Bytes} {v : Value} (h : Inside stack rest ((name, v) :: members) dec) :
    dec.more = true ∧ ∃ before after, dec.token = .ok (.string (unquote name), before) ∧
      Inside stack rest members after ∧ ∀ {α : Type} (target : Value → Option α),
        before.decode target = (target v).elim (.error .mismatch) fun x => .ok (x, after) := by
  cases h with
  | first h =>
    cases h with
    | members hGap hName hBefore hAfter hValue hMore =>
      have hSkip := skipSpace_gap hGap (c := 34) rfl
      refine ⟨(more_of_skip (hSkip _)).trans rfl, _, _, ?_, .more hMore,
        fun target => decode_objectColon hBefore hAfter hValue⟩
      rw [token_of_skip (hSkip _) (by decide) (by decide)]
      exact bare_name (.inl rfl) hGap hName
  | more h =>
    cases h with
    | moreMembers hComma h =>
      cases h with
      | members hGap hName hBefore hAfter hValue hMore =>
        have hSkip := skipSpace_gap hComma (c := 44) rfl
        refine ⟨(more_of_skip (hSkip _)).trans rfl, _, _, ?_, .more hMore,
          fun target => decode_objectColon hBefore hAfter hValue⟩
        rw [token, hSkip]
        exact bare_name (.inr rfl) hGap hName

end Decoder

end Json
